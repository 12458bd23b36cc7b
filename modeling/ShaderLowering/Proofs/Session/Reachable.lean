import ShaderLowering.Proofs.Session.Interface
import ShaderLowering.Proofs.Session.Resources

/-!
# Reachable sessions

The sessions that a client can be left with after any operations, answered or failed.  All of them
are sound.
-/

namespace ShaderLowering

open Source (Ty Param Function EntryPoint Block Variable Position)

/-- The operations that a client can ask of a session. -/
inductive Lower.IsOperation : {α : Type} → Lower α → Prop
  | input (p : Param) (perPatch : Bool) : IsOperation (createInput p perPatch)
  | output (p : Param) (perPatch : Bool) : IsOperation (createOutput p perPatch)
  | hullOutput (p : Param) (points : Nat) (invocation : Option Nat) :
    IsOperation (createHullOutput p points invocation)
  | locations : IsOperation decorateLocations
  | entryPoint (e : EntryPoint) : IsOperation (entryPoint e)
  | block (b : Block) : IsOperation (block b)
  | blockVariable (v : Variable) : IsOperation (blockVariable v)
  | pushConstant (v : Variable) : IsOperation (pushConstant v)
  | globalBlock (vs : List Variable) : IsOperation (globalBlock vs)
  | globalVariable (v : Variable) : IsOperation (globalVariable v)
  | bindings : IsOperation decorateBindings
  | aliasType (ty : Ty) : IsOperation (aliasType ty)
  | fileVariable (v : Variable) : IsOperation (fileVariable v)
  | functionVariable (v : Variable) : IsOperation (functionVariable v)
  | functionParam (p : Param) : IsOperation (functionParam p)
  | typeExpecting (ty : Ty) (rule : Layout.Rule) (expected : Option Ty) :
    IsOperation (emit (.typeExpecting ty rule expected))
  | counterType : IsOperation (emit .counterType)
  | moveTo (position : Position) : IsOperation (emit (.moveTo position))

/-- A session after some operations. -/
inductive Session.Reachable (stage : Stage) (options : Options) : Session → Prop
  | start : Reachable stage options (.start stage options)
  | step {s : Session} {α : Type} {x : Lower α} : x.IsOperation → Reachable stage options s →
    Reachable stage options (x.runOn s).2

variable {stage : Stage} {options : Options} {s : Session}

/-- Every operation keeps the contract of a session. -/
theorem Lower.IsOperation.keeps {α : Type} {x : Lower α} (hx : x.IsOperation) (hs : s.Sound) :
    Session.contract.Keeps x s := by
  cases hx with
  | input p perPatch => exact keeps_createInput hs
  | output p perPatch => exact keeps_createOutput hs
  | hullOutput p points invocation => exact keeps_createHullOutput hs points invocation
  | locations => exact keeps_decorateLocations hs
  | entryPoint e => exact keeps_entryPoint hs e
  | block b => exact keeps_block hs b
  | blockVariable v => exact keeps_blockVariable hs v
  | pushConstant v => exact keeps_pushConstant hs v
  | globalBlock vs => exact keeps_globalBlock hs vs
  | globalVariable v => exact keeps_globalVariable hs v
  | bindings => exact keeps_decorateBindings hs
  | aliasType ty => exact keeps_aliasType hs ty
  | fileVariable v => exact keeps_fileVariable hs v
  | functionVariable v => exact keeps_aliasable hs _ _ _ _ _
  | functionParam p => exact keeps_aliasable hs _ _ _ _ _
  | typeExpecting ty rule expected =>
    exact keeps_emit hs (Emit.realizes_typeExpecting hs.emitter ty rule expected).keeps
  | counterType => exact keeps_emit hs (Emit.realizes_counterType hs.emitter).keeps
  | moveTo position => exact keeps_moveTo hs position

/-- The invariant of a session holds after any operations. -/
theorem Session.Reachable.sound (h : Session.Reachable stage options s) : s.Sound := by
  induction h with
  | start => exact sound_start stage options
  | step hx _ ih => exact (hx.keeps ih).invariant

/-- No operation changes the options. -/
theorem Session.Reachable.options_eq (h : Session.Reachable stage options s) :
    s.emitter.options = options := by
  induction h with
  | start => rfl
  | step hx hs ih => exact (hx.keeps hs.sound).step.emitter.options.trans ih

end ShaderLowering
