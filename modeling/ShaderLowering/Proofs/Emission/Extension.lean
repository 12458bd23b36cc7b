import ShaderLowering.Proofs.Contract
import ShaderLowering.Proofs.Emission.Variables
import ShaderLowering.Proofs.Spirv.Extension

/-!
# The contract of the emitter

What every action of the emitter keeps, also one that breaks off: the emitter stays sound, its
module is extended, its options stay the same, and what is reported is never taken back.
-/

namespace ShaderLowering

open Spirv (TypeId VariableId)

namespace Emitter

/-- The second emitter has all that the first one has. -/
structure Extends (e e' : Emitter) : Prop where
  options : e'.options = e.options
  target : e.target.Extends e'.target
  closed : e.target.Closed → e'.target.Closed
  log : e.log.entries <+: e'.log.entries

variable {e e' e'' : Emitter}

theorem Grows.extends (h : e.Grows e') : e.Extends e' :=
  ⟨h.options, h.target.extends, h.closed, h.log⟩

theorem Extends.refl (e : Emitter) : e.Extends e := (Grows.refl e).extends

theorem Extends.trans (h : e.Extends e') (h' : e'.Extends e'') : e.Extends e'' where
  options := h'.options.trans h.options
  target := h.target.trans h'.target
  closed he := h'.closed (h.closed he)
  log := h.log.trans h'.log

/-- Soundness is about the types, the constants and what is known of them. -/
theorem Sound.congr (he : e.Sound) (htypes : e'.target.types = e.target.types)
    (hconstants : e'.target.constants = e.target.constants) (hoptions : e'.options = e.options)
    (hknown : e'.known = e.known) : e'.Sound where
  wellFormed i t ht := he.wellFormed i t (htypes ▸ ht)
  known key id hid := by
    obtain ⟨tree, hwritten, htree⟩ := he.known key id (hknown ▸ hid)
    have hvalues : e'.target.constantValue? = e.target.constantValue? := by
      funext c
      rw [Spirv.Module.constantValue?, Spirv.Module.constantValue?, hconstants]
    refine ⟨tree, hoptions ▸ hwritten, ?_⟩
    rw [← htree, Spirv.Module.tree?, Spirv.Module.tree?, htypes, hvalues]

/-- The contract of the emitter. -/
def contract : Action.Contract Emitter where
  invariant := Sound
  step := Extends
  refl := .refl
  trans := .trans

end Emitter

namespace Emit

open Emitter (contract)

variable {α β : Type} {e : Emitter}

theorem Realizes.keeps {x : Emit α} {d : Written β} {R : Emitter → α → β → Prop}
    (h : Realizes x e d R) : contract.Keeps x e := ⟨h.sound, h.grows.extends⟩

theorem keeps_moveTo (he : e.Sound) (position : Source.Position) :
    contract.Keeps (moveTo position) e :=
  ⟨he.congr rfl rfl rfl rfl, { Emitter.Extends.refl e with }⟩

theorem keeps_addVariable (he : e.Sound) {v : Spirv.Variable} (hv : v.ty < e.target.types.size) :
    contract.Keeps (addVariable v) e :=
  ⟨he.congr rfl rfl rfl rfl,
    { Emitter.Extends.refl e with
      target := e.target.extends_addVariable v
      closed := fun he => Spirv.Module.closed_addVariable he hv }⟩

/-- A decoration of a variable that does not exist is refused and changes nothing. -/
theorem keeps_decorate (he : e.Sound) (id : VariableId) (d : Spirv.VariableDecoration) :
    contract.Keeps (decorate id d) e := by
  refine Action.Contract.keeps_get_bind ?_
  split
  · rename_i target htarget
    have hextends := Spirv.Module.extends_decorate htarget
    have hclosed := fun he => Spirv.Module.closed_decorate he htarget
    rw [Spirv.Module.decorate] at htarget
    split at htarget
    · cases htarget
      exact ⟨he.congr rfl rfl rfl rfl,
        { Emitter.Extends.refl e with target := hextends, closed := hclosed }⟩
    · cases htarget
  · exact Action.Contract.keeps_throw he _

/-! ## New variables -/

/-- Run on an emitter, the action keeps the contract, and it answers with a variable that was not
there before. -/
structure MakesVariable (x : Emit α) (var : α → VariableId) (e : Emitter) : Prop where
  keeps : contract.Keeps x e
  fresh : ∀ a e', x.runOn e = (.ok a, e') →
    e.target.variables.size ≤ var a ∧ var a < e'.target.variables.size

theorem makesVariable_addVariable (he : e.Sound) {v : Spirv.Variable}
    (hv : v.ty < e.target.types.size) : MakesVariable (addVariable v) id e := by
  refine ⟨keeps_addVariable he hv, fun a e' h => ?_⟩
  cases h
  refine ⟨Nat.le_refl _, ?_⟩
  show _ < (e.target.variables.push v).size
  rw [Spirv.Table.size_push]
  exact Nat.lt_succ_self _

/-- A variable that is made after something else. -/
theorem MakesVariable.after {x : Emit α} {f : α → Emit β} {var : β → VariableId}
    (hx : contract.Keeps x e)
    (hf : ∀ a e', e'.Sound → e.Extends e' → x.runOn e = (.ok a, e') →
      MakesVariable (f a) var e') :
    MakesVariable (x >>= f) var e := by
  refine ⟨hx.bind fun a e' he' hstep hrun => (hf a e' he' hstep hrun).keeps, fun b e'' h => ?_⟩
  obtain ⟨a, e', h₁, h₂⟩ := Action.runOn_bind_eq_ok_iff.1 h
  obtain ⟨he', hstep⟩ := hx.of_run h₁
  obtain ⟨hle, hlt⟩ := (hf a e' he' hstep h₁).fresh b e'' h₂
  exact ⟨Nat.le_trans hstep.target.size_le hle, hlt⟩

/-- A variable that is made before something else. -/
theorem MakesVariable.bind {x : Emit α} {f : α → Emit β} {var : α → VariableId}
    {var' : β → VariableId} (hx : MakesVariable x var e)
    (hf : ∀ a e', e'.Sound → contract.Keeps (f a) e')
    (hvar : ∀ a e' b e'', (f a).runOn e' = (.ok b, e'') → var' b = var a) :
    MakesVariable (x >>= f) var' e := by
  refine ⟨hx.keeps.bind fun a e' he' _ _ => hf a e' he', fun b e'' h => ?_⟩
  obtain ⟨a, e', h₁, h₂⟩ := Action.runOn_bind_eq_ok_iff.1 h
  obtain ⟨-, hstep⟩ := (hf a e' (hx.keeps.of_run h₁).1).of_run h₂
  obtain ⟨hle, hlt⟩ := hx.fresh a e' h₁
  exact hvar a e' b e'' h₂ ▸ ⟨hle, Nat.lt_of_lt_of_le hlt hstep.target.size_le⟩

end Emit

end ShaderLowering
