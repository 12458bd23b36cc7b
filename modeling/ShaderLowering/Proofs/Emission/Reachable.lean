import ShaderLowering.Proofs.Emission.Simulation

/-!
# Reachable emitters

The emitters that a client can be left with after any number of requests, answered or failed.  All
of them are sound, so what a request answers does not depend on the requests before it.
-/

namespace ShaderLowering

open Source (Ty)
open Spirv (TypeTree TypeId)

/-- An emitter after some requests. -/
inductive Emitter.Reachable (options : Options) : Emitter → Prop
  | start : Reachable options (.start options)
  | typeExpecting {e : Emitter} (ty : Ty) (rule : Layout.Rule) (expected : Option Ty) :
    Reachable options e → Reachable options ((Emit.typeExpecting ty rule expected).runOn e).2
  | counterType {e : Emitter} :
    Reachable options e → Reachable options (Emit.counterType.runOn e).2
  | moveTo {e : Emitter} (position : Source.Position) :
    Reachable options e → Reachable options ((Emit.moveTo position).runOn e).2

variable {options : Options} {e : Emitter}

theorem Emit.realizes_typeExpecting (he : e.Sound) (ty : Ty) (rule : Layout.Rule)
    (expected : Option Ty) :
    Emit.Realizes (Emit.typeExpecting ty rule expected) e
      (Written.ofTy e.options ty rule {} (expected.bind (·.elementScalar?))) Emit.IsTree :=
  Emit.realizes_ofTy ty rule {} _ he

/-- The invariant of the emitter holds after any requests. -/
theorem Emitter.Reachable.sound (h : Emitter.Reachable options e) :
    e.Sound ∧ e.options = options := by
  induction h with
  | start => exact ⟨Emitter.sound_start options, rfl⟩
  | typeExpecting ty rule expected _ ih =>
    have hrun := Emit.realizes_typeExpecting ih.1 ty rule expected
    exact ⟨hrun.sound, hrun.grows.options.trans ih.2⟩
  | counterType _ ih =>
    have hrun := Emit.realizes_counterType ih.1
    exact ⟨hrun.sound, hrun.grows.options.trans ih.2⟩
  | moveTo position _ ih => exact ⟨⟨ih.1.wellFormed, ih.1.known⟩, ih.2⟩

/-- A type that is emitted has the written tree. -/
theorem Emit.tree?_of_type (h : Emitter.Reachable options e) {ty : Ty} {rule : Layout.Rule}
    {id : TypeId} (hid : ((Emit.type ty rule).runOn e).1 = .ok id) :
    ∃ tree, Written.ofTy options ty rule {} none = .ok tree ∧
      ((Emit.type ty rule).runOn e).2.target.tree? id = some tree := by
  obtain ⟨he, hoptions⟩ := h.sound
  have hagrees := (Emit.realizes_ofTy ty rule {} none he).agrees
  rw [hoptions] at hagrees
  change ((Emit.ofTy ty rule {} none).runOn e).1 = .ok id at hid
  rw [hid] at hagrees
  cases hw : Written.ofTy options ty rule {} none with
  | ok tree =>
    rw [hw] at hagrees
    exact ⟨tree, rfl, hagrees⟩
  | error f =>
    rw [hw] at hagrees
    exact False.elim hagrees

end ShaderLowering
