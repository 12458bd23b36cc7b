import Mathlib.Data.List.Forall2
import ShaderLowering.Proofs.Action
import ShaderLowering.Proofs.Emission.Written
import ShaderLowering.Proofs.Spirv.Closed

/-!
# Actions that realize a written value

The emitter keeps types in a table under numbers, looks up what it has emitted before and reports
findings on the way.  None of this shows in the result.  `Emitter.Sound` is the invariant behind
that: the table is well formed, and what the emitter remembers for a key is the written tree of
that key.  `Emit.Realizes` says of one action that it keeps the invariant, that it only adds to the
module, and that it answers as a written value does: with a number whose tree is the written one,
or with the error for which there is none.

Both are composed along `>>=` like the actions themselves, so the emission functions can be
compared with the written ones line by line.
-/

namespace ShaderLowering

open Source (Scalar)
open Spirv (TypeTree TypeId TypeEntry)

/-! ## What emission keeps -/

namespace Emitter

/-- What an emission may do to the emitter: add to the module and report findings. -/
structure Grows (e e' : Emitter) : Prop where
  options : e'.options = e.options
  position : e'.position = e.position
  target : e.target.Grows e'.target
  closed : e.target.Closed → e'.target.Closed
  log : e.log.entries <+: e'.log.entries

/-- The table is well formed, and remembered types are the written ones. -/
structure Sound (e : Emitter) : Prop where
  wellFormed : e.target.WellFormed
  known : ∀ key id, e.known.lookup key = some id →
    ∃ tree, Written.ofKey e.options key = .ok tree ∧ e.target.tree? id = some tree

variable {e e' e'' : Emitter}

theorem Grows.refl (e : Emitter) : e.Grows e :=
  ⟨rfl, rfl, .refl _, id, List.prefix_refl _⟩

theorem Grows.trans (h : e.Grows e') (h' : e'.Grows e'') : e.Grows e'' where
  options := h'.options.trans h.options
  position := h'.position.trans h.position
  target := h.target.trans h'.target
  closed he := h'.closed (h.closed he)
  log := h.log.trans h'.log

/-- A type keeps its tree. -/
theorem Grows.tree? (h : e.Grows e') {id : TypeId} {tree : TypeTree}
    (ht : e.target.tree? id = some tree) : e'.target.tree? id = some tree :=
  Spirv.Module.tree?_mono h.target ht

theorem Grows.tree?_all (h : e.Grows e') {ids : List TypeId} {trees : List TypeTree}
    (ht : List.Forall₂ (fun id tree => e.target.tree? id = some tree) ids trees) :
    List.Forall₂ (fun id tree => e'.target.tree? id = some tree) ids trees :=
  ht.imp fun _ _ => h.tree?

theorem sound_start (options : Options) : (Emitter.start options).Sound where
  wellFormed i t h := by simp [start, Spirv.Module.require, Spirv.Interned.get?] at h
  known key id h := by simp [start] at h

/-- An emitter that grew stays sound if its table is well formed and it remembers no more. -/
theorem Sound.grow (he : e.Sound) (h : e.Grows e') (hw : e'.target.WellFormed)
    (hk : e'.known = e.known) : e'.Sound where
  wellFormed := hw
  known key id hl := by
    rw [hk] at hl
    obtain ⟨tree, hw, ht⟩ := he.known key id hl
    exact ⟨tree, h.options ▸ hw, h.tree? ht⟩

end Emitter

/-! ## Actions that realize a written value -/

/-- An error without the place it carries. -/
def Failure.placeless : Failure → Failure
  | .error (.fatal message _) => .error (.fatal message {})
  | f => f

/-- Two answers that agree: related values, or errors that differ in their place at most. -/
def Written.Agrees {α β : Type} (R : α → β → Prop) : Except Failure α → Written β → Prop
  | .ok a, .ok b => R a b
  | .error f, .error g => f.placeless = g
  | _, _ => False

namespace Emit

variable {α β γ δ : Type} {e : Emitter}

/-- Run on an emitter, the action answers as the written value does, its answers related to that
one's in the emitter it leaves, and it leaves the emitter sound. -/
structure Realizes (x : Emit α) (e : Emitter) (d : Written β) (R : Emitter → α → β → Prop) :
    Prop where
  sound : (x.runOn e).2.Sound
  grows : e.Grows (x.runOn e).2
  agrees : Written.Agrees (R (x.runOn e).2) (x.runOn e).1 d

theorem Realizes.bind_of_ok {x : Emit α} {f : α → Emit γ} {d : Written β} {g : β → Written δ}
    {R : Emitter → α → β → Prop} {S : Emitter → γ → δ → Prop} (hx : Realizes x e d R)
    (hf : ∀ e' a b, d = .ok b → e'.Sound → e.Grows e' → R e' a b → Realizes (f a) e' (g b) S) :
    Realizes (x >>= f) e (d >>= g) S := by
  obtain ⟨hsound, hgrows, hagrees⟩ := hx
  rcases hr : x.runOn e with ⟨_ | a, e'⟩ <;> rw [hr] at hsound hgrows hagrees
  · rename_i err
    rcases d with err' | b
    on_goal 2 => exact absurd hagrees id
    rw [← hagrees]
    have hrun := Action.runOn_bind_of_error (f := f) hr
    exact ⟨hrun ▸ hsound, hrun ▸ hgrows, hrun ▸ rfl⟩
  · rcases d with err' | b
    · exact absurd hagrees id
    obtain ⟨hsound', hgrows', hagrees'⟩ := hf e' a b rfl hsound hgrows hagrees
    have hrun := Action.runOn_bind_of_ok (f := f) hr
    exact ⟨hrun ▸ hsound', hrun ▸ hgrows.trans hgrows', hrun ▸ hagrees'⟩

theorem Realizes.bind {x : Emit α} {f : α → Emit γ} {d : Written β} {g : β → Written δ}
    {R : Emitter → α → β → Prop} {S : Emitter → γ → δ → Prop} (hx : Realizes x e d R)
    (hf : ∀ e' a b, e'.Sound → e.Grows e' → R e' a b → Realizes (f a) e' (g b) S) :
    Realizes (x >>= f) e (d >>= g) S :=
  hx.bind_of_ok fun e' a b _ => hf e' a b

/-- A first part with a known answer. -/
theorem Realizes.step {x : Emit α} {f : α → Emit γ} {b : β} {d : Written δ}
    {R : Emitter → α → β → Prop} {S : Emitter → γ → δ → Prop} (hx : Realizes x e (.ok b) R)
    (hf : ∀ e' a, e'.Sound → e.Grows e' → R e' a b → Realizes (f a) e' d S) :
    Realizes (x >>= f) e d S := by
  refine hx.bind_of_ok (g := fun _ => d) fun e' a b' hb he' hg hR => ?_
  cases hb
  exact hf e' a he' hg hR

/-- An answer is related to the known one. -/
theorem Realizes.answer {x : Emit α} {b : β} {R : Emitter → α → β → Prop} {a : α} {e' : Emitter}
    (hx : Realizes x e (.ok b) R) (h : x.runOn e = (.ok a, e')) : R e' a b := by
  have hagrees := hx.agrees
  rw [h] at hagrees
  exact hagrees

/-- Where an answer is given, there is a written value that it is related to. -/
theorem Realizes.exists_of_run {x : Emit α} {d : Written β} {R : Emitter → α → β → Prop} {a : α}
    {e' : Emitter} (hx : Realizes x e d R) (h : x.runOn e = (.ok a, e')) :
    ∃ b, d = .ok b ∧ R e' a b := by
  have hagrees := hx.agrees
  rw [h] at hagrees
  cases d with
  | ok b => exact ⟨b, rfl, hagrees⟩
  | error f => exact False.elim hagrees

/-- Where there is a written value, an answer is given. -/
theorem Realizes.exists_run {x : Emit α} {b : β} {R : Emitter → α → β → Prop}
    (hx : Realizes x e (.ok b) R) : ∃ a e', x.runOn e = (.ok a, e') ∧ R e' a b := by
  have hagrees := hx.agrees
  rcases hrun : x.runOn e with ⟨f | a, e'⟩ <;> rw [hrun] at hagrees
  · exact False.elim hagrees
  · exact ⟨a, e', rfl, hagrees⟩

/-- A number whose type has a given tree. -/
def IsTree (e : Emitter) (id : TypeId) (tree : TypeTree) : Prop :=
  e.target.tree? id = some tree

/-- The number that an emission answers with is that of a type in the table. -/
theorem Realizes.lt_types {x : Emit TypeId} {d : Written TypeTree} {id : TypeId} {e' : Emitter}
    (hx : Realizes x e d IsTree) (h : x.runOn e = (.ok id, e')) : id < e'.target.types.size := by
  obtain ⟨tree, -, htree⟩ := hx.exists_of_run h
  exact Spirv.Module.lt_of_tree? htree

/-- Two equal answers. -/
def Same (_ : Emitter) (a b : α) : Prop := a = b

theorem realizes_pure {a : α} {b : β} {R : Emitter → α → β → Prop} (he : e.Sound) (h : R e a b) :
    Realizes (pure a) e (.ok b) R :=
  ⟨he, .refl e, h⟩

theorem realizes_throw {f g : Failure} {R : Emitter → α → β → Prop} (he : e.Sound)
    (h : f.placeless = g) : Realizes (throw f) e (.error g) R :=
  ⟨he, .refl e, h⟩

theorem realizes_get_bind {f : Emitter → Emit α} {d : Written β} {R : Emitter → α → β → Prop}
    (h : Realizes (f e) e d R) : Realizes (get >>= f) e d R := by
  have hrun : (get >>= f).runOn e = (f e).runOn e := Action.runOn_bind_of_ok (Action.runOn_get e)
  exact ⟨hrun ▸ h.sound, hrun ▸ h.grows, hrun ▸ h.agrees⟩

theorem realizes_ofChecked (he : e.Sound) (c : Checked α) :
    Realizes (.ofChecked c) e (Written.ofChecked c) Same := by
  cases c with
  | ok a => exact realizes_pure he rfl
  | error f => exact realizes_throw he rfl

/-- An action that leaves the types alone. -/
theorem realizes_modify {f : Emitter → Emitter} (he : e.Sound) (hg : e.Grows (f e))
    (ht : (f e).target.types = e.target.types) (hk : (f e).known = e.known) :
    Realizes (modify f) e (.ok ()) Same := by
  refine ⟨he.grow hg ?_ hk, hg, rfl⟩
  intro i t h
  exact he.wellFormed i t (ht ▸ h)

/-! ## Requirements and findings -/

theorem realizes_declare (he : e.Sound) (c : Option Spirv.Capability)
    (x : Option Spirv.Extension) : Realizes (declare c x) e (.ok ()) Same := by
  have hc : e.target.Grows (c.elim e.target e.target.require) ∧
      (e.target.Closed → (c.elim e.target e.target.require).Closed) ∧
      (c.elim e.target e.target.require).types = e.target.types := by
    cases c with
    | none => exact ⟨.refl _, id, rfl⟩
    | some c =>
      exact ⟨e.target.grows_require c, (Spirv.Module.closed_require · c), e.target.types_require c⟩
  generalize hm : c.elim e.target e.target.require = m at hc
  obtain ⟨hgrows, hclosed, htypes⟩ := hc
  refine realizes_modify he ?_ ?_ rfl
  · cases x with
    | none => exact ⟨rfl, rfl, hm ▸ hgrows, hm ▸ hclosed, List.prefix_refl _⟩
    | some x =>
      exact ⟨rfl, rfl, hm ▸ hgrows.trans (m.grows_enable x),
        fun he => hm ▸ Spirv.Module.closed_enable (hclosed he) x, List.prefix_refl _⟩
  · cases x with
    | none => exact hm ▸ htypes
    | some x => exact hm ▸ (m.types_enable x).trans htypes

theorem realizes_require (he : e.Sound) (c : Spirv.Capability) :
    Realizes (require c) e (.ok ()) Same :=
  realizes_declare he (some c) none

theorem realizes_report (he : e.Sound) (f : Finding) (position : Source.Position) :
    Realizes (report f position) e (.ok ()) Same :=
  realizes_modify he ⟨rfl, rfl, .refl _, id, List.prefix_append _ _⟩ rfl rfl

theorem realizes_reportHere (he : e.Sound) (f : Finding) :
    Realizes (reportHere f) e (.ok ()) Same :=
  realizes_get_bind (realizes_report he f e.position)

theorem realizes_abort (he : e.Sound) (f : Finding) {R : Emitter → α → β → Prop} :
    Realizes (abort f) e (Written.abort f) R :=
  (realizes_reportHere he f).step fun _ _ he' _ _ => realizes_get_bind (realizes_throw he' rfl)

/-! ## Types -/

/-- A new entry gets the tree that is composed of the trees of its parts. -/
theorem realizes_insertType (he : e.Sound) {t : TypeEntry} {tree : TypeTree}
    (h : t.tree? e.target.constantValue? e.target.tree? = some tree) :
    Realizes (insertType t) e (.ok tree) IsTree := by
  have hg : e.Grows { e with target := (e.target.insertType t).2 } :=
    { Emitter.Grows.refl e with
      target := e.target.grows_insertType t
      closed := fun he => Spirv.Module.closed_insertType he fun c hc =>
        Spirv.Module.lt_of_constantValue? (Spirv.TypeEntry.isSome_length_of_tree? h c hc) }
  exact ⟨he.grow hg (Spirv.Module.wellFormed_insertType he.wellFormed h) rfl, hg,
    Spirv.Module.tree?_insertType he.wellFormed h⟩

theorem realizes_scalarType (he : e.Sound) (s : Spirv.Scalar) :
    Realizes (scalarType s) e (.ok (Written.plain (.scalar s))) IsTree :=
  realizes_insertType he rfl

/-- A constant has the value that was asked for. -/
theorem realizes_constant (he : e.Sound) (n : Nat) :
    Realizes (constant n) e (.ok n) fun e' c n => e'.target.constantValue? c = some n := by
  have hg : e.Grows { e with target := (e.target.constant n).2 } :=
    { Emitter.Grows.refl e with
      target := e.target.grows_constant n
      closed := fun he => Spirv.Module.closed_constant he n }
  exact ⟨he.grow hg (Spirv.Module.wellFormed_constant he.wellFormed n) rfl, hg,
    e.target.constantValue?_constant n⟩

/-- What is remembered is what would be emitted. -/
theorem realizes_remembered (he : e.Sound) {key : EmissionKey} {expected : Option Scalar}
    {make : Emit TypeId} {d : Written TypeTree}
    (hd : expected = none → Written.ofKey e.options key = d) (hmake : Realizes make e d IsTree) :
    Realizes (remembered key expected make) e d IsTree := by
  rw [remembered]
  split
  · exact hmake
  · rename_i hexpected
    refine realizes_get_bind ?_
    split
    · rename_i id hid
      obtain ⟨tree, hw, ht⟩ := he.known key id hid
      rw [← hd (by simpa using hexpected), hw]
      exact realizes_pure he ht
    · rw [← bind_pure d]
      refine hmake.bind_of_ok fun e' id tree hok he' hg htree => ?_
      refine ⟨⟨he'.wellFormed, fun key' id' h' => ?_⟩, { Emitter.Grows.refl e' with }, htree⟩
      change List.lookup key' ((key, id) :: e'.known) = some id' at h'
      rw [List.lookup_cons] at h'
      split at h'
      · rename_i hkey
        cases h'
        refine ⟨tree, ?_, htree⟩
        rw [eq_of_beq hkey]
        change Written.ofKey e'.options key = _
        rw [hg.options, hd (by simpa using hexpected), hok]
      · exact he'.known key' id' h'

end Emit

end ShaderLowering
