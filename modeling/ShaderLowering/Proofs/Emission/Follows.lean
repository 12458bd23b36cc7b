import ShaderLowering.Proofs.Checked
import ShaderLowering.Proofs.Contract
import ShaderLowering.Proofs.Emission.Realizes
import ShaderLowering.Proofs.Spirv.Interning

/-!
# Actions that enter a written type

Most parts of an emission leave the tables of types and constants as they are (`Emit.Idle`).  The
others enter the written type: the tables are left as they are after its tree was entered into
them, and the answer is the number that the tree was given (`Emit.Enters`).

`Emit.Follows` relates the answer of an action to a written value in the emitter that is left.  It
is composed along `>>=` like `Emit.Realizes`, which provides for the invariants on the way.
-/

namespace ShaderLowering

open Source (Scalar)
open Spirv (TypeTree TreeForm TypeDecoration TypeId Shape)

/-- The emitter is sound, and its tables hold nothing twice. -/
structure Emitter.Regular (e : Emitter) : Prop where
  sound : e.Sound
  canonical : e.target.Canonical

namespace Emit

variable {α β γ δ : Type} {e e' e₁ e₂ : Emitter} {expected : Option Scalar}

theorem Realizes.regular {x : Emit α} {d : Written β} {R : Emitter → α → β → Prop}
    (hx : Realizes x e d R) (he : e.Regular) : (x.runOn e).2.Regular :=
  ⟨hx.sound, hx.grows.target.canonical he.canonical⟩

/-! ## Parts of an emission that leave the tables alone -/

/-- What is demanded of an action that leaves the tables of types and constants alone. -/
def tables : Action.Contract Emitter where
  invariant _ := True
  step e e' := e'.target.bare = e.target.bare
  refl _ := rfl
  trans h h' := h'.trans h

/-- The action leaves the tables alone, wherever it is run. -/
def Idle (x : Emit α) : Prop := ∀ e, tables.Keeps x e

open Action.Contract (keeps_pure keeps_throw keeps_ofChecked keeps_get_bind)

theorem Idle.bind {x : Emit α} {f : α → Emit β} (hx : Idle x) (hf : ∀ a, Idle (f a)) :
    Idle (x >>= f) :=
  fun e => (hx e).bind fun a e' _ _ _ => hf a e'

theorem idle_pure (a : α) : Idle (pure a) := fun _ => keeps_pure trivial a

theorem idle_throw (f : Failure) : Idle (throw f : Emit α) := fun _ => keeps_throw trivial f

theorem idle_ofChecked (c : Checked α) : Idle (.ofChecked c) := fun _ => keeps_ofChecked trivial c

theorem idle_get_bind {f : Emitter → Emit α} (hf : ∀ e, Idle (f e)) : Idle (get >>= f) :=
  fun e => keeps_get_bind (hf e e)

theorem idle_declare (c : Option Spirv.Capability) (x : Option Spirv.Extension) :
    Idle (declare c x) := by
  intro e
  refine ⟨trivial, ?_⟩
  change (x.elim (c.elim e.target e.target.require) _).bare = e.target.bare
  cases x <;> cases c <;> simp only [Option.elim, Spirv.Module.bare_enable,
    Spirv.Module.bare_require]

theorem idle_require (c : Spirv.Capability) : Idle (require c) :=
  fun e => ⟨trivial, e.target.bare_require c⟩

theorem idle_report (f : Finding) (position : Source.Position) : Idle (report f position) :=
  fun _ => ⟨trivial, rfl⟩

theorem idle_reportHere (f : Finding) : Idle (reportHere f) :=
  idle_get_bind fun e => idle_report f e.position

theorem idle_abort (f : Finding) : Idle (abort f : Emit α) :=
  (idle_reportHere f).bind fun _ => idle_get_bind fun _ => idle_throw _

/-! ## Actions that follow a written value -/

/-- Where the action, run on the emitter, gives an answer and there is a written value, the two are
related in the emitter that is left. -/
def Follows (x : Emit α) (e : Emitter) (d : Written β) (R : Emitter → α → β → Prop) : Prop :=
  ∀ a e' b, x.runOn e = (.ok a, e') → d = .ok b → R e' a b

/-- The later tables are those of the earlier emitter with the tree entered, and the number is the
one that it was given. -/
def Enters (e : Emitter) (e' : Emitter) (id : TypeId) (tree : TypeTree) : Prop :=
  tree.intern e.target.bare = (id, e'.target.bare)

section

variable {id : TypeId} {tree : TypeTree}

theorem Enters.of_stop (h : Enters e e₁ id tree) (hbare : e₂.target.bare = e₁.target.bare) :
    Enters e e₂ id tree := by
  rw [Enters, h, hbare]

theorem Enters.of_start (h : Enters e₁ e₂ id tree) (hbare : e₁.target.bare = e.target.bare) :
    Enters e e₂ id tree := by
  rw [Enters, ← hbare]
  exact h

end

theorem follows_of_error {x : Emit α} {f : Failure} {R : Emitter → α → β → Prop} :
    Follows x e (.error f : Written β) R := by
  intro a e' b _ hb
  cases hb

theorem Follows.imp {x : Emit α} {d : Written β} {R S : Emitter → α → β → Prop}
    (hx : Follows x e d R) (h : ∀ e' a b, R e' a b → S e' a b) : Follows x e d S :=
  fun a e' b hrun hb => h e' a b (hx a e' b hrun hb)

theorem follows_pure {a : α} {b : β} {R : Emitter → α → β → Prop} (h : R e a b) :
    Follows (pure a) e (.ok b) R := by
  intro a' e' b' hrun hb
  cases hrun
  cases hb
  exact h

theorem follows_get_bind {f : Emitter → Emit α} {d : Written β} {R : Emitter → α → β → Prop}
    (h : Follows (f e) e d R) : Follows (get >>= f) e d R := by
  intro a e' b hrun hb
  rw [Action.runOn_bind_of_ok (Action.runOn_get e)] at hrun
  exact h a e' b hrun hb

theorem Follows.bind {x : Emit α} {f : α → Emit γ} {d : Written β} {g : β → Written δ}
    {R : Emitter → α → β → Prop} {S : Emitter → γ → δ → Prop} (hx : Follows x e d R)
    (hf : ∀ e' a b, x.runOn e = (.ok a, e') → R e' a b → Follows (f a) e' (g b) S) :
    Follows (x >>= f) e (d >>= g) S := by
  intro c e' b hrun hb
  obtain ⟨a, e₁, hx₁, hrun⟩ := Action.runOn_bind_eq_ok_iff.1 hrun
  obtain ⟨b₁, hb₁, hb⟩ := bind_eq_ok_iff.1 hb
  exact hf e₁ a b₁ hx₁ (hx a e₁ b₁ hx₁ hb₁) c e' b hrun hb

/-- A first part with a known written value. -/
theorem Follows.step {x : Emit α} {f : α → Emit γ} {b : β} {d : Written δ}
    {R : Emitter → α → β → Prop} {S : Emitter → γ → δ → Prop} (hx : Follows x e (.ok b) R)
    (hf : ∀ e' a, R e' a b → Follows (f a) e' d S) : Follows (x >>= f) e d S := by
  intro c e' d' hrun hd
  obtain ⟨a, e₁, hx₁, hrun⟩ := Action.runOn_bind_eq_ok_iff.1 hrun
  exact hf e₁ a (hx a e₁ b hx₁ rfl) c e' d' hrun hd

theorem follows_ofChecked (e : Emitter) (c : Checked α) :
    Follows (.ofChecked c) e (Written.ofChecked c) fun e' a b =>
      a = b ∧ e'.target.bare = e.target.bare := by
  intro a e' b hrun hb
  obtain ⟨hc, rfl⟩ := Action.runOn_ofChecked_eq_ok_iff.1 hrun
  rw [Written.ofChecked_eq_ok_iff, hc] at hb
  exact ⟨Except.ok.inj hb, rfl⟩

/-- A first part after which the emitter is regular again. -/
theorem Realizes.follow {x : Emit α} {f : α → Emit γ} {d : Written β} {g : β → Written δ}
    {Q R : Emitter → α → β → Prop} {S : Emitter → γ → δ → Prop} (hx : Realizes x e d Q)
    (he : e.Regular) (hfollows : Follows x e d R)
    (hf : ∀ e' a b, e'.Regular → e.Grows e' → R e' a b → Follows (f a) e' (g b) S) :
    Follows (x >>= f) e (d >>= g) S := by
  refine hfollows.bind fun e' a b hrun hR => ?_
  have hregular := hx.regular he
  have hgrows := hx.grows
  rw [hrun] at hregular hgrows
  exact hf e' a b hregular hgrows hR

/-- A first part that leaves the tables alone. -/
theorem Realizes.pass {x : Emit α} {f : α → Emit γ} {d : Written α} {g : α → Written δ}
    {S : Emitter → γ → δ → Prop} (hx : Realizes x e d Same) (he : e.Regular) (hidle : Idle x)
    (hf : ∀ e' a, e'.Regular → e.Grows e' → e'.target.bare = e.target.bare →
      Follows (f a) e' (g a) S) :
    Follows (x >>= f) e (d >>= g) S := by
  have hfollows : Follows x e d fun e' a b => a = b ∧ e'.target.bare = e.target.bare := by
    intro a e' b hrun hb
    have hagrees := hx.agrees
    rw [hrun, hb] at hagrees
    exact ⟨hagrees, ((hidle e).of_run hrun).2⟩
  refine hx.follow he hfollows fun e' a b he' hg h => ?_
  obtain ⟨rfl, hbare⟩ := h
  exact hf e' a he' hg hbare

/-- A first part with a known written value, of which more was known. -/
theorem Realizes.followStep {x : Emit α} {f : α → Emit γ} {b : β} {d : Written δ}
    {Q R : Emitter → α → β → Prop} {S : Emitter → γ → δ → Prop} (hx : Realizes x e (.ok b) Q)
    (he : e.Regular) (hfollows : Follows x e (.ok b) R)
    (hf : ∀ e' a, e'.Regular → e.Grows e' → R e' a b → Follows (f a) e' d S) :
    Follows (x >>= f) e d S := by
  have hknown : Follows x e (.ok b) fun e' a b' => b' = b ∧ R e' a b' := by
    intro a e' b' hrun hb
    exact ⟨(Except.ok.inj hb).symm, hfollows a e' b' hrun hb⟩
  refine hx.follow (g := fun _ => d) he hknown fun e' a b' he' hg hR => ?_
  obtain ⟨rfl, hR⟩ := hR
  exact hf e' a he' hg hR

/-- A first part with a known answer that leaves the tables alone. -/
theorem Realizes.passStep {x : Emit α} {f : α → Emit γ} {a : α} {d : Written δ}
    {S : Emitter → γ → δ → Prop} (hx : Realizes x e (.ok a) Same) (he : e.Regular) (hidle : Idle x)
    (hf : ∀ e', e'.Regular → e.Grows e' → e'.target.bare = e.target.bare →
      Follows (f a) e' d S) :
    Follows (x >>= f) e d S := by
  have hfollows : Follows x e (.ok a) fun e' a' _ => a' = a ∧ e'.target.bare = e.target.bare := by
    intro a' e' b hrun _
    exact ⟨hx.answer hrun, ((hidle e).of_run hrun).2⟩
  refine hx.followStep he hfollows fun e' a' he' hg h => ?_
  obtain ⟨rfl, hbare⟩ := h
  exact hf e' he' hg hbare

/-! ## Types -/

theorem enters_insertType {name : Option String} {shape : Shape} {form : TreeForm}
    {ds : List TypeDecoration} (h : form.intern e.target.bare = (shape, e'.target.bare)) :
    Follows (insertType ⟨name, shape, ds⟩) e' (.ok (.node name form ds)) (Enters e) := by
  intro id e'' tree hrun htree
  cases hrun
  cases htree
  rw [Enters, TypeTree.intern, h]
  exact Spirv.Module.insertType_bare _ _

theorem enters_scalarType (s : Spirv.Scalar) (h : e'.target.bare = e.target.bare) :
    Follows (scalarType s) e' (.ok (Written.plain (.scalar s))) (Enters e) :=
  enters_insertType (by rw [TreeForm.intern, h])

/-- What is remembered is there already. -/
theorem enters_remembered (he : e.Regular) {key : EmissionKey} {make : Emit TypeId}
    {d : Written TypeTree} (hd : expected = none → Written.ofKey e.options key = d)
    (hmake : Follows make e d (Enters e)) :
    Follows (remembered key expected make) e d (Enters e) := by
  rw [remembered]
  split
  · exact hmake
  · rename_i hexpected
    refine follows_get_bind ?_
    split
    · rename_i id hid
      obtain ⟨tree, hwritten, ht⟩ := he.sound.known key id hid
      rw [← hd (by simpa using hexpected), hwritten]
      have hw := Spirv.Module.wellFormed_bare he.sound.wellFormed
      have hcanonical := Spirv.Module.canonical_bare he.canonical
      have hbare : e.target.bare.tree? id = some tree :=
        (e.target.tree?_bare id).trans ht
      exact follows_pure (Spirv.Module.intern_of_tree? hw hcanonical tree hbare)
    · rw [← bind_pure d]
      refine hmake.bind fun e' id tree _ htree => ?_
      intro id' e'' tree' hrun hb
      cases hrun
      cases hb
      exact htree

/-- A constant is entered after its type. -/
theorem follows_constant (e : Emitter) (n : Nat) :
    Follows (constant n) e (.ok n) fun e' c n =>
      e.target.bare.constant n = (c, e'.target.bare) := by
  intro c e' n' hrun hn
  have hsame : (.ok (e.target.constant n).1, { e with target := (e.target.constant n).2 })
      = ((.ok c, e') : Except Failure Spirv.ConstantId × Emitter) := hrun
  rw [Prod.mk.injEq, Except.ok.injEq] at hsame
  obtain ⟨rfl, rfl⟩ := hsame
  cases hn
  exact e.target.constant_bare n

end Emit

end ShaderLowering
