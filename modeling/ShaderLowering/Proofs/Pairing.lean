import ShaderLowering.Proofs.Contract
import ShaderLowering.Proofs.Emission.Realizes

/-!
# Pairs of runs

Two states that are alike are told apart by nothing that a client can see, although the numbers in
them may differ.  A pairing says when states are alike and what an action may do to either of them.
Actions that are run side by side on states that are alike are to leave states that are alike again,
and to answer alike or fail alike.  Like a contract, a pairing is kept by a sequence as soon as
every part keeps it, since neither run can break off without the other.
-/

namespace ShaderLowering.Action

variable {σ α β γ δ : Type}

/-- Two answers agree: they are related, or both are failures that differ in their place at
most. -/
def Agree (Q : α → β → Prop) : Except Failure α → Except Failure β → Prop
  | .ok a, .ok b => Q a b
  | .error f, .error g => f.placeless = g.placeless
  | _, _ => False

/-- When two states are treated alike, and how a later state may differ from an earlier one. -/
structure Pairing (σ : Type) where
  alike : σ → σ → Prop
  step : σ → σ → Prop
  refl : ∀ s, step s s
  trans : ∀ {s s' s''}, step s s' → step s' s'' → step s s''

/-- Run on two states, the actions keep the pairing and give related answers. -/
structure Pairing.Keeps (P : Pairing σ) (Q : α → β → Prop) (x : Action σ α) (y : Action σ β)
    (s t : σ) : Prop where
  alike : P.alike (x.runOn s).2 (y.runOn t).2
  left : P.step s (x.runOn s).2
  right : P.step t (y.runOn t).2
  agree : Agree Q (x.runOn s).1 (y.runOn t).1

namespace Pairing

variable {P : Pairing σ} {Q : α → β → Prop} {R : γ → δ → Prop} {s t : σ}

theorem keeps_pure (h : P.alike s t) {a : α} {b : β} (hab : Q a b) :
    P.Keeps Q (pure a) (pure b) s t := ⟨h, P.refl s, P.refl t, hab⟩

theorem keeps_throw (h : P.alike s t) {f g : Failure} (hfg : f.placeless = g.placeless) :
    P.Keeps Q (throw f) (throw g) s t := ⟨h, P.refl s, P.refl t, hfg⟩

theorem keeps_ofChecked (h : P.alike s t) (c : Checked α) :
    P.Keeps Eq (Action.ofChecked c) (Action.ofChecked c) s t := by
  cases c with
  | ok a => exact keeps_pure h rfl
  | error f => exact keeps_throw h rfl

theorem keeps_modify {f g : σ → σ} (h : P.alike (f s) (g t)) (hs : P.step s (f s))
    (ht : P.step t (g t)) : P.Keeps Eq (modify f : Action σ Unit) (modify g) s t :=
  ⟨h, hs, ht, rfl⟩

/-- What is left of a run that answered is alike to what is left of the other one. -/
theorem Keeps.of_run {x : Action σ α} {y : Action σ β} (hxy : P.Keeps Q x y s t)
    {r : Except Failure α} {r' : Except Failure β} {s' t' : σ} (hx : x.runOn s = (r, s'))
    (hy : y.runOn t = (r', t')) : P.alike s' t' ∧ P.step s s' ∧ P.step t t' ∧ Agree Q r r' := by
  obtain ⟨halike, hleft, hright, hagree⟩ := hxy
  rw [hx, hy] at halike hagree
  rw [hx] at hleft
  rw [hy] at hright
  exact ⟨halike, hleft, hright, hagree⟩

/-- Sequences keep a pairing if their first parts do, and the rests do from wherever the first parts
answer. -/
theorem Keeps.bind {x : Action σ α} {y : Action σ β} {f : α → Action σ γ} {g : β → Action σ δ}
    (hxy : P.Keeps Q x y s t)
    (hfg : ∀ a b s' t', P.alike s' t' → Q a b → x.runOn s = (.ok a, s') →
      y.runOn t = (.ok b, t') → P.Keeps R (f a) (g b) s' t') :
    P.Keeps R (x >>= f) (y >>= g) s t := by
  rcases hx : x.runOn s with ⟨err | a, s'⟩ <;> rcases hy : y.runOn t with ⟨err' | b, t'⟩ <;>
    obtain ⟨halike, hleft, hright, hagree⟩ := hxy.of_run hx hy
  · refine ⟨?_, ?_, ?_, ?_⟩ <;>
      simp only [runOn_bind_of_error hx, runOn_bind_of_error hy] <;> assumption
  · exact False.elim hagree
  · exact False.elim hagree
  · obtain ⟨halike', hleft', hright', hagree'⟩ := hfg a b s' t' halike hagree hx hy
    refine ⟨?_, ?_, ?_, ?_⟩ <;> simp only [runOn_bind_of_ok hx, runOn_bind_of_ok hy]
    · exact halike'
    · exact P.trans hleft hleft'
    · exact P.trans hright hright'
    · exact hagree'

/-- The actions may look at the states that they are run on. -/
theorem keeps_get_bind {f : σ → Action σ α} {g : σ → Action σ β} (h : P.Keeps Q (f s) (g t) s t) :
    P.Keeps Q (get >>= f) (get >>= g) s t := by
  have hf : (get >>= f).runOn s = (f s).runOn s := runOn_bind_of_ok (runOn_get s)
  have hg : (get >>= g).runOn t = (g t).runOn t := runOn_bind_of_ok (runOn_get t)
  refine ⟨?_, ?_, ?_, ?_⟩ <;> simp only [hf, hg]
  · exact h.alike
  · exact h.left
  · exact h.right
  · exact h.agree

/-- A loop over one list keeps a pairing if every round does. -/
theorem keeps_forM {f g : α → Action σ Unit} (l : List α)
    (hfg : ∀ a s t, P.alike s t → P.Keeps Eq (f a) (g a) s t) (h : P.alike s t) :
    P.Keeps Eq (l.forM f) (l.forM g) s t := by
  induction l generalizing s t with
  | nil => exact keeps_pure h rfl
  | cons a rest ih => exact (hfg a s t h).bind fun _ _ _ _ h' _ _ _ => ih h'

/-- Less may be said about the answers. -/
theorem Keeps.mono {x : Action σ α} {y : Action σ β} {Q' : α → β → Prop} (h : P.Keeps Q x y s t)
    (hQ : ∀ a b, Q a b → Q' a b) : P.Keeps Q' x y s t := by
  refine ⟨h.alike, h.left, h.right, ?_⟩
  have hagree := h.agree
  revert hagree
  cases (x.runOn s).1 <;> cases (y.runOn t).1
  · exact id
  · exact id
  · exact id
  · exact hQ _ _

end Pairing

end ShaderLowering.Action
