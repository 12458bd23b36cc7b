import ShaderLowering.Word

/-!
# Checked computations that return

What follows from the answer of a checked computation: its parts answered too, and each arithmetic
operation gave the number that it stands for.  One that breaks off does so in one of its parts.
-/

namespace ShaderLowering

/-- A sequence answers exactly when its first part does and the rest does from there. -/
theorem bind_eq_ok_iff {ε α β : Type} {x : Except ε α} {f : α → Except ε β} {b : β} :
    x >>= f = .ok b ↔ ∃ a, x = .ok a ∧ f a = .ok b := by
  constructor
  · intro h
    cases x with
    | ok a => exact ⟨a, rfl, h⟩
    | error e => cases h
  · rintro ⟨a, rfl, h⟩
    exact h

/-- A sequence fails exactly when its first part does, or the rest does from there. -/
theorem bind_eq_error_iff {ε α β : Type} {x : Except ε α} {f : α → Except ε β} {e : ε} :
    x >>= f = .error e ↔ x = .error e ∨ ∃ a, x = .ok a ∧ f a = .error e := by
  constructor
  · intro h
    cases x with
    | ok a => exact .inr ⟨a, rfl, h⟩
    | error e =>
      cases h
      exact .inl rfl
  · rintro (rfl | ⟨a, rfl, h⟩)
    · rfl
    · exact h

namespace Word

theorem eq_overflow_of_add {a b : Nat} {f : Fault} (h : add a b = .error f) : f = .overflow := by
  rw [add, ofNat] at h
  split at h <;> cases h
  rfl

theorem le_of_roundUp {value alignment r : Nat} (h : roundUp value alignment = .ok r) :
    value ≤ r := by
  rcases Nat.eq_zero_or_pos alignment with h0 | hpos
  · rw [roundUp, if_pos h0] at h
    cases h
    exact Nat.le_refl value
  · exact ((roundUp_eq_ok_iff hpos).1 h).2.1

/-- Rounding up to sixteen gives the next multiple of it. -/
theorem roundUp_sixteen {value r : Nat} (h : roundUp value 16 = .ok r) :
    r = (value + 15) / 16 * 16 :=
  (mul_eq_ok_iff.1 h).1

end Word

end ShaderLowering
