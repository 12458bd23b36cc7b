/-!
# Checked arithmetic on 32-bit words

Every number of this library, a size, an offset, a location or a binding, is a natural number
below `2 ^ 32`.  Arithmetic on them is exact or it breaks off: a result that is no word is a
`Fault`, never a wrapped value.  The lemmas below say for each operation which natural number it
returns and when it returns at all, so that later arguments are about natural numbers.
-/

namespace ShaderLowering

/-- The ways in which a computation breaks off without an answer. -/
inductive Fault
  /-- The result of an arithmetic operation is not a 32-bit word. -/
  | overflow
  /-- A table was read at a position that it does not have. -/
  | outOfBounds
deriving DecidableEq, Repr

/-- A value, or the fault that prevented it. -/
abbrev Checked (α : Type) := Except Fault α

namespace Word

/-- The least number that is not a word, the 32nd power of two. -/
def bound : Nat := 0x100000000

/-- A number as a word, if it is one. -/
def ofNat (n : Nat) : Checked Nat :=
  if n < bound then .ok n else .error .overflow

/-- The sum of two words. -/
def add (a b : Nat) : Checked Nat := ofNat (a + b)

/-- The product of two words. -/
def mul (a b : Nat) : Checked Nat := ofNat (a * b)

/-- The difference of two words; a negative one is an overflow. -/
def sub (a b : Nat) : Checked Nat :=
  if b ≤ a then .ok (a - b) else .error .overflow

/-- The least multiple of `alignment` that is at least `value`; any value is aligned to zero. -/
def roundUp (value alignment : Nat) : Checked Nat :=
  if alignment = 0 then .ok value
  else mul ((value + (alignment - 1)) / alignment) alignment

theorem ofNat_eq_ok_iff {n m : Nat} : ofNat n = .ok m ↔ m = n ∧ n < bound := by
  unfold ofNat
  split
  · simp only [Except.ok.injEq]
    omega
  · simp only [reduceCtorEq, false_iff]
    omega

theorem add_eq_ok_iff {a b c : Nat} : add a b = .ok c ↔ c = a + b ∧ a + b < bound :=
  ofNat_eq_ok_iff

theorem mul_eq_ok_iff {a b c : Nat} : mul a b = .ok c ↔ c = a * b ∧ a * b < bound :=
  ofNat_eq_ok_iff

theorem sub_eq_ok_iff {a b c : Nat} : sub a b = .ok c ↔ a = b + c := by
  unfold sub
  split
  · simp only [Except.ok.injEq]
    omega
  · simp only [reduceCtorEq, false_iff]
    omega

theorem roundUp_eq_ok_iff {value alignment r : Nat} (h : 0 < alignment) :
    roundUp value alignment = .ok r ↔
      alignment ∣ r ∧ value ≤ r ∧ r < value + alignment ∧ r < bound := by
  have hdiv := Nat.div_add_mod (value + (alignment - 1)) alignment
  have hmod := Nat.mod_lt (value + (alignment - 1)) h
  rw [roundUp, if_neg (by omega), mul_eq_ok_iff, Nat.mul_comm]
  constructor
  · rintro ⟨rfl, hb⟩
    exact ⟨Nat.dvd_mul_right _ _, by omega, by omega, hb⟩
  · rintro ⟨⟨k, rfl⟩, hle, hlt, hb⟩
    have hk : (value + (alignment - 1)) / alignment = k := by
      rw [Nat.div_eq_iff h, Nat.mul_comm k]
      omega
    rw [hk]
    exact ⟨rfl, hb⟩

end Word

end ShaderLowering
