import ShaderLowering.Layout.Types
import ShaderLowering.Emission.Numeric

/-!
# Plain data

The types that describe memory and nothing else: scalars of the usual widths, vectors and matrices
of up to four rows and columns, arrays of fixed length, and structures of such.
-/

namespace ShaderLowering.Source

namespace Scalar

/-- Whether a scalar is stored in 16, 32 or 64 bits. -/
def isSized : Scalar → Bool
  | .int bits _ | .float bits => decide (bits = 16 ∨ bits = 32 ∨ bits = 64)
  | _ => true

/-- Where nothing is expected, every scalar is settled. -/
theorem settled_none (s : Scalar) : s.settled none = s := by
  cases s <;> rfl

variable (options : Options) {rule : Layout.Rule} {s : Scalar}

theorem bits_of_isSized (h : s.isSized = true) :
    s.bits options = 16 ∨ s.bits options = 32 ∨ s.bits options = 64 := by
  have hnarrow : options.narrowBits = 16 ∨ options.narrowBits = 32 := by
    rw [Options.narrowBits]
    split <;> simp
  cases s with
  | bool => exact .inr (.inl rfl)
  | int bits signed => exact of_decide_eq_true h
  | float bits =>
    rw [Scalar.bits]
    split
    · exact hnarrow.imp_right .inl
    · exact of_decide_eq_true h
  | minInt | minFloat => exact hnarrow.imp_right .inl
  | literalInt bits | literalFloat bits =>
    rw [Scalar.bits]
    split <;> simp

theorem bytes_of_isSized (h : s.isSized = true) :
    s.bytes options = 2 ∨ s.bytes options = 4 ∨ s.bytes options = 8 := by
  have hbits := bits_of_isSized options h
  rw [bytes]
  omega

/-- Under a memory layout a scalar is emitted with as many bytes as the layout counts for it. -/
theorem stored_of_isSized (h : s.isSized = true) (hrule : rule ≠ .unlaid) :
    (s.stored options rule none).kind ≠ .bool ∧
      (s.stored options rule none).width = s.bytes options := by
  have hbytes := bytes_of_isSized options h
  by_cases hs : s = .bool
  · subst hs
    rw [stored, if_pos rfl, if_neg hrule]
    exact ⟨by decide, by simp [Spirv.Scalar.uint32, bytes, bits]⟩
  · rw [stored, if_neg hs]
    refine ⟨?_, ?_⟩
    · show kind (s.settled none) ≠ .bool
      rw [settled_none, kind, if_neg hs]
      split
      · decide
      · split <;> decide
    · show s.expectedBits options none / 8 % 256 = s.bytes options
      rw [expectedBits, settled_none, ← bytes]
      omega

end Scalar

mutual

/-- Whether a type is plain data. -/
def Ty.isPlainData : Ty → Bool
  | .scalar elem => elem.isSized
  | .vector elem count => elem.isSized && decide (1 ≤ count ∧ count ≤ 4)
  | .matrix elem rows cols =>
    elem.isSized && decide (1 ≤ rows ∧ rows ≤ 4) && decide (1 ≤ cols ∧ cols ≤ 4)
  | .array elem (some _) => elem.isPlainData
  | .struct _ base fields => base.isPlainData && fields.arePlainData
  | .alias _ target | .oriented _ target => target.isPlainData
  | .void | .array _ none | .resource _ _ => false

/-- Whether a type, if present, is plain data. -/
def OptionalTy.isPlainData : OptionalTy → Bool
  | .absent => true
  | .present ty => ty.isPlainData

/-- Whether the types of all fields are plain data. -/
def Fields.arePlainData : Fields → Bool
  | .nil => true
  | .cons _ ty _ _ rest => ty.isPlainData && rest.arePlainData

end

mutual

/-- Whether each matrix in a type has a property, given the orders seen on the way to it. -/
def Ty.everyMatrix (p : Layout.Orientation → Scalar → Nat → Nat → Bool) :
    Ty → Layout.Orientation → Bool
  | .matrix elem rows cols, o => p o elem rows cols
  | .array elem _, o => elem.everyMatrix p o.element
  | .struct _ base fields, _ => base.everyMatrix p && fields.everyMatrix p
  | .alias _ target, o => target.everyMatrix p o
  | .oriented order target, o => target.everyMatrix p (o.annotate order)
  | .void, _ | .scalar _, _ | .vector _ _, _ | .resource _ _, _ => true

@[inherit_doc Ty.everyMatrix]
def OptionalTy.everyMatrix (p : Layout.Orientation → Scalar → Nat → Nat → Bool) :
    OptionalTy → Bool
  | .absent => true
  | .present ty => ty.everyMatrix p {}

@[inherit_doc Ty.everyMatrix]
def Fields.everyMatrix (p : Layout.Orientation → Scalar → Nat → Nat → Bool) : Fields → Bool
  | .nil => true
  | .cons _ ty _ _ rest => ty.everyMatrix p {} && rest.everyMatrix p

end

mutual

theorem Ty.everyMatrix_mono {p q : Layout.Orientation → Scalar → Nat → Nat → Bool}
    (hpq : ∀ o elem rows cols, p o elem rows cols = true → q o elem rows cols = true) :
    (ty : Ty) → (o : Layout.Orientation) → ty.everyMatrix p o = true → ty.everyMatrix q o = true
  | .matrix elem rows cols, o, h => hpq o elem rows cols h
  | .array elem _, o, h => elem.everyMatrix_mono hpq o.element h
  | .struct _ base fields, _, h => by
    rw [Ty.everyMatrix, Bool.and_eq_true] at h ⊢
    exact ⟨base.everyMatrix_mono hpq h.1, fields.everyMatrix_mono hpq h.2⟩
  | .alias _ target, o, h => target.everyMatrix_mono hpq o h
  | .oriented order target, o, h => target.everyMatrix_mono hpq (o.annotate order) h
  | .void, _, _ | .scalar _, _, _ | .vector _ _, _, _ | .resource _ _, _, _ => rfl

theorem OptionalTy.everyMatrix_mono {p q : Layout.Orientation → Scalar → Nat → Nat → Bool}
    (hpq : ∀ o elem rows cols, p o elem rows cols = true → q o elem rows cols = true) :
    (base : OptionalTy) → base.everyMatrix p = true → base.everyMatrix q = true
  | .absent, _ => rfl
  | .present ty, h => ty.everyMatrix_mono hpq {} h

theorem Fields.everyMatrix_mono {p q : Layout.Orientation → Scalar → Nat → Nat → Bool}
    (hpq : ∀ o elem rows cols, p o elem rows cols = true → q o elem rows cols = true) :
    (fields : Fields) → fields.everyMatrix p = true → fields.everyMatrix q = true
  | .nil, _ => rfl
  | .cons _ ty _ _ rest, h => by
    rw [Fields.everyMatrix, Bool.and_eq_true] at h ⊢
    exact ⟨ty.everyMatrix_mono hpq {} h.1, rest.everyMatrix_mono hpq h.2⟩

end

/-- Plain data is no array of resources. -/
theorem Ty.isResourceArray_of_isPlainData : (ty : Ty) → ty.isPlainData = true →
    ty.isResourceArray = false
  | .array elem (some _), h => elem.isResourceArray_of_isPlainData h
  | .alias _ target, h => target.isResourceArray_of_isPlainData h
  | .oriented _ target, h => target.isResourceArray_of_isPlainData h
  | .scalar _, _ | .vector _ _, _ | .matrix _ _ _, _ | .struct _ _ _, _ => rfl

end ShaderLowering.Source
