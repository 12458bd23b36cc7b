import ShaderLowering.Proofs.Emission.Interchange
import ShaderLowering.Proofs.Layout.PlainData

/-!
# Expected scalars as substitutions

A type may be asked for with another type whose scalar is expected.  Where no memory layout is asked
for, this is a substitution: a literal below arrays, typedefs and matrix orders is replaced by the
expected scalar, if that is of the literal's family and no literal itself, and everything else is
emitted as it stands (`Emit.interchangeable_expecting`).  Structures and resources take no notice of
an expected scalar, and neither do arrays of them.
-/

namespace ShaderLowering

open Source (Ty Scalar)
open Spirv (TypeTree)

namespace Source

/-- Whether the scalar is a literal and the expected one a scalar of its family that is no literal
itself. -/
def Scalar.yieldsTo (s expected : Scalar) : Bool :=
  match s with
  | .literalInt _ => expected.isInteger && !expected.isLiteral
  | .literalFloat _ => expected.isFloat && !expected.isLiteral
  | _ => false

namespace Ty

/-- The scalar of the scalar, vector or matrix below all arrays and wrappers, if there is one. -/
def innermostScalar? : Ty → Option Scalar
  | .alias _ target | .oriented _ target => target.innermostScalar?
  | .array elem _ => elem.innermostScalar?
  | .scalar elem | .vector elem _ | .matrix elem _ _ => some elem
  | .void | .struct _ _ _ | .resource _ _ => none

/-- The type with another scalar below all arrays and wrappers. -/
def withScalar (new : Scalar) : Ty → Ty
  | .alias name target => .alias name (target.withScalar new)
  | .oriented order target => .oriented order (target.withScalar new)
  | .array elem length => .array (elem.withScalar new) length
  | .scalar _ => .scalar new
  | .vector _ count => .vector new count
  | .matrix _ rows cols => .matrix new rows cols
  | ty => ty

end Ty

/-! ## Scalars -/

namespace Scalar

variable {s expected : Scalar} (options : Options) (rule : Layout.Rule)

theorem settled_of_yieldsTo (h : s.yieldsTo expected = true) :
    s.settled (some expected) = expected := by
  cases s <;> simp_all [yieldsTo, settled]

theorem settled_of_not_yieldsTo (h : s.yieldsTo expected = false) :
    s.settled (some expected) = s := by
  cases s <;> simp_all [yieldsTo, settled]

/-- Both scalars are of one family, and none of them is the truth value. -/
theorem family_of_yieldsTo (h : s.yieldsTo expected = true) :
    s ≠ .bool ∧ expected ≠ .bool ∧ s.isFloat = expected.isFloat := by
  cases s <;> cases expected <;> simp_all [yieldsTo, isInteger, isFloat, isLiteral]

theorem stored_of_yieldsTo (h : s.yieldsTo expected = true) :
    s.stored options rule (some expected) = expected.stored options rule none := by
  obtain ⟨hs, hexpected, -⟩ := family_of_yieldsTo h
  rw [stored, stored, if_neg hs, if_neg hexpected, expectedBits, expectedBits,
    settled_of_yieldsTo h, settled_none]

theorem stored_of_not_yieldsTo (h : s.yieldsTo expected = false) :
    s.stored options rule (some expected) = s.stored options rule none := by
  rw [stored, stored, expectedBits, expectedBits, settled_of_not_yieldsTo h, settled_none]

end Scalar

end Source

/-! ## Written types -/

namespace Written

variable {options : Options} {rule : Layout.Rule} {o : Layout.Orientation} {s s' expected : Scalar}
  {hint hint' : Option Scalar}

theorem ofVector_congr (h : s.stored options rule hint = s'.stored options rule hint')
    (count : Nat) : ofVector options rule hint s count = ofVector options rule hint' s' count := by
  rw [ofVector, ofVector, ofScalar, ofScalar, h]

theorem ofMatrix_congr (h : s.stored options rule hint = s'.stored options rule hint')
    (hfloat : s.isFloat = s'.isFloat) (rows cols : Nat)
    (hstride : strideOf options rule (.matrix s rows cols) o
      = strideOf options rule (.matrix s' rows cols) o) :
    ofMatrix options rule o hint s rows cols = ofMatrix options rule o hint' s' rows cols := by
  simp only [ofMatrix, ofVector_congr h, hfloat, hstride]

/-- An expected scalar that settles nothing changes nothing. -/
theorem ofTy_of_not_yieldsTo : (ty : Ty) → (o : Layout.Orientation) →
    (∀ s, ty.innermostScalar? = some s → s.yieldsTo expected = false) →
    ofTy options ty rule o (some expected) = ofTy options ty rule o none
  | .alias _ target, o, h => ofTy_of_not_yieldsTo target o h
  | .oriented order target, o, h => ofTy_of_not_yieldsTo target (o.annotate order) h
  | .array elem length, o, h => by
    rw [ofTy, ofTy, ofTy_of_not_yieldsTo elem o.element h]
  | .scalar s, o, h => by
    rw [ofTy, ofTy, ofScalar, ofScalar, s.stored_of_not_yieldsTo options rule (h s rfl)]
  | .vector s count, o, h => by
    rw [ofTy, ofTy, ofVector_congr (s.stored_of_not_yieldsTo options rule (h s rfl))]
  | .matrix s rows cols, o, h => by
    rw [ofTy, ofTy]
    exact ofMatrix_congr (s.stored_of_not_yieldsTo options rule (h s rfl)) rfl rows cols rfl
  | .void, o, h | .struct _ _ _, o, h | .resource _ _, o, h => by
    rw [ofTy, ofTy]

/-- Without a memory layout the scalar that a literal yields to takes its place. -/
theorem ofTy_withScalar : (ty : Ty) → (o : Layout.Orientation) → {s : Scalar} →
    ty.innermostScalar? = some s → s.yieldsTo expected = true →
    ofTy options ty .unlaid o (some expected) = ofTy options (ty.withScalar expected) .unlaid o none
  | .alias _ target, o, _, hs, h => ofTy_withScalar target o hs h
  | .oriented order target, o, _, hs, h => ofTy_withScalar target (o.annotate order) hs h
  | .array elem length, o, _, hs, h => by
    rw [Ty.withScalar, ofTy, ofTy, ofTy_withScalar elem o.element hs h]
    simp only [ofArray, strideOf, if_pos, ite_self]
  | .scalar s, o, _, hs, h => by
    cases hs
    rw [Ty.withScalar, ofTy, ofTy, ofScalar, ofScalar, s.stored_of_yieldsTo options .unlaid h]
  | .vector s count, o, _, hs, h => by
    cases hs
    rw [Ty.withScalar, ofTy, ofTy, ofVector_congr (s.stored_of_yieldsTo options .unlaid h)]
  | .matrix s rows cols, o, _, hs, h => by
    cases hs
    rw [Ty.withScalar, ofTy, ofTy]
    exact ofMatrix_congr (s.stored_of_yieldsTo options .unlaid h) (Scalar.family_of_yieldsTo h).2.2
      rows cols rfl
  | .void, _, _, hs, _ | .struct _ _ _, _, _, hs, _ | .resource _ _, _, _, hs, _ => by
    cases hs

end Written

namespace Emit

variable {options : Options} {e : Emitter}

/-- **Without a memory layout an expected type acts as a substitution.**  If its scalar settles the
literal below the arrays and wrappers of a type, the request is interchangeable with one for the
type with that scalar in the place of the literal.  In every other case it is interchangeable with
the request without an expected type: where the scalar of the type is no literal, the families
differ, the expected scalar is a literal or there is none, and for structures, resources and arrays
of them. -/
theorem interchangeable_expecting (he : Emitter.Attained options e) (ty expected : Ty) :
    (∀ s new, ty.innermostScalar? = some s → expected.elementScalar? = some new →
        s.yieldsTo new = true →
        Interchangeable (typeExpecting ty .unlaid (some expected))
          (type (ty.withScalar new) .unlaid) e) ∧
      ((∀ s new, ty.innermostScalar? = some s → expected.elementScalar? = some new →
          s.yieldsTo new = false) →
        Interchangeable (typeExpecting ty .unlaid (some expected)) (type ty .unlaid) e) := by
  constructor
  · intro s new hs hnew h
    refine (interchangeable_type_iff he.regular).2 ?_
    rw [Option.bind_some, hnew]
    exact Written.ofTy_withScalar ty {} hs h
  · intro h
    refine (interchangeable_type_iff he.regular).2 ?_
    rw [Option.bind_some]
    cases hnew : expected.elementScalar? with
    | none => rfl
    | some new => exact Written.ofTy_of_not_yieldsTo ty {} fun s hs => h s new hs hnew

/-- Two rows of literals behind a typedef and a matrix order. -/
def literalRows : Ty :=
  .alias "Rows" (.oriented .rowMajor (.array (.matrix (.literalInt 32) 2 3) (some 2)))

theorem interchangeable_expecting_literalRows :
    Emitter.Attained {} afterWideVector ∧
    literalRows.innermostScalar? = some (.literalInt 32) ∧
    Ty.elementScalar? (.vector (.int 64 false) 2) = some (.int 64 false) ∧
    Scalar.yieldsTo (.literalInt 32) (.int 64 false) = true ∧
    Interchangeable (typeExpecting literalRows .unlaid (some (.vector (.int 64 false) 2)))
      (type (literalRows.withScalar (.int 64 false)) .unlaid) afterWideVector ∧
    Scalar.yieldsTo (.literalInt 32) .single = false ∧
    Interchangeable (typeExpecting literalRows .unlaid (some (.scalar .single)))
      (type literalRows .unlaid) afterWideVector ∧
    Ty.innermostScalar? (.array openStruct (some 3)) = none ∧
    Interchangeable (typeExpecting (.array openStruct (some 3)) .unlaid (some (.scalar .int32)))
      (type (.array openStruct (some 3)) .unlaid) afterWideVector := by
  have hattained : Emitter.Attained {} afterWideVector :=
    .inl (.typeExpecting (.vector .single 5) .std140 none .start)
  have hscalar : literalRows.innermostScalar? = some (.literalInt 32) := by rfl
  have hexpected : Ty.elementScalar? (.vector (.int 64 false) 2) = some (.int 64 false) := by rfl
  have hyields : Scalar.yieldsTo (.literalInt 32) (.int 64 false) = true := by rfl
  have hmixed : Scalar.yieldsTo (.literalInt 32) .single = false := by rfl
  have hnone : Ty.innermostScalar? (.array openStruct (some 3)) = none := by rfl
  refine ⟨hattained, hscalar, hexpected, hyields, ?_, hmixed, ?_, hnone, ?_⟩
  · exact (interchangeable_expecting hattained literalRows (.vector (.int 64 false) 2)).1
      _ _ hscalar hexpected hyields
  · refine (interchangeable_expecting hattained literalRows (.scalar .single)).2 ?_
    intro s new hs hnew
    obtain rfl : Scalar.literalInt 32 = s := Option.some.inj (hscalar.symm.trans hs)
    obtain rfl : Scalar.single = new := Option.some.inj hnew
    exact hmixed
  · refine (interchangeable_expecting hattained _ (.scalar .int32)).2 fun s new hs _ => ?_
    rw [hnone] at hs
    cases hs

end Emit

end ShaderLowering
