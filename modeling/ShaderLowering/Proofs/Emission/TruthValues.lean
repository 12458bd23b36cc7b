import ShaderLowering.Proofs.Emission.Hints
import ShaderLowering.Proofs.Layout.TruthValues

/-!
# Truth values in memory

In memory a truth value is stored as an unsigned integer of 32 bits, which is what replaces it on a
stage interface.  So there the replacement cannot be told from the declared type: under every rule
that lays out memory both are the same emitted type (`Emit.interchangeable_onInterface`).  Only
where no memory layout is asked for is a truth value a type of its own.
-/

namespace ShaderLowering

open Source (Ty Scalar)

/-- In memory a truth value is stored as the integer that replaces it. -/
theorem Source.Scalar.stored_onInterface (s : Scalar) (options : Options) {rule : Layout.Rule}
    (hrule : rule ≠ .unlaid) :
    s.onInterface.stored options rule none = s.stored options rule none := by
  by_cases h : s = .bool
  · subst h
    have hwidth : expectedBits options bool.onInterface none = 32 := rfl
    rw [stored, stored, if_neg (onInterface_ne_bool _), if_pos rfl, if_neg hrule, hwidth]
    rfl
  · rw [onInterface_of_ne h]

/-- The scalar below arrays and wrappers is no truth value any more. -/
theorem Source.Ty.innermostScalar?_onInterface : (ty : Ty) →
    ty.onInterface.innermostScalar? = ty.innermostScalar?.map (·.onInterface)
  | .alias _ target | .oriented _ target => target.innermostScalar?_onInterface
  | .array elem _ => elem.innermostScalar?_onInterface
  | .scalar _ | .vector _ _ | .matrix _ _ _ | .void | .struct _ _ _ | .resource _ _ => rfl

namespace Written

variable {options : Options} {rule : Layout.Rule}

/-- **In memory the same type is written with integers in the place of truth values.** -/
theorem ofTy_onInterface (hrule : rule ≠ .unlaid) : (ty : Ty) → (o : Layout.Orientation) →
    ofTy options ty.onInterface rule o none = ofTy options ty rule o none
  | .alias _ target, o => by
    rw [Ty.onInterface, ofTy, ofTy, ofTy_onInterface hrule target o]
  | .oriented order target, o => by
    rw [Ty.onInterface, ofTy, ofTy, ofTy_onInterface hrule target]
  | .array elem length, o => by
    have hstride : strideOf options rule (.array elem.onInterface length) o
        = strideOf options rule (.array elem length) o := by
      rw [strideOf, strideOf, ← Layout.extentAt_onInterface (.array elem length) o, Ty.onInterface]
    simp only [Ty.onInterface, ofTy, ofArray, ofTy_onInterface hrule elem, hstride,
      elem.isResourceArray_onInterface]
  | .scalar elem, o => by
    rw [Ty.onInterface, ofTy, ofTy, ofScalar, ofScalar, elem.stored_onInterface options hrule]
  | .vector elem count, o => by
    rw [Ty.onInterface, ofTy, ofTy, ofVector_congr (elem.stored_onInterface options hrule)]
  | .matrix elem rows cols, o => by
    have hstride : strideOf options rule (.matrix elem.onInterface rows cols) o
        = strideOf options rule (.matrix elem rows cols) o := by
      rw [strideOf, strideOf, ← Layout.extentAt_onInterface (.matrix elem rows cols) o,
        Ty.onInterface]
    rw [Ty.onInterface, ofTy, ofTy]
    exact ofMatrix_congr (elem.stored_onInterface options hrule) elem.isFloat_onInterface rows cols
      hstride
  | .void, _ | .struct _ _ _, _ | .resource _ _, _ => rfl

end Written

namespace Emit

/-- **Integers in the place of truth values change nothing in memory.**  Truth values are replaced
once and for all, below arrays and wrappers none is left, and the type that results takes as much
memory and as many locations as the declared one, or the computation fails alike.  Under every rule
that lays out memory both are emitted under the same number or fail alike, in every state that a
client can bring an emitter into. -/
theorem interchangeable_onInterface (ty : Ty) :
    ty.onInterface.onInterface = ty.onInterface ∧
    ty.onInterface.innermostScalar? ≠ some .bool ∧
    (∀ options rule, Layout.extent options rule ty.onInterface = Layout.extent options rule ty) ∧
    (∀ options, Layout.locations options ty.onInterface = Layout.locations options ty) ∧
    ∀ {options : Options} {e : Emitter}, Emitter.Attained options e →
      ∀ rule : Layout.Rule, rule ≠ .unlaid →
        Interchangeable (type ty.onInterface rule) (type ty rule) e := by
  refine ⟨ty.onInterface_onInterface, ?_, fun _ _ => Layout.extent_onInterface ty,
    fun _ => Layout.locations_onInterface ty, ?_⟩
  · rw [ty.innermostScalar?_onInterface]
    intro h
    obtain ⟨s, -, hs⟩ := Option.map_eq_some_iff.1 h
    exact s.onInterface_ne_bool hs
  · intro options e he rule hrule
    show Interchangeable (typeExpecting ty.onInterface rule none) (type ty rule) e
    exact (interchangeable_type_iff he.regular).2 (Written.ofTy_onInterface hrule ty {})

/-- Tables of truth values behind a typedef. -/
def truthTables : Ty := .alias "Tables" (.array (.oriented .rowMajor (.matrix .bool 2 3)) (some 4))

theorem interchangeable_onInterface_truthTables :
    Emitter.Attained {} afterWideVector ∧ truthTables.onInterface ≠ truthTables ∧
    Layout.Rule.std430 ≠ .unlaid ∧ ((type truthTables .std430).runOn afterWideVector).1 = .ok 3 ∧
    Interchangeable (type truthTables.onInterface .std430) (type truthTables .std430)
      afterWideVector := by
  have hattained : Emitter.Attained {} afterWideVector :=
    .inl (.typeExpecting (.vector .single 5) .std140 none .start)
  have hrule : Layout.Rule.std430 ≠ .unlaid := by decide
  refine ⟨hattained, by decide, hrule, by decide +kernel, ?_⟩
  exact (interchangeable_onInterface truthTables).2.2.2.2 hattained .std430 hrule

/-- Without a memory layout a truth value is no integer. -/
example : Written.ofTy {} truthTables.onInterface .unlaid {} none
    ≠ Written.ofTy {} truthTables .unlaid {} none := by
  decide +kernel

end Emit

end ShaderLowering
