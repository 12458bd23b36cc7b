import ShaderLowering.Proofs.Emission.Interchange

/-!
# Types of the same shape

Two types have the same shape if they differ at most in the wrappers at the top and at the levels of
arrays.  The type without these wrappers is a normal form: types have the same shape exactly if it
is the same for both (`Source.Ty.sameShape_iff`).

A matrix order is kept with every emitted type, so types of the same shape may be remembered apart.
But where no memory layout is asked for, no order reaches what is written, and the wrappers can go
before anything is emitted (`Written.ofTy_unwrapped`).
-/

namespace ShaderLowering

open Source (Ty Scalar)

/-! ## Types without outer wrappers -/

namespace Source.Ty

/-- The type without wrappers at the top and at all levels of arrays.  What is inside a structure
or a resource stays as it was declared. -/
def unwrapped : Ty → Ty
  | .alias _ target | .oriented _ target => target.unwrapped
  | .array elem length => .array elem.unwrapped length
  | ty => ty

/-- A type without outer wrappers is an array exactly if its shape is one. -/
theorem unwrapped_eq_array_iff {elem : Ty} {length : Option Nat} : (ty : Ty) →
    (ty.unwrapped = .array elem length ↔
      ∃ elem', ty.shape = .array elem' length ∧ elem'.unwrapped = elem)
  | .alias _ target | .oriented _ target => unwrapped_eq_array_iff target
  | .array elem' length' => by
    simp only [unwrapped, shape, array.injEq]
    constructor
    · rintro ⟨rfl, rfl⟩
      exact ⟨elem', ⟨rfl, rfl⟩, rfl⟩
    · rintro ⟨_, ⟨rfl, rfl⟩, rfl⟩
      exact ⟨rfl, rfl⟩
  | .void | .scalar _ | .vector _ _ | .matrix _ _ _ | .struct _ _ _ | .resource _ _ => by
    simp [unwrapped, shape]

/-- For everything but arrays, a type without outer wrappers is its shape. -/
theorem unwrapped_eq_iff_shape_eq {ty : Ty} (h : ∀ elem length, ty ≠ .array elem length) :
    (other : Ty) → (ty = other.unwrapped ↔ ty = other.shape)
  | .alias _ target | .oriented _ target => unwrapped_eq_iff_shape_eq h target
  | .array elem length => iff_of_false (h elem.unwrapped length) (h elem length)
  | .void | .scalar _ | .vector _ _ | .matrix _ _ _ | .struct _ _ _ | .resource _ _ => .rfl

/-- An array has the shape of an array of the same length whose elements have the same shape. -/
theorem sameShape_array_iff {elem other : Ty} {length : Option Nat} :
    (array elem length).sameShape other = true ↔
      ∃ elem', other.shape = .array elem' length ∧ elem.sameShape elem' = true := by
  rw [sameShape]
  split
  · rename_i elem' length' hshape
    rw [hshape, Bool.and_eq_true, decide_eq_true_eq]
    constructor
    · rintro ⟨rfl, h⟩
      exact ⟨elem', rfl, h⟩
    · rintro ⟨_, ⟨⟩, h⟩
      exact ⟨rfl, h⟩
  · rename_i hshape
    refine iff_of_false Bool.false_ne_true ?_
    rintro ⟨elem', h, -⟩
    exact hshape elem' length h

/-- **Types have the same shape exactly if they are the same without outer wrappers.** -/
theorem sameShape_iff : (ty : Ty) → {other : Ty} →
    (ty.sameShape other = true ↔ ty.unwrapped = other.unwrapped)
  | .alias _ target, _ | .oriented _ target, _ => target.sameShape_iff
  | .array elem length, other => by
    rw [sameShape_array_iff, unwrapped, eq_comm, unwrapped_eq_array_iff]
    simp only [elem.sameShape_iff, eq_comm]
  | .void, other | .scalar _, other | .vector _ _, other | .matrix _ _ _, other
  | .struct _ _ _, other | .resource _ _, other => by
    simp only [sameShape, decide_eq_true_eq, unwrapped]
    exact (unwrapped_eq_iff_shape_eq (by simp) other).symm

theorem equivalence_sameShape : Equivalence fun ty other : Ty => ty.sameShape other = true where
  refl ty := (sameShape_iff ty).2 rfl
  symm h := (sameShape_iff _).2 ((sameShape_iff _).1 h).symm
  trans h h' := (sameShape_iff _).2 (((sameShape_iff _).1 h).trans ((sameShape_iff _).1 h'))

end Source.Ty

/-! ## Emission without a memory layout -/

namespace Written

/-- **Without a memory layout outer wrappers are not seen**, whatever order they are in and
whatever order holds around them. -/
theorem ofTy_unwrapped {options : Options} {expected : Option Scalar} : (ty : Ty) →
    (o : Layout.Orientation) →
    ofTy options ty .unlaid o expected = ofTy options ty.unwrapped .unlaid {} expected
  | .alias _ target, o => by
    rw [ofTy, Ty.unwrapped]
    exact ofTy_unwrapped target o
  | .oriented order target, o => by
    rw [ofTy, Ty.unwrapped]
    exact ofTy_unwrapped target (o.annotate order)
  | .array elem length, o => by
    -- no stride is written, so the order that the elements inherit ends here
    simp only [Ty.unwrapped, ofTy, ofArray, strideOf, if_pos, ite_self]
    rw [ofTy_unwrapped elem o.element]
    rfl
  | .matrix elem rows cols, o => by
    simp only [Ty.unwrapped, ofTy, ofMatrix, strideOf, if_pos]
  | .void, _ | .scalar _, _ | .vector _ _, _ | .struct _ _ _, _ | .resource _ _, _ => by
    simp only [Ty.unwrapped, ofTy]

end Written

namespace Emit

/-- **Types of the same shape are one type where no memory layout is asked for.**  To have the same
shape is an equivalence, and in every state that a client can bring an emitter into, two types of
the same shape are emitted under the same number or fail alike, each on its own and one after the
other: typedefs and matrix orders at the top and at all levels of arrays make no difference,
although the types are remembered apart. -/
theorem interchangeable_of_sameShape :
    Equivalence (fun ty other : Ty => ty.sameShape other = true) ∧
    ∀ {options : Options} {e : Emitter}, Emitter.Attained options e → ∀ ty other : Ty,
      ty.sameShape other = true → Interchangeable (type ty .unlaid) (type other .unlaid) e := by
  refine ⟨Ty.equivalence_sameShape, ?_⟩
  intro options e he ty other h
  have hunwrapped : ty.unwrapped = other.unwrapped := (Ty.sameShape_iff ty).1 h
  have hwritten : Written.ofTy e.options ty .unlaid {} none
      = Written.ofTy e.options other .unlaid {} none := by
    rw [Written.ofTy_unwrapped ty, Written.ofTy_unwrapped other, hunwrapped]
  show Interchangeable (typeExpecting ty .unlaid none) (type other .unlaid) e
  exact (interchangeable_type_iff he.regular).2 hwritten

/-- Tables of integers stored by rows, behind a typedef, whose elements are stored by columns. -/
def columnTables : Ty :=
  .alias "Tables" (.oriented .rowMajor (.array
    (.oriented .columnMajor (.alias "Table" (.matrix .int32 2 3))) (some 4)))

/-- Tables of integers stored by rows. -/
def rowTables : Ty := .array (.oriented .rowMajor (.matrix .int32 2 3)) (some 4)

/-- An emitter that knows the tables stored by columns. -/
def afterColumnTables : Emitter := ((type columnTables .unlaid).runOn (.start {})).2

theorem interchangeable_of_sameShape_tables :
    Emitter.Attained {} afterColumnTables ∧ columnTables ≠ rowTables ∧
    columnTables.sameShape rowTables = true ∧
    ((type columnTables .unlaid).runOn afterColumnTables).1 = .ok 3 ∧
    Interchangeable (type columnTables .unlaid) (type rowTables .unlaid) afterColumnTables := by
  have hattained : Emitter.Attained {} afterColumnTables :=
    .inl (.typeExpecting columnTables .unlaid none .start)
  have hshape : columnTables.sameShape rowTables = true := by decide
  refine ⟨hattained, by decide, hshape, by decide +kernel, ?_⟩
  exact interchangeable_of_sameShape.2 hattained columnTables rowTables hshape

/-- In memory the order shows in the strides. -/
example : Written.ofTy {} columnTables .std430 {} none
    ≠ Written.ofTy {} rowTables .std430 {} none := by
  decide +kernel

end Emit

end ShaderLowering
