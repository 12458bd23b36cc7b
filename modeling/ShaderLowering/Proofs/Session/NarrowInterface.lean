import ShaderLowering.Proofs.Session.Standing

/-!
# Values of 16 bits on an interface

A module with values of 16 bits on an interface has to declare so.  This is done when the variable
of a leaf is made, if the scalar of the leaf takes 16 bits.  Only scalars, vectors and matrices have
a scalar of their own.  An array is a leaf, too, and nothing is declared for its elements, nor for
the fields of the structures in it (`Session.narrowDeclared_run`).
-/

namespace ShaderLowering

open Source (Ty OptionalTy Scalar)

/-- Whether a scalar takes 16 bits. -/
def Spirv.Scalar.isNarrow (s : Scalar) : Bool := s.width = 2

namespace Source

/-- On an interface a scalar of a usual width is stored in 16 bits exactly if it is as wide. -/
theorem Scalar.isNarrow_stored {options : Options} {s : Scalar} (hs : s.isSized = true) :
    (s.onInterface.stored options .unlaid none).isNarrow = decide (s.bits options = 16) := by
  have hbits : s.bits options = 16 ∨ s.bits options = 32 ∨ s.bits options = 64 :=
    bits_of_isSized options hs
  -- a truth value is an integer here, so the scalar is stored as it is
  rw [stored, if_neg s.onInterface_ne_bool, Spirv.Scalar.isNarrow, expectedBits, settled_none,
    bits_onInterface]
  rcases hbits with h | h | h <;> rw [h] <;> rfl

/-- A scalar of 16 bits has a usual width. -/
theorem Scalar.isSized_of_bits {options : Options} {s : Scalar} (h : s.bits options = 16) :
    s.isSized = true := by
  cases s with
  | int width signed => exact decide_eq_true (.inl h)
  | float width =>
    by_cases hsized : width = 16 ∨ width = 32 ∨ width = 64
    · exact decide_eq_true hsized
    · rw [bits, if_neg fun hwidth => hsized (.inl hwidth)] at h
      exact absurd (.inl h) hsized
  | bool | minInt | minFloat | literalInt | literalFloat => rfl

/-- Whether a scalar of an unusual width is stored in 16 bits. -/
def Scalar.hidesNarrow (options : Options) (s : Scalar) : Bool :=
  !s.isSized && (s.onInterface.stored options .unlaid none).isNarrow

theorem Scalar.isNarrow_stored_eq (options : Options) (s : Scalar) :
    (s.onInterface.stored options .unlaid none).isNarrow =
      (decide (s.bits options = 16) || s.hidesNarrow options) := by
  rw [hidesNarrow]
  by_cases hs : s.isSized = true
  · rw [hs, isNarrow_stored hs, Bool.not_true, Bool.false_and, Bool.or_false]
  · have hbits : s.bits options ≠ 16 := fun h => hs (isSized_of_bits h)
    rw [Bool.not_eq_true] at hs
    rw [hs, decide_eq_false hbits, Bool.not_false, Bool.true_and, Bool.false_or]

namespace Ty

/-- Whether there are values of 16 bits in the type of a leaf that its scalar does not show: below
wrappers it is an array or a structure that stores some at any depth, or a resource that does. -/
def hidesNarrow (options : Options) : Ty → Bool
  | .alias _ target | .oriented _ target => target.hidesNarrow options
  | .scalar elem | .vector elem _ | .matrix elem _ _ => elem.hidesNarrow options
  | .array elem length =>
    (Ty.array elem length).onInterface.stores options (·.isNarrow) .unlaid
  | .struct name base fields =>
    (Ty.struct name base fields).stores options (·.isNarrow) .unlaid
  | .resource kind elem => (Ty.resource kind elem).stores options (·.isNarrow) .unlaid
  | .void => false

/-- **What there is of 16 bits on an interface** is shown by the scalar of the leaf, or hidden in
it. -/
theorem stores_onInterface_isNarrow {options : Options} : (ty : Ty) →
    ty.onInterface.stores options (·.isNarrow) .unlaid =
      (ShaderLowering.isNarrow options ty || ty.hidesNarrow options)
  | .alias _ target | .oriented _ target => target.stores_onInterface_isNarrow
  | .scalar s | .vector s _ | .matrix s _ _ => s.isNarrow_stored_eq options
  | .array _ _ | .struct _ _ _ | .resource _ _ | .void => (Bool.false_or _).symm

end Ty

end Source

namespace Session

/-- What is to hold of a module: it declares what values of 16 bits on an interface ask for, if
there is a variable at a location whose type contains one. -/
def NarrowDeclared (s : Session) : Prop :=
  ∀ u ∈ s.interface, u.isLocated = true → s.emitter.holdsScalar (·.isNarrow) u = true →
    s.emitter.target.DeclaresNarrow

instance (s : Session) : Decidable s.NarrowDeclared := List.decidableBAll _ _

/-- What a variable shows of the leaf it stands for: its type contains a scalar of 16 bits exactly
if the leaf is a scalar, a vector or a matrix of 16 bits, or hides one; and in the first case the
module has the capability and the extension for it. -/
structure ShowsNarrow (s : Session) (options : Options) (u : InterfaceVariable)
    (l : InterfaceLeaf) : Prop where
  standsFor : s.emitter.StandsFor u l
  holdsScalar_eq : s.emitter.holdsScalar (·.isNarrow) u =
    (isNarrow options l.decl.ty || l.decl.ty.hidesNarrow options)
  declares : isNarrow options l.decl.ty = true → s.emitter.target.DeclaresNarrow

theorem showsNarrow_run (stage : Stage) (options : Options) (ops : List Operation)
    {u : InterfaceVariable} (hu : u ∈ ((start stage options).run ops).interface)
    (hlocated : u.isLocated = true) :
    ∃ l ∈ declaredLeaves stage ops, ((start stage options).run ops).ShowsNarrow options u l := by
  obtain ⟨l, hl, hstands⟩ := standsFor_run stage options ops hu hlocated
  obtain ⟨vertices, tree, hholds⟩ := hstands.leaf
  refine ⟨l, hl, hstands, ?_, fun hnarrow => hholds.narrow ?_⟩
  · rw [hstands.holdsScalar_eq, options_run, Ty.stores_onInterface_isNarrow]
  · rw [options_run]
    exact hnarrow

/-- **Which values of 16 bits on an interface are declared.**  After any operations, answered or
failed, a variable at a location stands for a leaf of what was declared, and shows the values of
16 bits in it (`ShowsNarrow`).  So the capability and the extension are there whenever they are
asked for, if no declared leaf is an array, or a structure or resource that is not taken apart, with
values of 16 bits inside. -/
theorem narrowDeclared_run (stage : Stage) (options : Options) (ops : List Operation) :
    (∀ u ∈ ((start stage options).run ops).interface, u.isLocated = true →
      ∃ l ∈ declaredLeaves stage ops, ((start stage options).run ops).ShowsNarrow options u l) ∧
    ((∀ l ∈ declaredLeaves stage ops, l.decl.ty.hidesNarrow options = false) →
      ((start stage options).run ops).NarrowDeclared) := by
  refine ⟨fun u hu => showsNarrow_run stage options ops hu, ?_⟩
  intro hhidden u hu hlocated hnarrow
  obtain ⟨l, hl, hshows⟩ := showsNarrow_run stage options ops hu hlocated
  -- nothing is hidden, so it is the scalar of the leaf
  rw [hshows.holdsScalar_eq, hhidden l hl, Bool.or_false] at hnarrow
  exact hshows.declares hnarrow

end Session

/-- A geometry shader that reads two numbers of 16 bits for every vertex of a triangle, and writes a
structure with a matrix of such and an array of wider ones. -/
def halfVertices : List Operation :=
  [.interface (.input {
      id := 1, name := "a", primitive := some .triangle, attributes := { semantic := some "A" },
      ty := .array (.alias "Pair" (.vector (.float 16) 2)) (some 3) } false),
    .interface (.output {
      id := 2, name := "b", attributes := { semantic := some "B" },
      ty := .resource (.stream .triangle) (.present (.struct "S" .absent
        (.cons "turn" (.oriented .rowMajor (.matrix (.float 16) 2 3)) {} {} (.cons "weights"
          (.array (.scalar .single) (some 2)) {} {} .nil)))) } false),
    .interface .locations]

theorem Session.narrowDeclared_run_halfVertices :
    (∀ l ∈ declaredLeaves .geometry halfVertices,
      l.decl.ty.hidesNarrow { narrowTypes := true } = false) ∧
    ((start .geometry { narrowTypes := true }).run halfVertices).interface.map (·.isLocated) =
      [true, true, true] ∧
    ((start .geometry { narrowTypes := true }).run halfVertices).interface.map
        (((start .geometry { narrowTypes := true }).run halfVertices).emitter.holdsScalar
          (·.isNarrow)) = [true, true, false] ∧
    ((start .geometry { narrowTypes := true }).run halfVertices).NarrowDeclared := by
  have hhidden : ∀ l ∈ declaredLeaves .geometry halfVertices,
      l.decl.ty.hidesNarrow { narrowTypes := true } = false := by decide +kernel
  exact ⟨hhidden, by decide +kernel, by decide +kernel,
    (narrowDeclared_run .geometry { narrowTypes := true } halfVertices).2 hhidden⟩

/-- A vertex shader with an input that is an array of numbers of 16 bits. -/
def halfArray : Session :=
  (Session.start .vertex { narrowTypes := true }).run [.interface (.input {
    id := 1, name := "a", ty := .array (.scalar (.float 16)) (some 4),
    attributes := { semantic := some "A" } } false)]

/-- The elements of an array are not seen. -/
theorem Session.not_narrowDeclared_halfArray :
    Session.Reachable .vertex { narrowTypes := true } halfArray ∧ ¬halfArray.NarrowDeclared :=
  ⟨.run .start _, by decide +kernel⟩

end ShaderLowering
