import ShaderLowering.Proofs.Session.Standing

/-!
# Truth values on an interface

Truth values may not stand on an interface, so they are replaced by integers in the type of a leaf.
This reaches the scalars, vectors and matrices below typedef names, matrix orders and arrays.  It
stops at structures, which need no replacement where they are taken apart into their fields.  But an
array is not taken apart: in an array of structures the truth values of the fields are left
(`Session.truthFree_run`).
-/

namespace ShaderLowering

open Source (Ty OptionalTy Scalar)

/-- Whether a scalar is a truth value. -/
def Spirv.Scalar.isTruth (s : Scalar) : Bool := s.kind = .bool

namespace Source

/-- A truth value is stored as one only where no memory layout is asked for. -/
theorem Scalar.isTruth_stored (s : Scalar) (options : Options) (rule : Layout.Rule) :
    (s.stored options rule none).isTruth = (decide (s = .bool) && decide (rule = .unlaid)) := by
  rw [stored]
  split
  · split <;> simp_all [Spirv.Scalar.isTruth, Spirv.Scalar.bool, Spirv.Scalar.uint32]
  · rename_i hbool
    rw [Spirv.Scalar.isTruth, settled_none, kind, if_neg hbool]
    cases s.isFloat <;> cases s.isSigned <;> simp [hbool]

namespace Ty

/-- Whether truth values are left in the type of a leaf: below arrays and wrappers it is a structure
that stores some at any depth, or a resource that does. -/
def showsTruth (options : Options) : Ty → Bool
  | .alias _ target | .oriented _ target => target.showsTruth options
  | .array elem _ => elem.showsTruth options
  | .struct name base fields =>
    (Ty.struct name base fields).stores options (·.isTruth) .unlaid
  | .resource kind elem => (Ty.resource kind elem).stores options (·.isTruth) .unlaid
  | .void | .scalar _ | .vector _ _ | .matrix _ _ _ => false

/-- **What is left of truth values on an interface** is in structures and resources. -/
theorem stores_onInterface_isTruth {options : Options} : (ty : Ty) →
    ty.onInterface.stores options (·.isTruth) .unlaid = ty.showsTruth options
  | .alias _ target | .oriented _ target => target.stores_onInterface_isTruth
  | .array elem _ => elem.stores_onInterface_isTruth
  | .scalar s | .vector s _ | .matrix s _ _ => by
    rw [onInterface, stores, Scalar.isTruth_stored, decide_eq_false s.onInterface_ne_bool]
    rfl
  | .void | .struct _ _ _ | .resource _ _ => rfl

end Ty

end Source

namespace Session

/-- What is to hold of an interface: the type of no variable at a location contains a truth
value. -/
def TruthFree (s : Session) : Prop :=
  ∀ u ∈ s.interface, u.isLocated = true → s.emitter.holdsScalar (·.isTruth) u = false

instance (s : Session) : Decidable s.TruthFree := List.decidableBAll _ _

/-- **Truth values on an interface are those that a declared leaf shows.**  After any operations,
answered or failed, a variable at a location stands for a leaf of what was declared, and its type
contains a truth value exactly if truth values are left in the type of that leaf.  So there is none
on the interface if no declared leaf is an array of structures with truth values, or a resource with
such. -/
theorem truthFree_run (stage : Stage) (options : Options) (ops : List Operation) :
    (∀ u ∈ ((start stage options).run ops).interface, u.isLocated = true →
      ∃ l ∈ declaredLeaves stage ops, ((start stage options).run ops).emitter.StandsFor u l ∧
        ((start stage options).run ops).emitter.holdsScalar (·.isTruth) u
          = l.decl.ty.showsTruth options) ∧
    ((∀ l ∈ declaredLeaves stage ops, l.decl.ty.showsTruth options = false) →
      ((start stage options).run ops).TruthFree) := by
  have hleaf : ∀ u ∈ ((start stage options).run ops).interface, u.isLocated = true →
      ∃ l ∈ declaredLeaves stage ops, ((start stage options).run ops).emitter.StandsFor u l ∧
        ((start stage options).run ops).emitter.holdsScalar (·.isTruth) u
          = l.decl.ty.showsTruth options := by
    intro u hu hlocated
    obtain ⟨l, hl, hstands⟩ := standsFor_run stage options ops hu hlocated
    refine ⟨l, hl, hstands, ?_⟩
    rw [hstands.holdsScalar_eq, options_run, Ty.stores_onInterface_isTruth]
  refine ⟨hleaf, fun hshown u hu hlocated => ?_⟩
  obtain ⟨l, hl, -, hscalar⟩ := hleaf u hu hlocated
  exact hscalar.trans (hshown l hl)

end Session

/-- A geometry shader with tables of truth values for every vertex of a triangle, and an output of a
structure with a truth value and an array of structures without. -/
def flagVertices : List Operation :=
  [.interface (.input {
      id := 1, name := "a", primitive := some .triangle, attributes := { semantic := some "A" },
      ty := .array (.alias "Flags" (.array (.oriented .rowMajor (.matrix .bool 2 3)) (some 2)))
        (some 3) } false),
    .interface (.output {
      id := 2, name := "b", attributes := { semantic := some "B" },
      ty := .resource (.stream .triangle) (.present (.struct "S" .absent
        (.cons "on" (.vector .bool 2) {} {} (.cons "points"
          (.array (.struct "P" .absent (.cons "x" (.scalar .int32) {} {} .nil)) (some 2)) {} {}
          .nil)))) } false),
    .interface .locations]

theorem Session.truthFree_run_flagVertices :
    (∀ l ∈ declaredLeaves .geometry flagVertices, l.decl.ty.showsTruth {} = false) ∧
    ((start .geometry {}).run flagVertices).interface.map (·.isLocated) = [true, true, true] ∧
    ((start .geometry {}).run flagVertices).TruthFree := by
  have hshown : ∀ l ∈ declaredLeaves .geometry flagVertices,
      l.decl.ty.showsTruth {} = false := by decide +kernel
  exact ⟨hshown, by decide +kernel, (truthFree_run .geometry {} flagVertices).2 hshown⟩

/-- A vertex shader with an input that is an array of structures with truth values. -/
def flagRecords : Session :=
  (Session.start .vertex {}).run [.interface (.input {
    id := 1, name := "a", attributes := { semantic := some "A" },
    ty := .array (.struct "S" .absent (.cons "on" (.scalar .bool) {} {} .nil)) (some 2) } false)]

/-- The truth values in an array of structures are left. -/
theorem Session.not_truthFree_flagRecords :
    Session.Reachable .vertex {} flagRecords ∧ ¬flagRecords.TruthFree :=
  ⟨.run .start _, by decide +kernel⟩

end ShaderLowering
