import ShaderLowering.Layout.Types
import ShaderLowering.Layout.Locations

/-!
# Layout of truth values

On a stage interface a truth value is replaced by an unsigned integer of 32 bits, below arrays and
wrappers but not inside structures and resources.  It is stored in as many bits, so a type has the
same extent under every rule and takes the same locations with integers in the place of its truth
values.
-/

namespace ShaderLowering

open Source (Ty Scalar)

/-! ## Scalars -/

namespace Source.Scalar

variable (s : Scalar)

theorem onInterface_of_ne {s : Scalar} (h : s ≠ .bool) : s.onInterface = s := by
  cases s <;> first | rfl | exact absurd rfl h

/-- No truth value is left on an interface. -/
theorem onInterface_ne_bool : s.onInterface ≠ .bool := by
  cases s <;> simp [onInterface, uint32]

theorem onInterface_onInterface : s.onInterface.onInterface = s.onInterface :=
  onInterface_of_ne s.onInterface_ne_bool

theorem isFloat_onInterface : s.onInterface.isFloat = s.isFloat := by cases s <;> rfl

/-- A truth value is as wide as the integer that replaces it. -/
theorem bits_onInterface (options : Options) : s.onInterface.bits options = s.bits options := by
  cases s <;> rfl

theorem bytes_onInterface (options : Options) : s.onInterface.bytes options = s.bytes options := by
  rw [bytes, bytes, bits_onInterface]

end Source.Scalar

/-! ## Types -/

theorem Source.Ty.onInterface_onInterface : (ty : Ty) →
    ty.onInterface.onInterface = ty.onInterface
  | .alias name target => congrArg (Ty.alias name) target.onInterface_onInterface
  | .oriented order target => congrArg (Ty.oriented order) target.onInterface_onInterface
  | .array elem length => congrArg (Ty.array · length) elem.onInterface_onInterface
  | .scalar elem => congrArg Ty.scalar elem.onInterface_onInterface
  | .vector elem count => congrArg (Ty.vector · count) elem.onInterface_onInterface
  | .matrix elem rows cols => congrArg (Ty.matrix · rows cols) elem.onInterface_onInterface
  | .void | .struct _ _ _ | .resource _ _ => rfl

theorem Source.Ty.elementScalar?_onInterface : (ty : Ty) →
    ty.onInterface.elementScalar? = ty.elementScalar?.map (·.onInterface)
  | .alias _ target | .oriented _ target => target.elementScalar?_onInterface
  | .scalar _ | .vector _ _ | .matrix _ _ _ | .array _ _ | .void | .struct _ _ _
  | .resource _ _ => rfl

theorem Source.Ty.isResourceArray_onInterface : (ty : Ty) →
    ty.onInterface.isResourceArray = ty.isResourceArray
  | .alias _ target | .oriented _ target => target.isResourceArray_onInterface
  | .array elem _ => elem.isResourceArray_onInterface
  | .scalar _ | .vector _ _ | .matrix _ _ _ | .void | .struct _ _ _ | .resource _ _ => rfl

namespace Layout

variable {options : Options} {rule : Rule}

/-- **A type has the same extent with integers in the place of truth values**, under every rule. -/
theorem extentAt_onInterface : (ty : Ty) → (o : Orientation) →
    extentAt options rule ty.onInterface o = extentAt options rule ty o
  | .alias _ target, o => by
    rw [Ty.onInterface, extentAt, extentAt, extentAt_onInterface target o]
  | .oriented order target, o => by
    rw [Ty.onInterface, extentAt, extentAt, extentAt_onInterface target]
  | .array elem length, o => by
    rw [Ty.onInterface, extentAt, extentAt, extentAt_onInterface elem]
  | .scalar elem, o => by
    simp only [Ty.onInterface, extentAt, Extent.ofScalar, elem.bytes_onInterface]
  | .vector elem count, o => by
    simp only [Ty.onInterface, extentAt, Extent.ofVector, Extent.ofScalar, elem.bytes_onInterface]
  | .matrix elem rows cols, o => by
    simp only [Ty.onInterface, extentAt, Extent.ofMatrix, Extent.ofVector, Extent.ofScalar,
      elem.bytes_onInterface]
  | .void, _ | .struct _ _ _, _ | .resource _ _, _ => rfl

theorem extent_onInterface (ty : Ty) :
    extent options rule ty.onInterface = extent options rule ty :=
  extentAt_onInterface ty {}

/-- A type takes the same locations with integers in the place of truth values. -/
theorem locations_onInterface : (ty : Ty) → locations options ty.onInterface = locations options ty
  | .alias _ target => by
    rw [Ty.onInterface, locations, locations, locations_onInterface target]
  | .oriented _ target => by
    rw [Ty.onInterface, locations, locations, locations_onInterface target]
  | .array elem length => by
    rw [Ty.onInterface, locations, locations, locations_onInterface elem]
  | .vector elem count => by
    simp only [Ty.onInterface, locations, vectorLocations, elem.bits_onInterface]
  | .matrix elem rows cols => by
    simp only [Ty.onInterface, locations, vectorLocations, elem.bits_onInterface]
  | .scalar _ | .void | .struct _ _ _ | .resource _ _ => rfl

end Layout

end ShaderLowering
