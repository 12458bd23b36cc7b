import ShaderLowering.Semantic.Placement
import ShaderLowering.Spirv.Entry

/-!
# Interface variables
-/

namespace ShaderLowering

open Source (Position)

/-- A variable on the interface of a stage. -/
structure InterfaceVariable where
  point : SignaturePoint
  /-- The semantic; a builtin that was asked for by name may have none. -/
  semantic : Option Semantic
  /-- The builtin that the variable stands for; one without is bound to a location. -/
  builtin : Option Spirv.Builtin
  /-- The first location, once it is known. -/
  location : Option Nat
  /-- The blend source of a pixel shader output. -/
  index : Option Nat
  /-- The number of locations, not counting an outer array over vertices. -/
  locationCount : Nat
  /-- The control point that a write of a hull shader goes to. -/
  invocation : Option Nat
  var : Spirv.VariableId
  position : Position
deriving DecidableEq, Repr, Inhabited

namespace InterfaceVariable

/-- The direction of the variable. -/
def direction (v : InterfaceVariable) : Direction := v.point.direction

/-- Whether the variable is bound to locations. -/
def isLocated (v : InterfaceVariable) : Bool := v.builtin.isNone

/-- The number of locations that are set aside for the variable. -/
def room (v : InterfaceVariable) : Nat := max v.locationCount 1

end InterfaceVariable

end ShaderLowering
