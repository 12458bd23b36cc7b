import ShaderLowering.Spirv.Table
import ShaderLowering.Spirv.Capability
import ShaderLowering.Spirv.Entry

/-!
# The module under construction

A module collects types, constants, variables and requirements.  It only grows: an operation adds
an entry at the end of a table, a decoration at the end of a variable's, or a requirement, and it
returns the number of the entry in question.
-/

namespace ShaderLowering.Spirv

/-- A module. -/
structure Module where
  types : Interned TypeEntry := {}
  constants : Interned Constant := {}
  /-- Every variable, in order of creation. -/
  «variables» : Table Variable := {}
  capabilities : List Capability := []
  extensions : List Extension := []
deriving DecidableEq, Repr, Inhabited

/-- A request that names something the module does not hold. -/
inductive ModuleError
  /-- A number past the end of a table of the given size. -/
  | badHandle (index size : Nat)
  /-- A member past the end of a structure. -/
  | badMember (member count : Nat)
  /-- A type of another shape than expected. -/
  | typeMismatch (expected found : String)
deriving DecidableEq, Repr, Inhabited

/-- The wording of a module error. -/
def ModuleError.text : ModuleError → String
  | badHandle index size =>
    "handle index " ++ toString index ++ " out of bounds (arena size: " ++ toString size ++ ")"
  | badMember member count =>
    "member " ++ toString member ++ " out of range for a struct of " ++ toString count ++ " members"
  | typeMismatch expected found =>
    "type mismatch: expected " ++ expected ++ ", found " ++ found

namespace Module

/-- The number of a type, which is added if it is new. -/
def insertType (m : Module) (entry : TypeEntry) : TypeId × Module :=
  let (id, types) := m.types.insert entry
  (id, { m with types })

/-- The number of a type without name and decorations. -/
def plainType (m : Module) (shape : Shape) : TypeId × Module :=
  m.insertType ⟨none, shape, []⟩

/-- The number of a scalar type. -/
def scalarType (m : Module) (s : Scalar) : TypeId × Module := m.plainType (.scalar s)

/-- The number of an unsigned constant; its type is added before it. -/
def constant (m : Module) (value : Nat) : ConstantId × Module :=
  let (ty, m) := m.scalarType .uint32
  let (id, constants) := m.constants.insert ⟨ty, value⟩
  (id, { m with constants })

/-- The length of a fixed-size array type. -/
def arrayLength? (m : Module) (ty : TypeId) : Option Nat :=
  match m.types.get? ty with
  | some ⟨_, .array _ length, _⟩ => (m.constants.get? length).map (·.value)
  | _ => none

/-- A new variable. -/
def addVariable (m : Module) (v : Variable) : VariableId × Module :=
  (m.variables.size, { m with «variables» := m.variables.push v })

/-- One more decoration on a variable. -/
def decorate (m : Module) (id : VariableId) (d : VariableDecoration) :
    Except ModuleError Module :=
  if id < m.variables.size then
    .ok { m with
      «variables» := m.variables.modify id fun v => { v with decorations := v.decorations ++ [d] } }
  else
    .error (.badHandle id m.variables.size)

/-- The module with a capability declared. -/
def require (m : Module) (c : Capability) : Module :=
  if c ∈ m.capabilities then m else { m with capabilities := m.capabilities ++ [c] }

/-- The module with an extension declared. -/
def enable (m : Module) (e : Extension) : Module :=
  if e ∈ m.extensions then m else { m with extensions := m.extensions ++ [e] }

/-- The declared capabilities, in the order of a listing. -/
def capabilityList (m : Module) : List Capability := Capability.all.filter (· ∈ m.capabilities)

/-- The declared extensions, in the order of a listing. -/
def extensionList (m : Module) : List Extension := Extension.all.filter (· ∈ m.extensions)

end Module

end ShaderLowering.Spirv
