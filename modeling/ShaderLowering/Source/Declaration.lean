import ShaderLowering.Source.Ty
import ShaderLowering.Stage

/-!
# Declarations

Variables, constant blocks, parameters, functions and entry points.  Every declaration has a number
that identifies it among the declarations of one compile.
-/

namespace ShaderLowering.Source

/-- Where a variable lives. -/
inductive Storage
  /-- A global that is visible outside: a resource, or a member of the global constant buffer. -/
  | global
  /-- A private global. -/
  | static
  /-- A variable shared by a work group. -/
  | groupShared
  /-- A variable of a function. -/
  | function
deriving DecidableEq, Repr, Inhabited

/-- A variable. -/
structure Variable where
  id : Nat
  name : String
  ty : Ty
  storage : Storage
  attributes : Attributes := {}
  position : Position := {}
deriving DecidableEq, Repr, Inhabited

/-- The two kinds of buffer block. -/
inductive BlockKind
  /-- A constant buffer. -/
  | constant
  /-- A texture buffer. -/
  | texture
deriving DecidableEq, Repr, Inhabited

/-- A buffer block with its members. -/
structure Block where
  id : Nat
  name : String
  kind : BlockKind
  fields : Fields
  attributes : Attributes := {}
  position : Position := {}
deriving DecidableEq, Repr, Inhabited

/-- The direction in which a parameter passes its value. -/
inductive Passing
  | input
  | output
  | both
deriving DecidableEq, Repr, Inhabited

/-- The primitive whose vertices a geometry shader reads. -/
inductive InputPrimitive
  | point
  | line
  | triangle
  | lineAdjacency
  | triangleAdjacency
deriving DecidableEq, Repr, Inhabited

/-- The number of vertices of a primitive. -/
def InputPrimitive.vertexCount : InputPrimitive → Nat
  | point => 1
  | line => 2
  | triangle => 3
  | lineAdjacency => 4
  | triangleAdjacency => 6

/-- A function parameter. -/
structure Param where
  id : Nat
  name : String
  ty : Ty
  passing : Passing := .input
  /-- The primitive of a geometry shader input with one element per vertex. -/
  primitive : Option InputPrimitive := none
  attributes : Attributes := {}
  position : Position := {}
deriving DecidableEq, Repr, Inhabited

/-- Whether the parameter passes a value in. -/
def Param.isInput (p : Param) : Bool := p.passing != .output

/-- Whether the parameter passes a value out. -/
def Param.isOutput (p : Param) : Bool := p.passing != .input

/-- A function; the return value may be annotated like a parameter. -/
structure Function where
  id : Nat
  name : String
  params : List Param := []
  result : Ty := .void
  resultAttributes : Attributes := {}
  position : Position := {}
deriving DecidableEq, Repr, Inhabited

/-- The return value as an output parameter with the name and position of the function. -/
def Function.returnParam (f : Function) : Param where
  id := f.id
  name := f.name
  ty := f.result
  passing := .output
  attributes := f.resultAttributes
  position := f.position

/-- An entry point of a stage. -/
structure EntryPoint where
  stage : Stage
  function : Function
  /-- The function of a hull shader that runs once per patch. -/
  patchFunction : Option Function := none
  /-- The number of control points that a hull shader writes. -/
  outputPoints : Option Nat := none
deriving DecidableEq, Repr, Inhabited

end ShaderLowering.Source
