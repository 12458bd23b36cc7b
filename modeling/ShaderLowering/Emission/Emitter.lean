import ShaderLowering.Failure
import ShaderLowering.Finding
import ShaderLowering.Layout.Types
import ShaderLowering.Spirv.Listing

/-!
# The emitter

The state in which types are emitted: the module under construction, the diagnostics, and the
types that are already known.  A type is looked up by its shape, the memory rule and the matrix
order in force, since these three determine what is emitted for it.
-/

namespace ShaderLowering

open Source (Ty MatrixOrder Position)
open Spirv (TypeId ConstantId TypeEntry Shape)

/-- What identifies an emitted type. -/
structure EmissionKey where
  shape : Ty
  rule : Layout.Rule
  order : Option MatrixOrder
deriving DecidableEq, Repr, Inhabited

/-- The state of emission. -/
structure Emitter where
  target : Spirv.Module := {}
  log : DiagnosticLog := {}
  options : Options := {}
  /-- The types emitted so far without an expected scalar, the latest first. -/
  known : List (EmissionKey × TypeId) := []
  /-- The place that diagnostics about types point at. -/
  position : Position := {}
deriving DecidableEq, Repr, Inhabited

/-- The emitter at the start of a compile, whose module is a shader. -/
def Emitter.start (options : Options) : Emitter :=
  { target := Spirv.Module.require {} .shader, options }

/-- An action of the emitter. -/
abbrev Emit (α : Type) := Action Emitter α

namespace Emit

/-- An operation of the module that answers with a number. -/
def onTarget {α : Type} (f : Spirv.Module → α × Spirv.Module) : Emit α :=
  modifyGet fun e =>
    let (a, target) := f e.target
    (a, { e with target })

/-- The number of a type. -/
def insertType (entry : TypeEntry) : Emit TypeId := onTarget (·.insertType entry)

/-- The number of a type without name and decorations. -/
def plainType (shape : Shape) : Emit TypeId := onTarget (·.plainType shape)

/-- The number of a scalar type. -/
def scalarType (s : Spirv.Scalar) : Emit TypeId := onTarget (·.scalarType s)

/-- The number of an unsigned constant. -/
def constant (value : Nat) : Emit ConstantId := onTarget (·.constant value)

/-- A new variable. -/
def addVariable (v : Spirv.Variable) : Emit Spirv.VariableId := onTarget (·.addVariable v)

/-- One more decoration on a variable. -/
def decorate (id : Spirv.VariableId) (d : Spirv.VariableDecoration) : Emit Unit := do
  match (← get).target.decorate id d with
  | .ok target => modify fun e => { e with target }
  | .error err => throw (.error (.target err))

/-- Declares a capability. -/
def require (c : Spirv.Capability) : Emit Unit :=
  modify fun e => { e with target := e.target.require c }

/-- Declares an extension. -/
def enable (x : Spirv.Extension) : Emit Unit :=
  modify fun e => { e with target := e.target.enable x }

/-- Declares a capability and an extension, where there is one. -/
def declare (c : Option Spirv.Capability) (x : Option Spirv.Extension) : Emit Unit :=
  modify fun e =>
    let target := c.elim e.target e.target.require
    { e with target := x.elim target target.enable }

/-- Moves the place that diagnostics about types point at. -/
def moveTo (position : Position) : Emit Unit := modify fun e => { e with position }

/-- Reports a finding at a place. -/
def report (f : Finding) (position : Position) : Emit Unit :=
  modify fun e => { e with log := e.log.push (f.diagnostic position) }

/-- Reports a finding at the current place. -/
def reportHere (f : Finding) : Emit Unit := do report f (← get).position

/-- Reports a finding at the current place and ends the compile. -/
def abort {α : Type} (f : Finding) : Emit α := do
  reportHere f
  throw (.error (.fatal f.text (← get).position))

/-- The number of a type that may be known.  A type emitted for an expected scalar is neither
looked up nor remembered. -/
def remembered (key : EmissionKey) (expected : Option Source.Scalar) (make : Emit TypeId) :
    Emit TypeId := do
  if expected.isSome then
    make
  else
    match (← get).known.lookup key with
    | some id => return id
    | none =>
      let id ← make
      modify fun e => { e with known := (key, id) :: e.known }
      return id

end Emit

end ShaderLowering
