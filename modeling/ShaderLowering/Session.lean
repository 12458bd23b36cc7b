import ShaderLowering.Counter.Map
import ShaderLowering.Descriptor.Plan
import ShaderLowering.Distance.Arrays
import ShaderLowering.Interface.Variable

/-!
# Lowering sessions

A session is one compile: an emitter together with everything that is known about declarations and
the variables created for them.
-/

namespace ShaderLowering

open Spirv (VariableId Builtin)

/-- The state of a compile. -/
structure Session where
  emitter : Emitter := {}
  stage : Stage := .pixel
  /-- The number of control points that a hull shader writes. -/
  outputPoints : Option Nat := none
  /-- The interface variables, in order of creation. -/
  interface : List InterfaceVariable := []
  /-- The builtin variables, each with the signature point that it was created for. -/
  builtins : List ((Builtin × Direction) × (VariableId × SignaturePoint)) := []
  distances : DistanceArrays := {}
  /-- The resource variables, in order of creation. -/
  resources : List ResourceVariable := []
  /-- The variables of constant and texture buffers, by declaration. -/
  blocks : List (Nat × VariableId) := []
  /-- The push constant, with the place of its declaration. -/
  pushConstant : Option (VariableId × Source.Position) := none
  /-- The variables by declaration, the latest first. -/
  declared : List (Nat × VariableId) := []
  /-- The counters by declaration, the latest first. -/
  counters : List (Nat × Counter.Map) := []
  /-- Whether some variable aliases a buffer, so that the module has to be legalized. -/
  needsLegalization : Bool := false
deriving DecidableEq, Repr, Inhabited

/-- The session at the start of a compile. -/
def Session.start (stage : Stage) (options : Options) : Session :=
  { emitter := .start options, stage }

/-- An action of a session. -/
abbrev Lower (α : Type) := Action Session α

namespace Lower

/-- An action of the emitter within a session. -/
def emit {α : Type} (x : Emit α) : Lower α := fun s =>
  let (result, emitter) := x.runOn s.emitter
  (result, { s with emitter })

/-- The options of the compile. -/
def options : Lower Options := return (← get).emitter.options

/-- Reports a finding. -/
def report (f : Finding) (position : Source.Position) : Lower Unit := emit (.report f position)

/-- Reports findings in order. -/
def reportAll (findings : List (Finding × Source.Position)) : Lower Unit :=
  findings.forM fun f => report f.1 f.2

/-- Reports a finding that leaves the declaration without a variable. -/
def refuse {α : Type} (f : Finding) (position : Source.Position) : Lower α := do
  report f position
  throw (.error .invalid)

end Lower

end ShaderLowering
