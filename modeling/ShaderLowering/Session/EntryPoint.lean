import ShaderLowering.Session.Interface

/-!
# Entry points

The whole interface of an entry point: first the packed distance arrays, then one variable per
leaf, then the locations.
-/

namespace ShaderLowering

open Source (Ty Param Function EntryPoint)

/-- The number of control points of a patch type of one direction. -/
def patchPoints? (direction : Direction) (ty : Ty) : Option Nat :=
  match direction, ty.resource? with
  | .input, some (.inputPatch points, _) => some points
  | .output, some (.outputPatch points, _) => some points
  | _, _ => none

/-- The number of vertices of a geometry shader input. -/
def geometryVertices? (p : Param) : Option Nat :=
  p.primitive.map fun primitive =>
    match p.ty.shape with
    | .array _ (some length) => length
    | _ => primitive.vertexCount

/-- The numbers of vertices over which the inputs and outputs of an entry point are arrays. -/
def Source.EntryPoint.vertexCounts (e : EntryPoint) : Option Nat × Option Nat :=
  let params := e.function.params
  match e.stage with
  | .hull => (params.findSome? fun p => patchPoints? .input p.ty, e.outputPoints)
  | .domain => (params.findSome? fun p => patchPoints? .output p.ty, none)
  | .geometry => (params.findSome? geometryVertices?, none)
  | _ => (none, none)

namespace Lower

/-- Records the distances of a declaration in one direction; the answer is whether nothing is wrong
with them. -/
def recordIn (direction : Direction) (ty : Ty) (p : Param) : Lower Bool := do
  let (findings, distances) :=
    (← get).distances.record ty p.attributes.semantic direction p.position
  modify fun s => { s with distances }
  reportAll findings
  return findings.isEmpty

/-- Records the distances of a parameter or return value; the answer is whether nothing is wrong
with them. -/
def recordDistances (p : Param) (perPatch : Bool) : Lower Bool := do
  match (p.perVertex (← get).stage perPatch).1 with
  | none => return true
  | some ty =>
    let inputs ← if p.isInput && !p.isStream then recordIn .input ty p else pure true
    let outputs ← if p.isOutput then recordIn .output ty p else pure true
    return inputs && outputs

/-- Runs a check on every element of a list; the answer is whether all succeed. -/
def forAll {α : Type} (check : α → Lower Bool) : List α → Lower Bool
  | [] => return true
  | a :: rest => do
    let here ← check a
    let others ← forAll check rest
    return here && others

/-- Creates the packed distance arrays of everything recorded. -/
def createDistances (inputVertices outputVertices : Option Nat) : Lower Unit := do
  let distances ← .ofChecked (← get).distances.calculate
  let (_, distances) ← emit (.distanceArrays distances inputVertices outputVertices)
  modify fun s => { s with distances }

/-- Creates the variables of a parameter in the directions in which it passes values. -/
def createParam (p : Param) : Lower Bool := do
  let inputs ← if p.isInput then createInput p false else pure true
  let outputs ← if p.isOutput then createOutput p false else pure true
  return inputs && outputs

/-- Creates the variables of a return value, if there is one. -/
def createReturn (f : Function) (perPatch : Bool) : Lower Bool :=
  if f.result.isVoid then return true else createOutput f.returnParam perPatch

/-- Creates the variables of a per-patch function, which passes values out only by its return
value. -/
def createPatchFunction (f : Function) : Lower Bool := do
  let inputs ← forAll
    (fun p => if p.isInput then createInput p true else return true) f.params
  let outputs ← createReturn f true
  return inputs && outputs

/-- Creates the whole interface of an entry point; the answer is whether nothing is wrong. -/
def entryPoint (e : EntryPoint) : Lower Bool := do
  modify fun s => { s with stage := e.stage, outputPoints := e.outputPoints }
  let recorded ← forAll (recordDistances · false) (e.function.params ++ [e.function.returnParam])
  let patchRecorded ← match e.patchFunction with
    | none => pure true
    | some f => forAll (recordDistances · true) (f.params ++ [f.returnParam])
  createDistances e.vertexCounts.1 e.vertexCounts.2
  let params ← forAll createParam e.function.params
  let result ← createReturn e.function false
  let patch ← match e.patchFunction with
    | none => pure true
    | some f => createPatchFunction f
  let located ← decorateLocations
  return recorded && patchRecorded && params && result && patch && located

end Lower

end ShaderLowering
