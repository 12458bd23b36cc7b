import ShaderLowering.Emission.Types
import ShaderLowering.Interface.Leaf
import ShaderLowering.Interface.Plan
import ShaderLowering.Layout.Locations
import ShaderLowering.Session

/-!
# Interface variables of a session

Every leaf of an interface declaration becomes a variable at a location, or refers to a builtin
variable, or is part of a packed distance array.  Locations are given out when all variables are
there.
-/

namespace ShaderLowering

open Source (Ty Scalar Field Param Resource Interpolation)
open Spirv (Builtin VariableId TypeId VariableDecoration)

/-- What the leaves of one declaration have in common. -/
structure InterfaceContext where
  point : SignaturePoint
  /-- The size of the outer array over vertices or control points. -/
  vertices : Option Nat := none
  /-- The control point that a write goes to. -/
  invocation : Option Nat := none
deriving DecidableEq, Repr, Inhabited

/-- The part of a parameter's type that one vertex contributes to the interface, and the number of
vertices.  Control points contribute nothing to the per-patch function. -/
def Source.Param.perVertex (p : Param) (stage : Stage) (perPatch : Bool) :
    Option Ty × Option Nat :=
  match p.ty.resource? with
  | some (.inputPatch points, elem) =>
    if perPatch then (none, none)
    else if stage = .hull then (elem, some points)
    else ofShape
  | some (.outputPatch points, elem) =>
    if perPatch then (none, none)
    else if stage = .domain then (elem, some points)
    else ofShape
  | some (.stream _, elem) => (elem, none)
  | _ => ofShape
where
  /-- The element of a geometry shader's array over vertices, else the whole type. -/
  ofShape : Option Ty × Option Nat :=
    if stage = .geometry ∧ p.primitive.isSome then
      match p.ty.shape with
      | .array elem length => (some elem, length)
      | _ => (some p.ty, none)
    else (some p.ty, none)

/-- Whether a parameter is an output stream. -/
def Source.Param.isStream (p : Param) : Bool :=
  match p.ty.resource? with
  | some (.stream _, _) => true
  | _ => false

/-- The placement of a leaf, or what is wrong with it. -/
def placementOf (stage : Stage) (point : SignaturePoint) (decl : Field)
    (semantic : Option Semantic) : Except Finding Placement :=
  match decl.attributes.builtin, semantic with
  | some name, _ =>
    match Placement.namedBuiltins.lookup name with
    | none => .error (.unknownBuiltin name)
    | some b =>
      match Placement.ofBuiltin? b point with
      | some placement => .ok placement
      | none => .error (.misplacedBuiltin name stage point.direction)
  | none, none => .error (.missingSemantic point.direction decl.name)
  | none, some semantic =>
    if semantic.kind = .unknown then .error (.unknownSystemValue semantic)
    else
      match Placement.ofSemantic? semantic.kind point with
      | some placement => .ok placement
      | none => .error (.misplacedSemantic semantic stage point)

/-- The source type of a builtin variable; most have the type of their declaration. -/
def builtinType (b : Builtin) (ty : Ty) : Ty :=
  match b with
  | .sampleMask => .array (.scalar .uint32) (some 1)
  | .tessLevelOuter => .array (.scalar .single) (some 4)
  | .tessLevelInner => .array (.scalar .single) (some 2)
  | _ => ty.onInterface

/-- The decorations of a builtin variable. -/
def builtinDecorations (b : Builtin) (point : SignaturePoint) : List VariableDecoration :=
  let perPatch := match b with
    | .tessCoord | .primitiveId | .viewIndex => false
    | _ => true
  .builtin b :: (if point.isPatch && perPatch then [.patch] else [])

/-- The interpolation decorations of a pixel shader input.  Integers and truth values are never
interpolated. -/
def interpolationDecorations (ty : Ty) (modes : Interpolation) : List VariableDecoration :=
  let isFlat := ty.elementScalar?.any fun s => s.isInteger || s = .bool
  (if isFlat || modes.flat then [.flat] else [])
    ++ (if modes.noPerspective then [.noPerspective] else [])
    ++ (if modes.centroid then [.centroid] else [])
    ++ (if modes.sample then [.sample] else [])

/-- The decorations of a variable at a location, before it has one. -/
def locatedDecorations (options : Options) (point : SignaturePoint) (decl : Field) :
    List VariableDecoration :=
  (if point.isPatch then [.patch] else [])
    ++ (if point = .pixelIn then interpolationDecorations decl.ty decl.attributes.interpolation
      else [])
    ++ (if Layout.isRelaxedPrecision options decl.ty then [.relaxedPrecision] else [])
    ++ (decl.attributes.index.map VariableDecoration.index).toList

/-- The location that a declaration asks for; a render target is at its own. -/
def explicitLocation? (decl : Field) (semantic : Semantic) : Option Nat :=
  decl.attributes.location.or (if semantic.kind = .target then some semantic.index else none)

/-- The name of a variable at a location. -/
def locatedName (direction : Direction) (semantic : Semantic) : String :=
  (match direction with
    | .input => "in.var."
    | .output => "out.var.") ++ semantic.string

/-- Whether the scalar of a type is stored in 16 bits. -/
def isNarrow (options : Options) (ty : Ty) : Bool :=
  ty.elementScalar?.any fun s => s.bits options = 16

namespace Emit

/-- The type of an interface variable, with an outer array over vertices. -/
def interfaceType (ty : Ty) (vertices : Option Nat) : Emit TypeId := do
  overVertices (← type ty .unlaid) vertices

/-- The variable of a builtin. -/
def builtinVariable (decl : Field) (b : Builtin) (c : InterfaceContext) : Emit VariableId := do
  moveTo decl.position
  let ty ← interfaceType (builtinType b decl.ty) c.vertices
  addVariable
    ⟨some ("gl_" ++ b.text), ty, c.point.direction.storage, builtinDecorations b c.point⟩

/-- The variable of a leaf at a location, and the number of its locations. -/
def locatedVariable (decl : Field) (semantic : Semantic) (c : InterfaceContext) :
    Emit (VariableId × Nat) := do
  let options := (← get).options
  moveTo decl.position
  let ty ← interfaceType decl.ty.onInterface c.vertices
  if c.point = .pixelIn ∧ decl.attributes.interpolation.sample then
    require .sampleRateShading
  if isNarrow options decl.ty then
    declare (some .storageInputOutput16) (some .storage16Bit)
  let count ← .ofChecked (Layout.locations options decl.ty)
  let var ← addVariable
    ⟨some (locatedName c.point.direction semantic), ty, c.point.direction.storage,
      locatedDecorations options c.point decl⟩
  return (var, count)

end Emit

namespace Lower

/-- One more interface variable. -/
def addInterface (v : InterfaceVariable) : Lower Unit :=
  modify fun s => { s with interface := s.interface ++ [v] }

/-- The variable of a builtin, created if there is none.  A builtin has one variable per direction,
whatever signature points it is used at. -/
def builtinVariable (decl : Field) (b : Builtin) (c : InterfaceContext) :
    Lower (VariableId × SignaturePoint) := do
  match (← get).builtins.lookup (b, c.point.direction) with
  | some known => return known
  | none =>
    let var ← emit (.builtinVariable decl b c)
    modify fun s =>
      { s with builtins := ((b, c.point.direction), (var, c.point)) :: s.builtins }
    return (var, c.point)

/-- Creates a leaf that is a builtin.  A second declaration at the signature point of the first is
recorded, so that the repeated semantic is found; one at another point shares the variable. -/
def createBuiltin (decl : Field) (semantic : Option Semantic) (b : Builtin)
    (c : InterfaceContext) : Lower Unit := do
  let (var, point) ← builtinVariable decl b c
  if point = c.point then
    addInterface {
      point := c.point, semantic, builtin := some b, location := none, index := none,
      locationCount := 0, invocation := c.invocation, var, position := decl.position }

/-- Creates a leaf at a location. -/
def createLocated (decl : Field) (semantic : Semantic) (c : InterfaceContext) : Lower Unit := do
  let (var, count) ← emit (.locatedVariable decl semantic c)
  addInterface {
    point := c.point, semantic := some semantic, builtin := none,
    location := explicitLocation? decl semantic, index := decl.attributes.index,
    locationCount := count, invocation := c.invocation, var, position := decl.position }

/-- Creates a leaf; the answer is whether nothing is wrong with it. -/
def createLeaf (decl : Field) (semantic : Option Semantic) (c : InterfaceContext) :
    Lower Bool := do
  match placementOf (← get).stage c.point decl semantic with
  | .error finding =>
    report finding decl.position
    return false
  | .ok placement =>
    emit (.declare placement.capability placement.extension)
    match placement.site, semantic with
    | .packed, _ => return true
    | .builtin b, _ =>
      createBuiltin decl semantic b c
      return true
    | .location, some semantic =>
      createLocated decl semantic c
      return true
    | .location, none => return true

/-- Creates an item; the answer is whether nothing is wrong with it. -/
def createItem (c : InterfaceContext) : InterfaceItem → Lower Bool
  | .leaf decl semantic => createLeaf decl semantic c
  | .remark finding position => do
    report finding position
    return !finding.severity.isError

/-- Creates items in order; the answer is whether nothing is wrong with any. -/
def createItems (c : InterfaceContext) : List InterfaceItem → Lower Bool
  | [] => return true
  | item :: rest => do
    let here ← createItem c item
    let others ← createItems c rest
    return here && others

/-- Creates the variables of a declaration at a signature point, if the stage has one. -/
def createDeclaration (decl : Field) (point : Option SignaturePoint)
    (vertices invocation : Option Nat) : Lower Bool := do
  if decl.ty.isVoid then
    return true
  else
    match point with
    | none =>
      report (.noInterface (← get).stage) decl.position
      return false
    | some point => createItems ⟨point, vertices, invocation⟩ (InterfaceItem.ofDeclaration decl)

/-- A parameter as a declaration of the given type. -/
def declarationOf (p : Param) (ty : Ty) : Field := ⟨p.name, ty, p.attributes, p.position⟩

/-- Creates the input variables of a parameter. -/
def createInput (p : Param) (perPatch : Bool) : Lower Bool := do
  if p.isStream then
    return true
  else
    let stage := (← get).stage
    let (ty, vertices) := p.perVertex stage perPatch
    match ty with
    | none => return true
    | some ty =>
      let role : Role :=
        if perPatch then .patchConstant else if vertices.isSome then .perVertex else .plain
      createDeclaration (declarationOf p ty) (SignaturePoint.of? stage .input role) vertices none

/-- Creates the output variables of a hull shader, one element per control point. -/
def createHullOutput (p : Param) (points : Nat) (invocation : Option Nat) : Lower Bool :=
  createDeclaration (declarationOf p p.ty) (some .hullPointOut) (some points) invocation

/-- Creates the output variables of a parameter or return value. -/
def createOutput (p : Param) (perPatch : Bool) : Lower Bool := do
  let stage := (← get).stage
  if stage = .hull ∧ !perPatch then
    match (← get).outputPoints with
    | none =>
      report .missingPointCount p.position
      return false
    | some points => createHullOutput p points none
  else
    match (p.perVertex stage perPatch).1 with
    | none => return true
    | some ty =>
      createDeclaration (declarationOf p ty)
        (SignaturePoint.of? stage .output (if perPatch then .patchConstant else .plain)) none none

/-- Reports the repeated semantics of one direction; the answer is whether there are none. -/
def checkSemantics (direction : Direction) : Lower Bool := do
  let findings := repeatedSemantics direction []
    ((← get).interface.filter (·.direction = direction))
  reportAll findings
  return findings.isEmpty

/-- Gives an interface variable its location. -/
def setLocation (i location : Nat) : Lower Unit := do
  modify fun s =>
    { s with interface := s.interface.modify i fun v => { v with location := some location } }
  match (← get).interface[i]? with
  | some v => emit (.decorate v.var (.location location))
  | none => return ()

/-- Gives every variable of one direction its location; the answer is whether no explicit locations
collide. -/
def assignLocations (direction : Direction) : Lower Bool := do
  let plan ← Action.ofChecked (LocationPlan.of (← options).order direction (← get).interface)
  reportAll plan.findings
  plan.placed.forM fun (i, location) => setLocation i location
  return plan.findings.isEmpty

/-- Checks the semantics of both directions and gives out their locations; the answer is whether
nothing is wrong. -/
def decorateLocations : Lower Bool := do
  let inputsUnique ← checkSemantics .input
  let outputsUnique ← checkSemantics .output
  let inputsPlaced ← assignLocations .input
  let outputsPlaced ← assignLocations .output
  return inputsUnique && outputsUnique && inputsPlaced && outputsPlaced

end Lower

end ShaderLowering
