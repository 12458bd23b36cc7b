/-!
# Shader stages and signature points

A stage interface is classified by stage, direction and the role of the declaration in it.  The
classes are the *signature points*; which semantics are allowed and what they become depends on
nothing else.
-/

namespace ShaderLowering

/-- A stage of the graphics, compute or ray-tracing pipeline. -/
inductive Stage
  | vertex
  | hull
  | domain
  | geometry
  | pixel
  | compute
  | rayGeneration
  | intersection
  | anyHit
  | closestHit
  | miss
  | callable
deriving DecidableEq, Repr, Inhabited

namespace Stage

/-- All stages, in pipeline order. -/
def all : List Stage :=
  [vertex, hull, domain, geometry, pixel, compute, rayGeneration, intersection, anyHit, closestHit,
    miss, callable]

/-- The name of the stage in messages and stage attributes. -/
def text : Stage → String
  | vertex => "vertex"
  | hull => "hull"
  | domain => "domain"
  | geometry => "geometry"
  | pixel => "pixel"
  | compute => "compute"
  | rayGeneration => "raygeneration"
  | intersection => "intersection"
  | anyHit => "anyhit"
  | closestHit => "closesthit"
  | miss => "miss"
  | callable => "callable"

/-- The stage of a target profile such as `ps_6_0`, read from the part before the first
underscore. -/
def ofProfile? (profile : String) : Option Stage :=
  match String.ofList (profile.toList.takeWhile (· != '_')) with
  | "vs" => some vertex
  | "hs" => some hull
  | "ds" => some domain
  | "gs" => some geometry
  | "ps" => some pixel
  | "cs" => some compute
  | _ => none

/-- The stage of a stage attribute or target profile, in any case of letters. -/
def ofName? (name : String) : Option Stage :=
  let lower := name.map Char.toLower
  (all.find? fun stage => stage.text == lower).or (ofProfile? lower)

/-- Whether the inputs of the stage have one element per vertex or control point. -/
def readsManyVertices : Stage → Bool
  | hull | domain | geometry => true
  | _ => false

end Stage

/-- The direction of a value on a stage interface. -/
inductive Direction
  | input
  | output
deriving DecidableEq, Repr, Inhabited

/-- The direction in a message. -/
def Direction.text : Direction → String
  | input => "input"
  | output => "output"

/-- The part that a declaration plays in the interface of its entry point. -/
inductive Role
  /-- An ordinary parameter or return value. -/
  | plain
  /-- An element of an array over vertices or control points. -/
  | perVertex
  /-- A parameter or return value of the per-patch function of a hull shader. -/
  | patchConstant
deriving DecidableEq, Repr, Inhabited

/-- A class of interface declarations to which the same semantics apply. -/
inductive SignaturePoint
  | vertexIn
  | vertexOut
  /-- Inputs of the per-patch function other than control points. -/
  | patchConstantIn
  /-- Inputs of a hull shader other than control points. -/
  | hullIn
  | hullPointIn
  | hullPointOut
  | patchConstantOut
  /-- Inputs of a domain shader other than control points. -/
  | domainIn
  | domainPointIn
  | domainOut
  /-- The vertices that a geometry shader reads. -/
  | geometryVertexIn
  /-- Inputs of a geometry shader other than vertices. -/
  | geometryIn
  | geometryOut
  | pixelIn
  | pixelOut
  | computeIn
deriving DecidableEq, Repr, Inhabited

namespace SignaturePoint

/-- The signature point of a declaration; stages without a stage interface have none. -/
def of? : Stage → Direction → Role → Option SignaturePoint
  | .vertex, .input, _ => some vertexIn
  | .vertex, .output, _ => some vertexOut
  | .hull, .input, .perVertex => some hullPointIn
  | .hull, .input, .patchConstant => some patchConstantIn
  | .hull, .input, .plain => some hullIn
  | .hull, .output, .patchConstant => some patchConstantOut
  | .hull, .output, _ => some hullPointOut
  | .domain, .input, .perVertex => some domainPointIn
  | .domain, .input, _ => some domainIn
  | .domain, .output, _ => some domainOut
  | .geometry, .input, .perVertex => some geometryVertexIn
  | .geometry, .input, _ => some geometryIn
  | .geometry, .output, _ => some geometryOut
  | .pixel, .input, _ => some pixelIn
  | .pixel, .output, _ => some pixelOut
  | .compute, .input, _ => some computeIn
  | _, _, _ => none

/-- The direction of the values at a signature point. -/
def direction : SignaturePoint → Direction
  | vertexIn | patchConstantIn | hullIn | hullPointIn | domainIn | domainPointIn
  | geometryVertexIn | geometryIn | pixelIn | computeIn => .input
  | vertexOut | hullPointOut | patchConstantOut | domainOut | geometryOut | pixelOut => .output

theorem direction_of? {stage : Stage} {direction : Direction} {role : Role} {point : SignaturePoint}
    (h : of? stage direction role = some point) : point.direction = direction := by
  cases stage <;> cases direction <;> cases role <;> cases h <;> rfl

/-- Whether the values at a signature point exist once per patch. -/
def isPatch : SignaturePoint → Bool
  | patchConstantOut | domainIn => true
  | _ => false

/-- The usual abbreviation of a signature point. -/
def text : SignaturePoint → String
  | vertexIn => "VSIn"
  | vertexOut => "VSOut"
  | patchConstantIn => "PCIn"
  | hullIn => "HSIn"
  | hullPointIn => "HSCPIn"
  | hullPointOut => "HSCPOut"
  | patchConstantOut => "PCOut"
  | domainIn => "DSIn"
  | domainPointIn => "DSCPIn"
  | domainOut => "DSOut"
  | geometryVertexIn => "GSVIn"
  | geometryIn => "GSIn"
  | geometryOut => "GSOut"
  | pixelIn => "PSIn"
  | pixelOut => "PSOut"
  | computeIn => "CSIn"

end SignaturePoint

end ShaderLowering
