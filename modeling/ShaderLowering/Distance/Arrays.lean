import ShaderLowering.Distance.Packing
import ShaderLowering.Emission.Emitter
import ShaderLowering.Semantic.Placement

/-!
# Distance arrays

The packings of clip and cull distances, for inputs and outputs.  Declarations are recorded first,
structures by their fields with the fields' own semantics; then the arrays are measured, and then
they are created.
-/

namespace ShaderLowering

open Source (Ty OptionalTy Fields Position)
open Distance (Packing Declared)

/-- A part of a declaration that is no structure, with the semantic written on it. -/
structure DistanceLeaf where
  ty : Ty
  semantic : Option String
  position : Position
deriving DecidableEq, Repr, Inhabited

mutual

/-- The parts of a declaration of type `whole` that are no structures. -/
def distanceLeaves (whole : Ty) (semantic : Option String) (position : Position) :
    Ty → List DistanceLeaf
  | .alias _ target | .oriented _ target => distanceLeaves whole semantic position target
  | .struct _ base fields => baseDistanceLeaves position base ++ fieldDistanceLeaves fields
  | _ => [⟨whole, semantic, position⟩]

/-- The parts of a base structure, which stands at the place of the structure around it. -/
def baseDistanceLeaves (position : Position) : OptionalTy → List DistanceLeaf
  | .absent => []
  | .present ty => distanceLeaves ty none position ty

/-- The parts of fields. -/
def fieldDistanceLeaves : Fields → List DistanceLeaf
  | .nil => []
  | .cons _ ty attributes position rest =>
    distanceLeaves ty attributes.semantic position ty ++ fieldDistanceLeaves rest

end

/-- The number of components of a floating-point scalar or vector. -/
def distanceCount? (ty : Ty) : Option Nat :=
  match ty.shape with
  | .scalar s => if s.isFloat then some 1 else none
  | .vector elem count => if elem.isFloat then some count else none
  | _ => none

/-- The builtin of a kind of distance. -/
def DistanceKind.builtin : DistanceKind → Spirv.Builtin
  | clip => .clipDistance
  | cull => .cullDistance

/-- The capability that a kind of distance asks for. -/
def DistanceKind.capability : DistanceKind → Spirv.Capability
  | clip => .clipDistance
  | cull => .cullDistance

/-- The storage class of interface variables. -/
def Direction.storage : Direction → Spirv.StorageClass
  | input => .input
  | output => .output

/-- The packings of all distances. -/
structure DistanceArrays where
  inputClip : Packing := {}
  inputCull : Packing := {}
  outputClip : Packing := {}
  outputCull : Packing := {}
deriving DecidableEq, Repr, Inhabited

namespace DistanceArrays

/-- The packing of one direction and kind. -/
def get (a : DistanceArrays) : Direction → DistanceKind → Packing
  | .input, .clip => a.inputClip
  | .input, .cull => a.inputCull
  | .output, .clip => a.outputClip
  | .output, .cull => a.outputCull

/-- The arrays with another packing for one direction and kind. -/
def set (a : DistanceArrays) (direction : Direction) (kind : DistanceKind) (p : Packing) :
    DistanceArrays :=
  match direction, kind with
  | .input, .clip => { a with inputClip := p }
  | .input, .cull => { a with inputCull := p }
  | .output, .clip => { a with outputClip := p }
  | .output, .cull => { a with outputCull := p }

theorem get_set (a : DistanceArrays) (direction : Direction) (kind : DistanceKind)
    (p : Packing) : (a.set direction kind p).get direction kind = p := by
  cases direction <;> cases kind <;> rfl

theorem get_set_of_ne (a : DistanceArrays) {direction direction' : Direction}
    {kind kind' : DistanceKind} (p : Packing)
    (h : (direction, kind) ≠ (direction', kind')) :
    (a.set direction kind p).get direction' kind' = a.get direction' kind' := by
  cases direction <;> cases kind <;> cases direction' <;> cases kind' <;>
    simp_all [set, get]

/-- All directions and kinds, in the order in which arrays are created. -/
def keys : List (Direction × DistanceKind) :=
  [(.input, .clip), (.input, .cull), (.output, .clip), (.output, .cull)]

/-- The arrays with one part of a declaration recorded, or what is wrong with it.  A part without a
distance semantic changes nothing, nor does one that repeats a declaration. -/
def recordLeaf (a : DistanceArrays) (direction : Direction) (leaf : DistanceLeaf) :
    Except Finding DistanceArrays :=
  match leaf.semantic.bind (Semantic.ofString? · leaf.position) with
  | none => .ok a
  | some semantic =>
    match semantic.kind.distance? with
    | none => .ok a
    | some kind =>
      match distanceCount? leaf.ty with
      | none => .error (.distanceNotFloat semantic leaf.ty)
      | some count =>
        let p := a.get direction kind
        match p.declared.lookup semantic.index with
        | none => .ok (a.set direction kind (p.declare semantic.index ⟨leaf.ty, count⟩))
        | some old =>
          if old.ty = leaf.ty then .ok a
          else .error (.distanceRedeclared semantic leaf.ty old.ty)

/-- The arrays with all parts recorded that can be, and what is wrong with the others. -/
def recordLeaves (a : DistanceArrays) (direction : Direction) :
    List DistanceLeaf → List (Finding × Position) × DistanceArrays
  | [] => ([], a)
  | leaf :: rest =>
    match a.recordLeaf direction leaf with
    | .ok a => a.recordLeaves direction rest
    | .error finding =>
      let (findings, a) := a.recordLeaves direction rest
      ((finding, leaf.position) :: findings, a)

/-- The arrays with a declaration recorded, and what is wrong with it. -/
def record (a : DistanceArrays) (ty : Ty) (semantic : Option String) (direction : Direction)
    (position : Position) : List (Finding × Position) × DistanceArrays :=
  a.recordLeaves direction (distanceLeaves ty semantic position ty)

/-- The arrays with all ranges calculated. -/
def calculate (a : DistanceArrays) : Checked DistanceArrays := do
  return {
    inputClip := ← a.inputClip.calculate
    inputCull := ← a.inputCull.calculate
    outputClip := ← a.outputClip.calculate
    outputCull := ← a.outputCull.calculate }

/-- The length of an array. -/
def total (a : DistanceArrays) (direction : Direction) (kind : DistanceKind) : Nat :=
  (a.get direction kind).total

end DistanceArrays

namespace Emit

/-- The array type over vertices, where there are several. -/
def overVertices (base : Spirv.TypeId) : Option Nat → Emit Spirv.TypeId
  | none => return base
  | some count => do plainType (.array base (← constant count))

/-- The variable of an array of `total` distances. -/
def distanceArray (direction : Direction) (kind : DistanceKind) (total : Nat)
    (vertices : Option Nat) : Emit Spirv.VariableId := do
  let number ← scalarType .float32
  let array ← plainType (.array number (← constant total))
  let ty ← overVertices array vertices
  let var ← addVariable
    ⟨some ("gl_" ++ kind.builtin.text), ty, direction.storage, [.builtin kind.builtin]⟩
  require kind.capability
  return var

/-- Creates the arrays that are not empty, in the order of the given keys. -/
def distanceArraysFor (inputVertices outputVertices : Option Nat) :
    List (Direction × DistanceKind) → DistanceArrays →
      Emit (List Spirv.VariableId × DistanceArrays)
  | [], a => return ([], a)
  | (direction, kind) :: rest, a => do
    let p := a.get direction kind
    if p.total = 0 then
      distanceArraysFor inputVertices outputVertices rest a
    else
      let vertices := match direction with
        | .input => inputVertices
        | .output => outputVertices
      let var ← distanceArray direction kind p.total vertices
      let (vars, a) ← distanceArraysFor inputVertices outputVertices rest
        (a.set direction kind { p with var := some var })
      return (var :: vars, a)

/-- Creates the arrays that are not empty, over the given numbers of vertices. -/
def distanceArrays (a : DistanceArrays) (inputVertices outputVertices : Option Nat) :
    Emit (List Spirv.VariableId × DistanceArrays) :=
  distanceArraysFor inputVertices outputVertices DistanceArrays.keys a

end Emit

end ShaderLowering
