import ShaderLowering.Emission.Numeric

/-!
# Emission of structures

A structure type carries its layout as decorations: an offset for every member, and stride and
order for every member that holds a floating-point matrix.  Since the columns of an emitted matrix
are the source rows, the order is the opposite of the one in the source.
-/

namespace ShaderLowering

open Source (Field)
open Spirv (TypeId TypeDecoration)

/-- What a structure type is used as. -/
inductive BlockRole
  | plain
  /-- A uniform or push constant block. -/
  | block
  /-- A storage block, perhaps with all members read-only. -/
  | bufferBlock (readOnly : Bool)
deriving DecidableEq, Repr, Inhabited

/-- The decorations of a structure with `count` members in its role. -/
def BlockRole.decorations (count : Nat) : BlockRole → List TypeDecoration
  | plain => []
  | block => [.block]
  | bufferBlock readOnly =>
    (if readOnly then (List.range count).map .nonWritable else []) ++ [.bufferBlock]

namespace Layout

/-- The parts of a structure, ready to be placed. -/
def unplacedParts (options : Options) (rule : Rule) (parts : List Field) :
    Checked (List Unplaced) :=
  parts.mapM fun part => do
    return .ofTy options part.name part.ty part.attributes part.position
      (← extent options rule part.ty)

/-- The decorations of a matrix member with the given stride and storage order. -/
def matrixDecorations (member : Nat) : Option (Nat × Bool) → List TypeDecoration
  | none => []
  | some (stride, byRows) =>
    [.matrixStride member stride, if byRows then .columnMajor member else .rowMajor member]

/-- The layout decorations of one member. -/
def memberDecorations (options : Options) (rule : Rule) (member : Nat) (part : Field)
    (placed : Placed) : Checked (List TypeDecoration) := do
  return .offset member placed.offset
    :: matrixDecorations member (← matrixStride? options rule part.ty)

/-- The layout decorations of all members, numbered from `first`. -/
def partDecorations (options : Options) (rule : Rule) :
    Nat → List Field → List Placed → Checked (List TypeDecoration)
  | first, part :: parts, placed :: rest => do
    let here ← memberDecorations options rule first part placed
    return here ++ (← partDecorations options rule (first + 1) parts rest)
  | _, _, _ => .ok []

end Layout

namespace Emit

/-- The layout decorations of a structure.  Overlaps are reported. -/
def layoutDecorations (rule : Layout.Rule) (parts : List Field) :
    Emit (List TypeDecoration) := do
  if rule = .unlaid then
    return []
  else
    let options := (← get).options
    let layout ← .ofChecked do
      Layout.RecordLayout.of rule (← Layout.unplacedParts options rule parts)
    layout.overlaps.forM fun o => report (.overlap o) o.position
    .ofChecked (Layout.partDecorations options rule 0 parts layout.members)

/-- The member of a structure type for a part. -/
def memberOf (part : Field) (ty : TypeId) : Spirv.Member :=
  ⟨if part.name.isEmpty then none else some part.name, ty⟩

/-- The type of a structure whose part types are emitted. -/
def ofRecord (name : String) (parts : List Field) (types : List TypeId) (rule : Layout.Rule)
    (role : BlockRole) : Emit TypeId := do
  let decorations ← layoutDecorations rule parts
  insertType ⟨some name, .struct (List.zipWith memberOf parts types),
    decorations ++ role.decorations parts.length⟩

end Emit

end ShaderLowering
