import ShaderLowering.Word
import ShaderLowering.Source.Ty
import ShaderLowering.Spirv.Entry

/-!
# Packed distances

All clip distances of one direction share one array, and so do all cull distances.  The declarations
are sorted by semantic index and laid end to end:

    float2 a : SV_ClipDistance2;
    float  b : SV_ClipDistance0;
    float3 c : SV_ClipDistance1;

become an array of six numbers with `b` at 0, `c` at 1 and `a` at 4.
-/

namespace ShaderLowering.Distance

open Source (Ty)

/-- A declared distance. -/
structure Declared where
  ty : Ty
  /-- The number of components. -/
  count : Nat
deriving DecidableEq, Repr, Inhabited

/-- A half-open range of array elements. -/
structure Range where
  start : Nat
  stop : Nat
deriving DecidableEq, Repr, Inhabited

/-- The distances of one kind and direction. -/
structure Packing where
  /-- What is declared, by ascending semantic index. -/
  declared : List (Nat × Declared) := []
  /-- The calculated ranges, by ascending semantic index. -/
  ranges : List (Nat × Range) := []
  /-- The calculated length of the array. -/
  total : Nat := 0
  /-- The array, once there is one. -/
  var : Option Spirv.VariableId := none
deriving DecidableEq, Repr, Inhabited

/-- Where a declared distance lives in its array. -/
structure Access where
  var : Spirv.VariableId
  offset : Nat
  count : Nat
  /-- The one outer element that is touched, in an array over invocations. -/
  invocation : Option Nat
  ty : Ty
deriving DecidableEq, Repr, Inhabited

/-- Insertion into a list sorted by ascending key. -/
def insertSorted {α : Type} (key : Nat) (a : α) : List (Nat × α) → List (Nat × α)
  | [] => [(key, a)]
  | (k, b) :: rest =>
    if key < k then (key, a) :: (k, b) :: rest else (k, b) :: insertSorted key a rest

/-- The ranges of declarations laid end to end from `start`, and the end of the last one. -/
def rangesFrom : Nat → List (Nat × Declared) → Checked (List (Nat × Range) × Nat)
  | start, [] => .ok ([], start)
  | start, (index, d) :: rest => do
    let stop ← Word.add start d.count
    let (ranges, total) ← rangesFrom stop rest
    return ((index, ⟨start, stop⟩) :: ranges, total)

namespace Packing

/-- The packing with one more declaration. -/
def declare (p : Packing) (index : Nat) (d : Declared) : Packing :=
  { p with declared := insertSorted index d p.declared }

/-- The packing with the ranges of all declarations. -/
def calculate (p : Packing) : Checked Packing := do
  let (ranges, total) ← rangesFrom 0 p.declared
  return { p with ranges, total }

/-- The range of the declaration with a semantic index. -/
def range? (p : Packing) (index : Nat) : Option Range := p.ranges.lookup index

/-- Where the declaration with a semantic index lives. -/
def access? (p : Packing) (index : Nat) (invocation : Option Nat) : Option Access := do
  let range ← p.range? index
  let var ← p.var
  let d ← p.declared.lookup index
  return ⟨var, range.start, range.stop - range.start, invocation, d.ty⟩

end Packing

end ShaderLowering.Distance
