import ShaderLowering.Word
import ShaderLowering.Layout.Width

/-!
# Extents

The extent of a type under a memory rule is its alignment, its size and the stride between the
parts that it repeats.  This module has the extents of the types that contain no other type by
name, and the step from an element to an array of it.
-/

namespace ShaderLowering.Layout

open Source (Scalar)

/-- The alignment, size and stride of a type, in bytes. -/
structure Extent where
  alignment : Nat
  size : Nat
  /-- The distance of array elements, or of the stored vectors of a matrix; else the size. -/
  stride : Nat
deriving DecidableEq, Repr, Inhabited

namespace Extent

/-- The extent of a type that takes no room. -/
def empty : Extent := ⟨1, 0, 0⟩

/-- An extent that repeats nothing. -/
def solid (alignment size : Nat) : Extent := ⟨alignment, size, size⟩

/-- The extent of a scalar. -/
def ofScalar (options : Options) (s : Scalar) : Extent :=
  solid (s.bytes options) (s.bytes options)

/-- The number of components to which a vector of `count` components is aligned. -/
def lanes (count : Nat) : Nat := if count = 3 then 4 else count

/-- The extent of a vector. -/
def ofVector (options : Options) (rule : Rule) (elem : Scalar) (count : Nat) : Checked Extent :=
  let bytes := elem.bytes options
  if count = 1 then .ok (ofScalar options elem)
  else do
    let alignment ← if rule.alignsToElement then .ok bytes else Word.mul bytes (lanes count)
    return solid alignment (← Word.mul bytes count)

/-- The alignment of an aggregate whose parts have the given alignment. -/
def aggregateAlignment (rule : Rule) (alignment : Nat) : Checked Nat :=
  if rule.roundsAggregates then Word.roundUp alignment 16 else .ok alignment

/-- The extent of a matrix that is stored by rows or else by columns. -/
def ofMatrix (options : Options) (rule : Rule) (elem : Scalar) (rows cols : Nat)
    (byRows : Bool) : Checked Extent := do
  if rows = 1 ∨ cols = 1 then
    ofVector options rule elem (← Word.mul rows cols)
  else
    let bytes := elem.bytes options
    let width := if byRows then cols else rows
    let count := if byRows then rows else cols
    if rule.isTight then
      return ⟨bytes, ← Word.mul (← Word.mul rows cols) bytes, ← Word.mul width bytes⟩
    else
      let alignment ← aggregateAlignment rule (← Word.mul bytes (lanes width))
      return ⟨alignment, ← Word.mul count alignment, alignment⟩

/-- The extent of an array; one of open length has no elements of its own.  Under the register
rule of constant buffers the last element is not padded. -/
def ofArray (rule : Rule) (elem : Extent) (length : Option Nat) : Checked Extent := do
  let count := length.getD 0
  if rule.isTight then
    return ⟨elem.alignment, ← Word.mul elem.size count, elem.size⟩
  else
    let alignment ← aggregateAlignment rule elem.alignment
    let stride ← Word.roundUp elem.size alignment
    if rule = .registerConstant then
      if count = 0 then
        return ⟨alignment, 0, stride⟩
      else
        return ⟨alignment, ← Word.add elem.size (← Word.mul stride (count - 1)), stride⟩
    else
      return ⟨alignment, ← Word.roundUp (← Word.mul stride count) alignment, stride⟩

end Extent

end ShaderLowering.Layout
