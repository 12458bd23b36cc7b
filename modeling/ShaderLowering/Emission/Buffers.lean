import ShaderLowering.Emission.Records

/-!
# Emission of storage buffers

A storage buffer is a block around one array of open length.  Where no memory layout is asked for,
a local variable aliases the buffer, and its type is a pointer to the block.
-/

namespace ShaderLowering

open Source (Ty Resource StructuredAccess)
open Spirv (TypeId TypeDecoration)

namespace Emit

/-- A block, or a pointer to it for an alias. -/
def blockOrAlias (block : TypeId) (rule : Layout.Rule) : Emit TypeId :=
  if rule = .unlaid then plainType (.pointer block .uniform) else return block

/-- A block around one nameless member. -/
def wrapArray (name : String) (array : TypeId) (decorations : List TypeDecoration) :
    Emit TypeId :=
  insertType ⟨some name, .struct [⟨none, array⟩], decorations⟩

/-- The rule under which the elements of a structured buffer are laid out. -/
def elementRule (options : Options) (rule : Layout.Rule) : Layout.Rule :=
  if rule = .unlaid then options.structuredRule else rule

/-- The type of a structured buffer whose element type is emitted under its rule. -/
def ofStructured (access : StructuredAccess) (elem : Ty) (base : TypeId) (rule : Layout.Rule) :
    Emit TypeId := do
  let options := (← get).options
  let inner := elementRule options rule
  let stride := (← .ofChecked (Layout.extent options inner elem)).size
  let array ← insertType ⟨none, .runtimeArray base, [.arrayStride stride]⟩
  let matrix ← .ofChecked (Layout.matrixStride? options inner elem)
  let elemName := (elem.record?.map (·.name)).getD elem.text
  let block ← wrapArray ("type." ++ (Resource.structured access).name ++ "." ++ elemName) array
    (Layout.matrixDecorations 0 matrix ++ [.offset 0 0]
      ++ (if access = .read then [.nonWritable 0] else []) ++ [.bufferBlock])
  blockOrAlias block rule

/-- The type of a byte buffer. -/
def ofByteAddress (kind : Resource) (writable : Bool) (rule : Layout.Rule) : Emit TypeId := do
  let word ← scalarType .uint32
  let array ← insertType ⟨none, .runtimeArray word, [.arrayStride 4]⟩
  let block ← wrapArray ("type." ++ kind.name) array
    ([.offset 0 0] ++ (if writable then [] else [.nonWritable 0]) ++ [.bufferBlock])
  blockOrAlias block rule

/-- The type of the hidden counter of a structured buffer. -/
def counterType : Emit TypeId := do
  let number ← scalarType .int32
  insertType ⟨some "type.ACSBuffer.counter", .struct [⟨some "counter", number⟩],
    [.offset 0 0, .bufferBlock]⟩

end Emit

end ShaderLowering
