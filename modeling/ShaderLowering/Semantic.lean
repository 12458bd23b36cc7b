import ShaderLowering.Word
import ShaderLowering.Source.Attributes

/-!
# Semantics

A semantic string names what a value on a stage interface means.  It is a name followed by an
index: `TEXCOORD3` is index 3 of `TEXCOORD`.  Names that start with `SV_` are system values, read
without regard to case; every other name is the programmer's own.
-/

namespace ShaderLowering

open Source (Position)

/-- The role of a semantic name. -/
inductive SemanticKind
  /-- A name of the programmer's own. -/
  | arbitrary
  | position
  | vertexId
  | instanceId
  | clipDistance
  | cullDistance
  | isFrontFace
  | depth
  | depthGreaterEqual
  | depthLessEqual
  | target
  | dispatchThreadId
  | groupId
  | groupThreadId
  | groupIndex
  | outputControlPointId
  | gsInstanceId
  | primitiveId
  | tessFactor
  | insideTessFactor
  | domainLocation
  | sampleIndex
  | coverage
  | innerCoverage
  | stencilRef
  | renderTargetArrayIndex
  | viewportArrayIndex
  | viewId
  /-- A system value that does not exist. -/
  | unknown
deriving DecidableEq, Repr, Inhabited

namespace SemanticKind

/-- The system values, by their upper-case names without `SV_`. -/
def systemValues : List (String × SemanticKind) :=
  [("POSITION", position), ("VERTEXID", vertexId), ("INSTANCEID", instanceId),
    ("CLIPDISTANCE", clipDistance), ("CULLDISTANCE", cullDistance), ("ISFRONTFACE", isFrontFace),
    ("DEPTH", depth), ("DEPTHGREATEREQUAL", depthGreaterEqual),
    ("DEPTHLESSEQUAL", depthLessEqual), ("TARGET", target),
    ("DISPATCHTHREADID", dispatchThreadId), ("GROUPID", groupId),
    ("GROUPTHREADID", groupThreadId), ("GROUPINDEX", groupIndex),
    ("OUTPUTCONTROLPOINTID", outputControlPointId), ("GSINSTANCEID", gsInstanceId),
    ("PRIMITIVEID", primitiveId), ("TESSFACTOR", tessFactor),
    ("INSIDETESSFACTOR", insideTessFactor), ("DOMAINLOCATION", domainLocation),
    ("SAMPLEINDEX", sampleIndex), ("COVERAGE", coverage), ("INNERCOVERAGE", innerCoverage),
    ("STENCILREF", stencilRef), ("RENDERTARGETARRAYINDEX", renderTargetArrayIndex),
    ("VIEWPORTARRAYINDEX", viewportArrayIndex), ("VIEWID", viewId)]

/-- The role of a semantic name without its index. -/
def ofName (name : String) : SemanticKind :=
  match (name.map Char.toUpper).toList with
  | 'S' :: 'V' :: '_' :: rest => (systemValues.lookup (String.ofList rest)).getD unknown
  | _ => arbitrary

end SemanticKind

/-- A semantic with its parts. -/
structure Semantic where
  /-- The whole string, as written or as composed from name and index. -/
  string : String
  name : String
  index : Nat
  kind : SemanticKind
  position : Position
deriving DecidableEq, Repr, Inhabited

namespace Semantic

/-- The characters of a semantic string before its index. -/
def nameChars (cs : List Char) : List Char := (cs.reverse.dropWhile Char.isDigit).reverse

/-- The digits of the index of a semantic string. -/
def indexChars (cs : List Char) : List Char := (cs.reverse.takeWhile Char.isDigit).reverse

/-- The number that decimal digits denote; no digits denote zero. -/
def digitsValue (cs : List Char) : Nat :=
  cs.foldl (fun n c => 10 * n + (c.toNat - '0'.toNat)) 0

theorem nameChars_append_indexChars (cs : List Char) : nameChars cs ++ indexChars cs = cs := by
  rw [nameChars, indexChars, ← List.reverse_append, List.takeWhile_append_dropWhile,
    List.reverse_reverse]

/-- A semantic string with its parts; there is none if the index is not a word. -/
def ofString? (string : String) (position : Position) : Option Semantic :=
  let name := String.ofList (nameChars string.toList)
  let index := digitsValue (indexChars string.toList)
  if index < Word.bound then some ⟨string, name, index, .ofName name, position⟩ else none

/-- The semantic of the same name at another index. -/
def withIndex (s : Semantic) (index : Nat) : Semantic :=
  { s with string := s.name ++ toString index, index }

/-- The semantic at the next index, if that is a word. -/
def next? (s : Semantic) : Option Semantic :=
  if s.index + 1 < Word.bound then some (s.withIndex (s.index + 1)) else none

/-- What two uses of one semantic have in common: the string in upper case. -/
def key (s : Semantic) : String := s.string.map Char.toUpper

end Semantic

end ShaderLowering
