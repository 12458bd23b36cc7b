import ShaderLowering.Emission.Images
import ShaderLowering.Emission.Buffers

/-!
# Emission of types

A source type is emitted under a memory rule by walking down its wrappers and parts.  An expected
scalar settles the literals in scalars, vectors, matrices and arrays of them; inside structures and
resources nothing is expected.
-/

namespace ShaderLowering

open Source (Ty OptionalTy Fields Scalar Resource Record)
open Spirv (TypeId)

/-- The rule and the role of the content of a constant or texture buffer. -/
def contentRule (options : Options) (kind : Resource) (rule : Layout.Rule) :
    Layout.Rule × BlockRole :=
  if kind = .constantBuffer then
    (if rule = .unlaid then options.constantRule else rule, .block)
  else
    (if rule = .unlaid then options.textureRule else rule, .bufferBlock true)

namespace Emit

mutual

/-- The number of a type at a point with the given matrix orders. -/
def ofTy : Ty → Layout.Rule → Layout.Orientation → Option Scalar → Emit TypeId
  | .alias _ target, rule, o, expected => ofTy target rule o expected
  | .oriented order target, rule, o, expected => ofTy target rule (o.annotate order) expected
  | .void, rule, o, expected => remembered ⟨.void, rule, o.order?⟩ expected (plainType .void)
  | .scalar elem, rule, o, expected =>
    remembered ⟨.scalar elem, rule, o.order?⟩ expected (ofScalar rule expected elem)
  | .vector elem count, rule, o, expected =>
    remembered ⟨.vector elem count, rule, o.order?⟩ expected (ofVector rule expected elem count)
  | .matrix elem rows cols, rule, o, expected =>
    remembered ⟨.matrix elem rows cols, rule, o.order?⟩ expected
      (ofMatrix rule o expected elem rows cols)
  | .array elem length, rule, o, expected =>
    remembered ⟨.array elem length, rule, o.order?⟩ expected do
      ofArray rule o elem length (← ofTy elem rule o.element expected)
  | .struct name base fields, rule, o, expected =>
    remembered ⟨.struct name base fields, rule, o.order?⟩ expected do
      let inherited ← ofBase base rule
      let own ← ofFields fields rule
      ofRecord name (Record.parts ⟨name, base, fields⟩) (inherited ++ own) rule .plain
  | .resource kind elem, rule, o, expected =>
    remembered ⟨.resource kind elem, rule, o.order?⟩ expected (ofResource elem kind rule)

/-- The number of the base structure's type, if there is one. -/
def ofBase : OptionalTy → Layout.Rule → Emit (List TypeId)
  | .absent, _ => return []
  | .present ty, rule => return [← ofTy ty rule {} none]

/-- The numbers of the types of fields. -/
def ofFields : Fields → Layout.Rule → Emit (List TypeId)
  | .nil, _ => return []
  | .cons _ ty _ _ rest, rule => do
    let first ← ofTy ty rule {} none
    return first :: (← ofFields rest rule)

/-- The number of a resource type with the given element. -/
def ofResource : OptionalTy → Resource → Layout.Rule → Emit TypeId
  | elem, .texture dim arrayed multisampled writable, _ =>
    ofTexture (.texture dim arrayed multisampled writable) dim arrayed multisampled writable
      elem.toOption
  | elem, .buffer writable, _ => ofBuffer (.buffer writable) writable elem.toOption
  | elem, .subpassInput multisampled, _ =>
    ofSubpassInput (.subpassInput multisampled) multisampled elem.toOption
  | _, .sampler _, _ => samplerType
  | _, .byteAddress writable, rule => ofByteAddress (.byteAddress writable) writable rule
  | .absent, kind, _ => abort (.missingElement kind)
  | .present elem, .structured access, rule => do
    let base ← ofTy elem (elementRule (← get).options rule) {} none
    ofStructured access elem base rule
  | .present elem, .stream _, rule => ofTy elem rule {} none
  | .present elem, .inputPatch points, _ | .present elem, .outputPatch points, _ => do
    let base ← ofTy elem .unlaid {} none
    plainType (.array base (← constant points))
  | .present elem, kind, rule => ofContent elem elem kind rule

/-- The number of the block type of a constant or texture buffer with the given content. -/
def ofContent : Ty → Ty → Resource → Layout.Rule → Emit TypeId
  | .alias _ target, whole, kind, rule | .oriented _ target, whole, kind, rule =>
    ofContent target whole kind rule
  | .struct name base fields, _, kind, rule => do
    let (inner, role) := contentRule (← get).options kind rule
    let inherited ← ofBase base inner
    let own ← ofFields fields inner
    ofRecord ("type." ++ kind.name ++ "." ++ name) (Record.parts ⟨name, base, fields⟩)
      (inherited ++ own) inner role
  | _, whole, kind, _ => do
    reportHere (.contentNotStruct kind whole)
    throw (.error .invalid)

end

/-- The number of a type under a memory rule. -/
def type (ty : Ty) (rule : Layout.Rule) : Emit TypeId := ofTy ty rule {} none

/-- The number of a type of whose scalars those of another type are expected. -/
def typeExpecting (ty : Ty) (rule : Layout.Rule) (expected : Option Ty) : Emit TypeId :=
  ofTy ty rule {} (expected.bind (·.elementScalar?))

/-- The number of the structure type of a block with the given parts. -/
def blockType (name : String) (parts : List Source.Field) (rule : Layout.Rule) (role : BlockRole) :
    Emit TypeId := do
  let types ← parts.mapM fun part => type part.ty rule
  ofRecord name parts types rule role

end Emit

end ShaderLowering
