import ShaderLowering.Emission.Types
import ShaderLowering.Proofs.Spirv.TypeTree

/-!
# What emission writes

The tree of the type that is emitted for a source type, computed from the type, the rule and the
orders alone: no table, no memory of earlier requests, no diagnostics.  Each function follows the
emission function of the same name and fails where that one fails, for the same reason; an error
that carries a place is given without it.

That emission writes just these trees, whatever it has emitted before, is the subject of
`ShaderLowering.Proofs.Emission.Simulation`.
-/

namespace ShaderLowering

open Source (Ty OptionalTy Fields Field Scalar Resource Record TextureDim StructuredAccess)
open Spirv (TypeTree TreeForm TreeMembers TypeDecoration)

/-- A tree, or the reason why there is none. -/
abbrev Written (α : Type) := Except Failure α

namespace Written

/-- A checked value. -/
def ofChecked {α : Type} (c : Checked α) : Written α :=
  match c with
  | .ok a => .ok a
  | .error f => .error (.fault f)

theorem ofChecked_eq_ok_iff {α : Type} {c : Checked α} {a : α} :
    ofChecked c = .ok a ↔ c = .ok a := by
  cases c with
  | ok b => rw [ofChecked, Except.ok.injEq, Except.ok.injEq]
  | error f =>
    constructor
    · rintro ⟨⟩
    · rintro ⟨⟩

/-- The end of a compile at no particular place. -/
def abort {α : Type} (f : Finding) : Written α := .error (.error (.fatal f.text {}))

/-- A tree without name and decorations. -/
def plain (form : TreeForm) : TypeTree := .node none form []

/-- The tree of an unsigned 32-bit integer. -/
def word : TypeTree := plain (.scalar .uint32)

/-! ## Scalars, vectors, matrices and arrays -/

def ofScalar (options : Options) (rule : Layout.Rule) (expected : Option Scalar) (s : Scalar) :
    TypeTree :=
  plain (.scalar (s.stored options rule expected))

def vectorSize (count : Nat) : Written Spirv.VectorSize :=
  match Spirv.VectorSize.ofNat? count with
  | some size => .ok size
  | none => abort (.unsupportedVectorSize count)

def ofVector (options : Options) (rule : Layout.Rule) (expected : Option Scalar) (elem : Scalar)
    (count : Nat) : Written TypeTree :=
  if count = 1 then
    return ofScalar options rule expected elem
  else
    return plain (.vector (← vectorSize count) (elem.stored options rule expected))

def strideOf (options : Options) (rule : Layout.Rule) (ty : Ty) (o : Layout.Orientation) :
    Written (List TypeDecoration) :=
  if rule = .unlaid then
    return []
  else
    return [.arrayStride (← ofChecked (Layout.extentAt options rule ty o)).stride]

def ofMatrix (options : Options) (rule : Layout.Rule) (o : Layout.Orientation)
    (expected : Option Scalar) (elem : Scalar) (rows cols : Nat) : Written TypeTree := do
  if rows = 1 ∨ cols = 1 then
    ofVector options rule expected elem (← ofChecked (Word.mul rows cols))
  else
    let row ← ofVector options rule expected elem cols
    if elem.isFloat then
      return plain (.matrix row (← vectorSize rows))
    else
      return .node none (.array row rows)
        (← strideOf options rule (.matrix elem rows cols) o)

def ofArray (options : Options) (rule : Layout.Rule) (o : Layout.Orientation) (elem : Ty)
    (length : Option Nat) (base : TypeTree) : Written TypeTree := do
  let decorations ←
    if elem.isResourceArray then pure [] else strideOf options rule (.array elem length) o
  match length with
  | some n => return .node none (.array base n) decorations
  | none => return .node none (.runtimeArray base) decorations

/-! ## Structures -/

/-- Members with the names of parts and given types. -/
def members : List Field → List TypeTree → TreeMembers
  | part :: parts, tree :: trees =>
    .cons (if part.name.isEmpty then none else some part.name) tree (members parts trees)
  | _, _ => .nil

def layoutDecorations (options : Options) (rule : Layout.Rule) (parts : List Field) :
    Written (List TypeDecoration) :=
  if rule = .unlaid then
    return []
  else do
    let layout ← ofChecked do
      Layout.RecordLayout.of rule (← Layout.unplacedParts options rule parts)
    ofChecked (Layout.partDecorations options rule 0 parts layout.members)

def ofRecord (options : Options) (name : String) (parts : List Field) (types : List TypeTree)
    (rule : Layout.Rule) (role : BlockRole) : Written TypeTree := do
  let decorations ← layoutDecorations options rule parts
  return .node (some name) (.struct (members parts types))
    (decorations ++ role.decorations parts.length)

/-! ## Images -/

def describedTexel (elem : Ty) : Written (Option Texel) := do
  match elem.shape with
  | .scalar s => return some ⟨s, 1⟩
  | .vector s count => return some ⟨s, count⟩
  | .matrix s rows cols => return some ⟨s, ← ofChecked (Word.mul rows cols)⟩
  | .struct _ _ fields =>
    match ← ofChecked (Texel.joinFields none fields.toList) with
    | .ok texel => return texel
    | .error _ => return none
  | _ => return none

def texel (options : Options) (elem : Option Ty) : Written Texel := do
  match elem with
  | none => return .fallback
  | some elem =>
    match ← describedTexel elem with
    | none => return .fallback
    | some t =>
      if 4 < (← ofChecked (t.components options)) then return .fallback else return t

def imageType (options : Options) (name : String) (sample : Scalar) (dim : Spirv.ImageDim)
    (arrayed multisampled inStorage : Bool) (format : Spirv.ImageFormat) : TypeTree :=
  .node (some name) (.image (ofScalar options .unlaid none sample) dim arrayed multisampled
    (if inStorage then 2 else 1) format 2) []

def ofTexture (options : Options) (dim : TextureDim) (arrayed multisampled writable : Bool)
    (elem : Option Ty) : Written TypeTree := do
  let t ← texel options elem
  return imageType options
    ("type." ++ dim.typeName ++ ".image" ++ (if arrayed then ".array" else "")) t.scalar dim.image
    arrayed multisampled writable (if writable then t.format options else .unknown)

def ofBuffer (options : Options) (writable : Bool) (elem : Option Ty) : Written TypeTree := do
  let t ← texel options elem
  return imageType options "type.buffer.image" t.scalar .buffer false false writable
    (t.format options)

def ofSubpassInput (options : Options) (multisampled : Bool) (elem : Option Ty) :
    Written TypeTree := do
  let t ← texel options elem
  return imageType options "type.subpass.image" t.scalar .subpassData false multisampled true
    .unknown

def samplerType : TypeTree := .node (some "type.sampler") .sampler []

/-! ## Storage buffers -/

def blockOrAlias (block : TypeTree) (rule : Layout.Rule) : TypeTree :=
  if rule = .unlaid then plain (.pointer block .uniform) else block

def wrapArray (name : String) (array : TypeTree) (decorations : List TypeDecoration) : TypeTree :=
  .node (some name) (.struct (.cons none array .nil)) decorations

def ofStructured (options : Options) (access : StructuredAccess) (elem : Ty) (base : TypeTree)
    (rule : Layout.Rule) : Written TypeTree := do
  let inner := Emit.elementRule options rule
  let stride := (← ofChecked (Layout.extent options inner elem)).size
  let matrix ← ofChecked (Layout.matrixStride? options inner elem)
  let elemName := (elem.record?.map (·.name)).getD elem.text
  return blockOrAlias (wrapArray ("type." ++ (Resource.structured access).name ++ "." ++ elemName)
    (.node none (.runtimeArray base) [.arrayStride stride])
    (Layout.matrixDecorations 0 matrix ++ [.offset 0 0]
      ++ (if access = .read then [.nonWritable 0] else []) ++ [.bufferBlock])) rule

def ofByteAddress (kind : Resource) (writable : Bool) (rule : Layout.Rule) : TypeTree :=
  blockOrAlias (wrapArray ("type." ++ kind.name)
    (.node none (.runtimeArray word) [.arrayStride 4])
    ([.offset 0 0] ++ (if writable then [] else [.nonWritable 0]) ++ [.bufferBlock])) rule

def counterType : TypeTree :=
  .node (some "type.ACSBuffer.counter")
    (.struct (.cons (some "counter") (plain (.scalar .int32)) .nil)) [.offset 0 0, .bufferBlock]

/-! ## Types -/

mutual

/-- The tree of a type at a point with the given matrix orders. -/
def ofTy (options : Options) :
    Ty → Layout.Rule → Layout.Orientation → Option Scalar → Written TypeTree
  | .alias _ target, rule, o, expected => ofTy options target rule o expected
  | .oriented order target, rule, o, expected => ofTy options target rule (o.annotate order) expected
  | .void, _, _, _ => .ok (plain .void)
  | .scalar elem, rule, _, expected => .ok (ofScalar options rule expected elem)
  | .vector elem count, rule, _, expected => ofVector options rule expected elem count
  | .matrix elem rows cols, rule, o, expected => ofMatrix options rule o expected elem rows cols
  | .array elem length, rule, o, expected => do
    ofArray options rule o elem length (← ofTy options elem rule o.element expected)
  | .struct name base fields, rule, _, _ => do
    let inherited ← ofBase options base rule
    let own ← ofFields options fields rule
    ofRecord options name (Record.parts ⟨name, base, fields⟩) (inherited ++ own) rule .plain
  | .resource kind elem, rule, _, _ => ofResource options elem kind rule

/-- The tree of the base structure, if there is one. -/
def ofBase (options : Options) : OptionalTy → Layout.Rule → Written (List TypeTree)
  | .absent, _ => return []
  | .present ty, rule => return [← ofTy options ty rule {} none]

/-- The trees of the types of fields. -/
def ofFields (options : Options) : Fields → Layout.Rule → Written (List TypeTree)
  | .nil, _ => return []
  | .cons _ ty _ _ rest, rule => do
    let first ← ofTy options ty rule {} none
    return first :: (← ofFields options rest rule)

/-- The tree of a resource type with the given element. -/
def ofResource (options : Options) : OptionalTy → Resource → Layout.Rule → Written TypeTree
  | elem, .texture dim arrayed multisampled writable, _ =>
    ofTexture options dim arrayed multisampled writable elem.toOption
  | elem, .buffer writable, _ => ofBuffer options writable elem.toOption
  | elem, .subpassInput multisampled, _ => ofSubpassInput options multisampled elem.toOption
  | _, .sampler _, _ => .ok samplerType
  | _, .byteAddress writable, rule => .ok (ofByteAddress (.byteAddress writable) writable rule)
  | .absent, kind, _ => abort (.missingElement kind)
  | .present elem, .structured access, rule => do
    let base ← ofTy options elem (Emit.elementRule options rule) {} none
    ofStructured options access elem base rule
  | .present elem, .stream _, rule => ofTy options elem rule {} none
  | .present elem, .inputPatch points, _ | .present elem, .outputPatch points, _ => do
    return plain (.array (← ofTy options elem .unlaid {} none) points)
  | .present elem, kind, rule => ofContent options elem kind rule

/-- The tree of the block of a constant or texture buffer with the given content. -/
def ofContent (options : Options) : Ty → Resource → Layout.Rule → Written TypeTree
  | .alias _ target, kind, rule | .oriented _ target, kind, rule =>
    ofContent options target kind rule
  | .struct name base fields, kind, rule => do
    let inherited ← ofBase options base (contentRule options kind rule).1
    let own ← ofFields options fields (contentRule options kind rule).1
    ofRecord options ("type." ++ kind.name ++ "." ++ name) (Record.parts ⟨name, base, fields⟩)
      (inherited ++ own) (contentRule options kind rule).1 (contentRule options kind rule).2
  | _, _, _ => .error (.error .invalid)

end

/-- The tree that belongs to a key of the emitter's memory. -/
def ofKey (options : Options) (key : EmissionKey) : Written TypeTree :=
  ofTy options key.shape key.rule ⟨none, key.order⟩ none

/-! ## Only the order in force matters -/

section

variable {options : Options} {rule : Layout.Rule} {o o' : Layout.Orientation}

theorem strideOf_congr {ty : Ty}
    (h : Layout.extentAt options rule ty o = Layout.extentAt options rule ty o') :
    strideOf options rule ty o = strideOf options rule ty o' := by
  rw [strideOf, strideOf, h]

theorem extentAt_matrix_congr (h : o.order? = o'.order?) (elem : Scalar) (rows cols : Nat) :
    Layout.extentAt options rule (.matrix elem rows cols) o
      = Layout.extentAt options rule (.matrix elem rows cols) o' := by
  simp only [Layout.extentAt, Layout.Orientation.byRows, h]

theorem extentAt_array_congr (h : o.order? = o'.order?) (elem : Ty) (length : Option Nat) :
    Layout.extentAt options rule (.array elem length) o
      = Layout.extentAt options rule (.array elem length) o' := by
  simp only [Layout.extentAt, Layout.Orientation.element, h]

/-- Without wrappers a tree depends on the orders seen only through the one in force, so it may
be kept under a key. -/
theorem ofTy_congr {ty : Ty} (halias : ∀ name target, ty ≠ .alias name target)
    (horiented : ∀ order target, ty ≠ .oriented order target) (h : o.order? = o'.order?)
    (expected : Option Scalar) :
    ofTy options ty rule o expected = ofTy options ty rule o' expected := by
  cases ty with
  | void | scalar | vector | struct | resource => simp only [ofTy]
  | matrix elem rows cols =>
    simp only [ofTy, ofMatrix, strideOf_congr (extentAt_matrix_congr h elem rows cols)]
  | array elem length =>
    simp only [ofTy, ofArray, Layout.Orientation.element, h,
      strideOf_congr (extentAt_array_congr h elem length)]
  | «alias» name target => exact absurd rfl (halias name target)
  | oriented order target => exact absurd rfl (horiented order target)

end

end Written

end ShaderLowering
