import ShaderLowering.Emission.Numeric

/-!
# Emission of images and samplers

Textures, typed buffers and subpass inputs become image types.  An image element has to fit into
one register of four 32-bit components; one that does not is reported and replaced by four
single-precision numbers.
-/

namespace ShaderLowering

open Source (Ty Scalar Resource TextureDim Record Field)
open Spirv (TypeId ImageDim ImageFormat)

/-- The element of an image: a scalar and the number of its components. -/
structure Texel where
  scalar : Scalar
  lanes : Nat
deriving DecidableEq, Repr, Inhabited

namespace Texel

/-- The element of an image without a usable one. -/
def fallback : Texel := ⟨.single, 4⟩

/-- The element that a scalar or vector type describes. -/
def ofVector? (ty : Ty) : Option Texel :=
  match ty.shape with
  | .scalar s => some ⟨s, 1⟩
  | .vector elem count => some ⟨elem, count⟩
  | _ => none

/-- Joins the fields of a structure into one element, given the one joined so far. -/
def joinFields :
    Option Texel → List Field → Checked (Except (Finding × Source.Position) (Option Texel))
  | texel, [] => .ok (.ok texel)
  | texel, f :: rest =>
    match ofVector? f.ty, texel with
    | none, _ => .ok (.error (.unsupportedElementField, f.position))
    | some t, none => joinFields (some t) rest
    | some t, some sum =>
      if sum.scalar.sharesStorage t.scalar then do
        joinFields (some ⟨sum.scalar, ← Word.add sum.lanes t.lanes⟩) rest
      else
        .ok (.error (.mixedElementFields, f.position))

/-- The registers' worth of 32-bit components. -/
def components (options : Options) (t : Texel) : Checked Nat :=
  Word.mul t.lanes (if t.scalar.bits options = 64 then 2 else 1)

/-- The storage format for a scalar with one, two or more components. -/
def format (options : Options) (t : Texel) : ImageFormat :=
  if t.scalar = .bool ∨ t.scalar.bits options ≠ 32 then .unknown
  else if t.scalar.isFloat then
    if t.lanes = 1 then .r32f else if t.lanes = 2 then .rg32f else .rgba32f
  else if t.scalar.isSigned then
    if t.lanes = 1 then .r32i else if t.lanes = 2 then .rg32i else .rgba32i
  else
    if t.lanes = 1 then .r32ui else if t.lanes = 2 then .rg32ui else .rgba32ui

end Texel

namespace Source.TextureDim

/-- The dimensionality of the image of a texture. -/
def image : TextureDim → ImageDim
  | one => .one
  | two => .two
  | three => .three
  | cube => .cube

/-- The dimensionality in the name of an image type. -/
def typeName : TextureDim → String
  | one => "1d"
  | two => "2d"
  | three => "3d"
  | cube => "cube"

/-- The capability that a texture of this dimensionality asks for. -/
def capability? (dim : TextureDim) (arrayed writable : Bool) : Option Spirv.Capability :=
  match dim, arrayed, writable with
  | one, _, false => some .sampled1D
  | one, _, true => some .image1D
  | cube, true, false => some .sampledCubeArray
  | cube, true, true => some .imageCubeArray
  | _, _, _ => none

end Source.TextureDim

namespace Emit

/-- The element that a type describes, before its width is looked at; a type that describes none
is reported. -/
def describedTexel (kind : Resource) (elem : Ty) : Emit (Option Texel) := do
  match elem.shape with
  | .scalar s => return some ⟨s, 1⟩
  | .vector s count => return some ⟨s, count⟩
  | .matrix s rows cols => return some ⟨s, ← .ofChecked (Word.mul rows cols)⟩
  | .struct _ _ fields =>
    match ← .ofChecked (Texel.joinFields none fields.toList) with
    | .ok texel => return texel
    | .error (finding, position) =>
      report finding position
      return none
  | _ =>
    reportHere (.unsupportedElement kind elem)
    return none

/-- The element of an image. -/
def texel (kind : Resource) (elem : Option Ty) : Emit Texel := do
  match elem with
  | none => return .fallback
  | some elem =>
    match ← describedTexel kind elem with
    | none => return .fallback
    | some t =>
      if 4 < (← .ofChecked (t.components (← get).options)) then
        reportHere (.elementTooWide elem)
        return .fallback
      else
        return t

/-- The type of a sample. -/
def sampledType (s : Scalar) : Emit TypeId :=
  remembered ⟨.scalar s, .unlaid, none⟩ none (ofScalar .unlaid none s)

/-- The storage format of an image.  A two-channel format of a writable image needs a
capability. -/
def imageFormat (kind : Resource) (writable : Bool) (t : Texel) : Emit ImageFormat := do
  let format := t.format (← get).options
  if format = .unknown then
    reportHere (.noImageFormat t.scalar kind)
  if writable && format.isTwoChannel then
    require .storageImageExtendedFormats
  return format

/-- An image type. -/
def imageType (name : String) (sampled : TypeId) (dim : ImageDim) (arrayed multisampled : Bool)
    (inStorage : Bool) (format : ImageFormat) : Emit TypeId :=
  insertType ⟨some name, .image
    { sampledType := sampled, dim, arrayed, multisampled, sampled := if inStorage then 2 else 1,
      format, depth := 2 }, []⟩

/-- The type of a texture. -/
def ofTexture (kind : Resource) (dim : TextureDim) (arrayed multisampled writable : Bool)
    (elem : Option Ty) : Emit TypeId := do
  let t ← texel kind elem
  let sampled ← sampledType t.scalar
  let format ← if writable then imageFormat kind writable t else pure .unknown
  declare (dim.capability? arrayed writable) none
  imageType ("type." ++ dim.typeName ++ ".image" ++ (if arrayed then ".array" else "")) sampled
    dim.image arrayed multisampled writable format

/-- The type of a typed buffer. -/
def ofBuffer (kind : Resource) (writable : Bool) (elem : Option Ty) : Emit TypeId := do
  if writable && (elem.bind (·.record?)).isSome then
    reportHere .writableBufferOfStruct
  let t ← texel kind elem
  let sampled ← sampledType t.scalar
  let format ← imageFormat kind writable t
  require (if writable then .imageBuffer else .sampledBuffer)
  imageType "type.buffer.image" sampled .buffer false false writable format

/-- The type of a subpass input. -/
def ofSubpassInput (kind : Resource) (multisampled : Bool) (elem : Option Ty) : Emit TypeId := do
  let t ← texel kind elem
  let sampled ← sampledType t.scalar
  require .inputAttachment
  imageType "type.subpass.image" sampled .subpassData false multisampled true .unknown

/-- The type of a sampler. -/
def samplerType : Emit TypeId := insertType ⟨some "type.sampler", .sampler, []⟩

end Emit

end ShaderLowering
