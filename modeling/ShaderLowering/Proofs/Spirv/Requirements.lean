import ShaderLowering.Proofs.Spirv.Growth

/-!
# Requirements of types

A type may be used only in a module that declares what it asks for: a scalar of two or eight bytes
asks for the capability of its width, and so does a vector of it; an image asks for what its
dimensionality and its format need.  `Module.Covered` says that the module declares all that the
entries of its type table ask for.  Requirements are never taken back, so one more entry keeps this
as soon as what it asks for was declared before it.
-/

namespace ShaderLowering.Spirv

/-- The capability that a scalar asks for by its width.  Four bytes are always there, and a truth
value has no width of its own. -/
def Scalar.capability? (s : Scalar) : Option Capability :=
  match s.kind, s.width with
  | .float, 2 => some .float16
  | .float, 8 => some .float64
  | .signed, 2 | .unsigned, 2 => some .int16
  | .signed, 8 | .unsigned, 8 => some .int64
  | _, _ => none

/-- The capability that an image asks for by its dimensionality, as a sampled or a storage image. -/
def ImageDim.capability? (dim : ImageDim) (arrayed inStorage : Bool) : Option Capability :=
  match dim, arrayed, inStorage with
  | .one, _, false => some .sampled1D
  | .one, _, true => some .image1D
  | .cube, true, false => some .sampledCubeArray
  | .cube, true, true => some .imageCubeArray
  | .buffer, _, false => some .sampledBuffer
  | .buffer, _, true => some .imageBuffer
  | .subpassData, _, _ => some .inputAttachment
  | _, _, _ => none

namespace Image

/-- Whether the image is a storage image. -/
def inStorage (i : Image) : Bool := i.sampled = 2

/-- The capabilities that an image asks for.  A format of two channels is an extended one where it
is the format of a storage image. -/
def capabilities (i : Image) : List Capability :=
  (i.dim.capability? i.arrayed i.inStorage).toList
    ++ if i.inStorage && i.format.isTwoChannel then [.storageImageExtendedFormats] else []

end Image

/-- The capabilities that a type of a given shape asks for by itself, apart from its parts. -/
def Shape.capabilities : Shape → List Capability
  | .scalar s | .vector _ s => s.capability?.toList
  | .image i => i.capabilities
  | _ => []

namespace Module

/-- The module declares the capabilities that its types ask for. -/
def Covered (m : Module) : Prop := ∀ t ∈ m.types.entries, t.shape.capabilities ⊆ m.capabilities

variable {m m' : Module}

theorem Covered.congr (hm : m.Covered) (htypes : m'.types = m.types)
    (hcapabilities : m.capabilities ⊆ m'.capabilities) : m'.Covered := fun t ht =>
  List.Subset.trans (hm t (htypes ▸ ht)) hcapabilities

theorem covered_insertType (hm : m.Covered) {t : TypeEntry}
    (ht : t.shape.capabilities ⊆ m.capabilities) : (m.insertType t).2.Covered := by
  intro u hu
  rcases Interned.mem_insert hu with rfl | hu
  · exact ht
  · exact hm u hu

theorem covered_constant (hm : m.Covered) (value : Nat) : (m.constant value).2.Covered :=
  covered_insertType hm (List.nil_subset _)

theorem mem_require (m : Module) (c : Capability) : c ∈ (m.require c).capabilities := by
  rw [require]
  split
  · assumption
  · exact List.mem_append_right _ (List.mem_singleton_self c)

theorem mem_enable (m : Module) (x : Extension) : x ∈ (m.enable x).extensions := by
  rw [enable]
  split
  · assumption
  · exact List.mem_append_right _ (List.mem_singleton_self x)

theorem covered_require (hm : m.Covered) (c : Capability) : (m.require c).Covered :=
  hm.congr (m.types_require c) (m.grows_require c).capabilities

theorem covered_enable (hm : m.Covered) (x : Extension) : (m.enable x).Covered :=
  hm.congr (m.types_enable x) (m.grows_enable x).capabilities

end Module

end ShaderLowering.Spirv
