import ShaderLowering.Proofs.Layout.Alignment
import ShaderLowering.Proofs.Layout.Parts

/-!
# Parts in their places

A part of a type stands at an offset from the start of the whole: the offsets of the members and
the strides of the array elements on the way to it, added up.  `PartAt` follows that way downwards,
with the matrix orders that hold along it.

What holds between a whole and its direct parts is said once, for a member (`MemberAt.natural`,
`MemberAt.alignment_dvd`) and for an array element (`Extent.alignment_ofArray`).  The alignment of
every part divides that of the whole by induction; so does, under the rules that place each member
at its own alignment, the alignment of every part its offset (`PartAt.alignment_dvd_offset`).
-/

namespace ShaderLowering.Layout

open Source (Ty OptionalTy Fields Field Record)
open Spirv (PartStep)

variable {options : Options} {rule : Rule}

/-! ## Members -/

/-- The places of the parts of a structure. -/
def partOffsets (options : Options) (rule : Rule) (parts : List Field) : Checked (List Nat) := do
  let layout ← RecordLayout.of rule (← unplacedParts options rule parts)
  return layout.members.map (·.offset)

/-- A member stands at an offset from the start of its structure. -/
def MemberAt (options : Options) (rule : Rule) (record : Record) (offset : Nat)
    (member : Field) : Prop :=
  ∃ (offsets : List Nat) (i : Nat), partOffsets options rule record.parts = .ok offsets ∧
    record.parts[i]? = some member ∧ offsets[i]? = some offset

theorem getElem?_unplacedParts {parts : List Field} {ms : List Unplaced} {i : Nat} {part : Field}
    (h : unplacedParts options rule parts = .ok ms) (hi : parts[i]? = some part) :
    ∃ x, extent options rule part.ty = .ok x ∧
      ms[i]? = some (.ofTy options part.name part.ty part.attributes part.position x) := by
  induction parts generalizing ms i with
  | nil => cases hi
  | cons first parts ih =>
    rw [unplacedParts, List.mapM_cons] at h
    obtain ⟨m, hm, h⟩ := bind_eq_ok_iff.1 h
    obtain ⟨rest, hrest, h⟩ := bind_eq_ok_iff.1 h
    obtain ⟨x, hx, hm⟩ := bind_eq_ok_iff.1 hm
    cases h
    cases hm
    cases i with
    | zero =>
      cases hi
      exact ⟨x, hx, rfl⟩
    | succ i =>
      obtain ⟨y, hy, hm⟩ := ih hrest hi
      exact ⟨y, hy, hm⟩

theorem length_of_unplacedParts {parts : List Field} {ms : List Unplaced}
    (h : unplacedParts options rule parts = .ok ms) : ms.length = parts.length := by
  induction parts generalizing ms with
  | nil =>
    cases h
    rfl
  | cons part parts ih =>
    obtain ⟨m, rest, rfl, -, hrest⟩ := unplacedParts_cons h
    rw [List.length_cons, List.length_cons, ih hrest]

theorem getElem?_placeFrom {ms : List Unplaced} {nextFree stop i : Nat} {placed : List Placed}
    {p : Placed} (h : placeFrom rule nextFree ms = .ok (placed, stop))
    (hi : placed[i]? = some p) : ∃ m next, ms[i]? = some m ∧ place rule next m = .ok p := by
  induction ms generalizing nextFree placed i with
  | nil =>
    cases h
    cases hi
  | cons m rest ih =>
    rw [placeFrom] at h
    obtain ⟨first, hfirst, h⟩ := bind_eq_ok_iff.1 h
    obtain ⟨next, -, h⟩ := bind_eq_ok_iff.1 h
    obtain ⟨⟨others, stop'⟩, hothers, h⟩ := bind_eq_ok_iff.1 h
    cases h
    cases i with
    | zero =>
      cases hi
      exact ⟨m, nextFree, rfl, hfirst⟩
    | succ i => exact ih hothers hi

theorem explicitOffset_of_natural {attributes : Source.Attributes}
    (h : attributes.asksForOffset = false) : explicitOffset attributes = .ok none := by
  simp only [Source.Attributes.asksForOffset, Bool.or_eq_false_iff,
    Option.isSome_eq_false_iff, Option.isNone_iff_eq_none] at h
  rw [explicitOffset, h.1, h.2]

/-- A member that asks for no other place is put at the first one that the rule allows, where it
overlaps nothing. -/
theorem natural_of_place {m : Unplaced} {nextFree : Nat} {p : Placed}
    (hm : m.attributes.asksForOffset = false) (h : place rule nextFree m = .ok p) :
    naturalOffset rule m nextFree = .ok p.offset ∧ p.overlap = none := by
  obtain ⟨offset, hoffset, h⟩ := bind_eq_ok_iff.1 h
  obtain ⟨explicit, hexplicit, h⟩ := bind_eq_ok_iff.1 h
  rw [explicitOffset_of_natural hm] at hexplicit
  cases hexplicit
  cases h
  exact ⟨hoffset, rfl⟩

theorem alignment_dvd_naturalOffset {m : Unplaced} {nextFree offset : Nat}
    (halignment : 0 < m.extent.alignment) (hm : m.component = none ∨ rule.isRelaxed = false)
    (h : naturalOffset rule m nextFree = .ok offset) : m.extent.alignment ∣ offset := by
  have hround : Word.roundUp nextFree m.extent.alignment = .ok offset := by
    rw [naturalOffset] at h
    split at h
    · rename_i component hcomponent
      rcases hm with hm | hm
      · rw [hm] at hcomponent
        cases hcomponent
      · rw [hm] at h
        exact h
    · exact h
  exact ((Word.roundUp_eq_ok_iff halignment).1 hround).1

namespace MemberAt

variable {record : Record} {offset : Nat} {member : Field}

theorem mem (h : MemberAt options rule record offset member) : member ∈ record.parts := by
  obtain ⟨offsets, i, -, hi, -⟩ := h
  exact List.mem_of_getElem? hi

/-- A member has an extent, and stands at the first place that the rule allows for it behind those
before it. -/
theorem natural (h : MemberAt options rule record offset member)
    (hmember : member.attributes.asksForOffset = false) :
    ∃ x nextFree, extent options rule member.ty = .ok x ∧
      naturalOffset rule
        (.ofTy options member.name member.ty member.attributes member.position x) nextFree
        = .ok offset := by
  obtain ⟨offsets, i, hoffsets, hi, hoffset⟩ := h
  obtain ⟨ms, hms, hoffsets⟩ := bind_eq_ok_iff.1 hoffsets
  obtain ⟨layout, hlayout, hoffsets⟩ := bind_eq_ok_iff.1 hoffsets
  cases hoffsets
  obtain ⟨placed, hplaced, rfl⟩ : ∃ p, layout.members[i]? = some p ∧ p.offset = offset := by
    simpa using hoffset
  obtain ⟨stop, hplaces, -⟩ := RecordLayout.of_spec hlayout
  obtain ⟨m, next, hm, hplace⟩ := getElem?_placeFrom hplaces hplaced
  obtain ⟨x, hx, hm'⟩ := getElem?_unplacedParts hms hi
  rw [hm] at hm'
  cases hm'
  exact ⟨x, next, hx, (natural_of_place hmember hplace).1⟩

end MemberAt

/-! ## Structures of data -/

variable {name : String} {base : OptionalTy} {fields : Fields} {o : Orientation} {x : Extent}

/-- A structure that has an extent has a layout of its members. -/
theorem exists_layout_of_struct (h : extentAt options rule (.struct name base fields) o = .ok x) :
    ∃ ms layout, unplacedParts options rule (Record.parts ⟨name, base, fields⟩) = .ok ms ∧
      RecordLayout.of rule ms = .ok layout ∧ layout.extent = x := by
  rw [extentAt] at h
  obtain ⟨inherited, hinherited, h⟩ := bind_eq_ok_iff.1 h
  obtain ⟨own, hown, h⟩ := bind_eq_ok_iff.1 h
  obtain ⟨layout, hlayout, h⟩ := bind_eq_ok_iff.1 h
  cases h
  refine ⟨inherited ++ own, layout, ?_, hlayout, rfl⟩
  rw [unplacedParts_parts, unplaced, hinherited, hown]
  rfl

/-- Every member comes from a part, whose extent and annotations it has. -/
theorem exists_part_of_mem_unplacedParts {parts : List Field} {ms : List Unplaced}
    (h : unplacedParts options rule parts = .ok ms) :
    ∀ m ∈ ms, ∃ f ∈ parts, extent options rule f.ty = .ok m.extent ∧
      m.attributes = f.attributes := by
  intro m hm
  obtain ⟨i, hi⟩ := List.mem_iff_getElem?.1 hm
  have hlt : i < parts.length := length_of_unplacedParts h ▸ (List.getElem?_eq_some_iff.1 hi).1
  obtain ⟨x, hx, hm'⟩ := getElem?_unplacedParts h (List.getElem?_eq_getElem hlt)
  rw [hi] at hm'
  cases hm'
  exact ⟨parts[i], List.getElem_mem hlt, hx, rfl⟩

theorem isAlignment_unplacedParts {leaf : Ty → Bool} (hleaf : AlignsLeaves options rule leaf)
    {parts : List Field} {ms : List Unplaced} (hparts : ∀ f ∈ parts, f.ty.isDataOf leaf = true)
    (h : unplacedParts options rule parts = .ok ms) :
    ∀ m ∈ ms, IsAlignment m.extent.alignment := by
  intro m hm
  obtain ⟨f, hf, hextent, -⟩ := exists_part_of_mem_unplacedParts h m hm
  exact isAlignment_of_alignsLeaves hleaf f.ty {} (hparts f hf) hextent

namespace MemberAt

variable {leaf : Ty → Bool} {offset : Nat} {member : Field} {y : Extent}

/-- The members of a structure in natural places are data, and none asks for another place. -/
theorem isDataOf (h : MemberAt options rule ⟨name, base, fields⟩ offset member)
    (hdata : (Ty.struct name base fields).isDataOf leaf = true) :
    member.ty.isDataOf leaf = true ∧ member.attributes.asksForOffset = false :=
  Source.forall_mem_parts_of_isDataOf hdata member h.mem

theorem isNatural (h : MemberAt options rule ⟨name, base, fields⟩ offset member)
    (hdata : (Ty.struct name base fields).isNaturalData = true) :
    member.ty.isNaturalData = true ∧ member.attributes.asksForOffset = false := by
  rw [← Ty.isDataOf_isNaturalData] at hdata ⊢
  exact h.isDataOf hdata

/-- A structure is aligned to each of its members, and to sixteen where the rule asks for it. -/
theorem alignment_dvd_of_alignsLeaves (hleaf : AlignsLeaves options rule leaf)
    (hmember : MemberAt options rule ⟨name, base, fields⟩ offset member)
    (hdata : (Ty.struct name base fields).isDataOf leaf = true)
    (h : extentAt options rule (.struct name base fields) o = .ok x)
    (hy : extent options rule member.ty = .ok y) :
    y.alignment ∣ x.alignment ∧ (rule.roundsAggregates = true → 16 ∣ x.alignment) := by
  obtain ⟨ms, layout, hms, hlayout, rfl⟩ := exists_layout_of_struct h
  have hparts := Source.forall_mem_parts_of_isDataOf hdata
  obtain ⟨-, hdvd, hsixteen⟩ := RecordLayout.alignment_of
    (isAlignment_unplacedParts hleaf (fun f hf => (hparts f hf).1) hms) hlayout
  obtain ⟨i, hi⟩ := List.mem_iff_getElem?.1 hmember.mem
  obtain ⟨z, hz, hm⟩ := getElem?_unplacedParts hms hi
  rw [hy] at hz
  cases hz
  have hmem := List.mem_of_getElem? hm
  exact ⟨hdvd _ hmem, fun hrounds => hsixteen hrounds (List.ne_nil_of_mem hmem)⟩

theorem alignment_dvd (hmember : MemberAt options rule ⟨name, base, fields⟩ offset member)
    (hdata : (Ty.struct name base fields).isNaturalData = true)
    (h : extentAt options rule (.struct name base fields) o = .ok x)
    (hy : extent options rule member.ty = .ok y) :
    y.alignment ∣ x.alignment ∧ (rule.roundsAggregates = true → 16 ∣ x.alignment) :=
  hmember.alignment_dvd_of_alignsLeaves alignsLeaves_isNaturalData
    ((Ty.isDataOf_isNaturalData _).trans hdata) h hy

end MemberAt

/-! ## Parts -/

/-- A part stands at an offset from the start of a whole, each with the matrix orders that are
known at its place. -/
inductive PartAt (options : Options) (rule : Rule) :
    Ty → Orientation → Nat → Ty → Orientation → Prop
  | refl (ty : Ty) (o : Orientation) : PartAt options rule ty o 0 ty o
  | aliased {name : String} {target part : Ty} {o o' : Orientation} {k : Nat} :
    PartAt options rule target o k part o' → PartAt options rule (.alias name target) o k part o'
  | oriented {order : Source.MatrixOrder} {target part : Ty} {o o' : Orientation} {k : Nat} :
    PartAt options rule target (o.annotate order) k part o' →
    PartAt options rule (.oriented order target) o k part o'
  /-- An array of open length may have any number of elements. -/
  | element {elem part : Ty} {length : Option Nat} {o o' : Orientation} {k i : Nat} {x : Extent} :
    extentAt options rule (.array elem length) o = .ok x → (∀ n, length = some n → i < n) →
    PartAt options rule elem o.element k part o' →
    PartAt options rule (.array elem length) o (i * x.stride + k) part o'
  | member {name : String} {base : OptionalTy} {fields : Fields} {member : Field} {part : Ty}
    {o o' : Orientation} {r k : Nat} :
    MemberAt options rule ⟨name, base, fields⟩ r member →
    PartAt options rule member.ty {} k part o' →
    PartAt options rule (.struct name base fields) o (r + k) part o'

namespace PartAt

variable {whole part : Ty} {o' : Orientation} {k : Nat}

/-- A part of a part is a part. -/
theorem trans {inner : Ty} {o'' : Orientation} {j : Nat}
    (h : PartAt options rule whole o k part o')
    (hinner : PartAt options rule part o' j inner o'') :
    PartAt options rule whole o (k + j) inner o'' := by
  induction h with
  | refl =>
    rw [Nat.zero_add]
    exact hinner
  | aliased _ ih => exact .aliased (ih hinner)
  | oriented _ ih => exact .oriented (ih hinner)
  | element hx hi _ ih =>
    rw [Nat.add_assoc]
    exact .element hx hi (ih hinner)
  | member hmember _ ih =>
    rw [Nat.add_assoc]
    exact .member hmember (ih hinner)

/-- The parts of data are data. -/
theorem isDataOf {leaf : Ty → Bool} (h : PartAt options rule whole o k part o')
    (hdata : whole.isDataOf leaf = true) : part.isDataOf leaf = true := by
  induction h with
  | refl => exact hdata
  | aliased _ ih => exact ih hdata
  | oriented _ ih => exact ih hdata
  | element _ _ _ ih => exact ih hdata
  | member hmember _ ih => exact ih (hmember.isDataOf hdata).1

theorem isNaturalData (h : PartAt options rule whole o k part o')
    (hdata : whole.isNaturalData = true) : part.isNaturalData = true := by
  rw [← Ty.isDataOf_isNaturalData] at hdata ⊢
  exact h.isDataOf hdata

/-- The parts of data that has an extent have one. -/
theorem exists_extent (h : PartAt options rule whole o k part o')
    (hdata : whole.isNaturalData = true) (hx : extentAt options rule whole o = .ok x) :
    ∃ y, extentAt options rule part o' = .ok y ∧ y.alignment ∣ x.alignment := by
  induction h generalizing x with
  | refl => exact ⟨x, hx, Nat.dvd_refl _⟩
  | aliased _ ih => exact ih hdata hx
  | oriented _ ih => exact ih hdata hx
  | @element elem _ _ o _ _ _ _ _ _ _ ih =>
    rw [extentAt] at hx
    obtain ⟨e, he, hx⟩ := bind_eq_ok_iff.1 hx
    obtain ⟨y, hy, hdvd⟩ := ih hdata he
    have hwhole := Extent.alignment_ofArray (isAlignment_extentAt elem o.element hdata he) hx
    exact ⟨y, hy, Nat.dvd_trans hdvd hwhole.2.1⟩
  | member hmember _ ih =>
    have hnatural := hmember.isNatural hdata
    obtain ⟨e, -, he, -⟩ := hmember.natural hnatural.2
    obtain ⟨y, hy, hdvd⟩ := ih hnatural.1 he
    exact ⟨y, hy, Nat.dvd_trans hdvd (hmember.alignment_dvd hdata hx he).1⟩

theorem alignment_dvd {y : Extent} (h : PartAt options rule whole o k part o')
    (hdata : whole.isNaturalData = true) (hx : extentAt options rule whole o = .ok x)
    (hy : extentAt options rule part o' = .ok y) : y.alignment ∣ x.alignment := by
  obtain ⟨z, hz, hdvd⟩ := h.exists_extent hdata hx
  rw [hy] at hz
  cases hz
  exact hdvd

/-- Unless it is packed, every element of an array starts at a multiple of the alignment of each
part of an element. -/
theorem alignment_dvd_start {elem : Ty} {length : Option Nat} {a y : Extent}
    (h : PartAt options rule elem o.element k part o') (htight : rule.isTight = false)
    (hdata : elem.isNaturalData = true) (ha : extentAt options rule (.array elem length) o = .ok a)
    (hy : extentAt options rule part o' = .ok y) (i : Nat) : y.alignment ∣ i * a.stride := by
  rw [extentAt] at ha
  obtain ⟨e, he, ha⟩ := bind_eq_ok_iff.1 ha
  obtain ⟨-, helement, -, hpadded⟩ :=
    Extent.alignment_ofArray (isAlignment_extentAt elem o.element hdata he) ha
  have hstride := Nat.dvd_trans helement (hpadded htight).1
  exact Nat.dvd_mul_left_of_dvd (Nat.dvd_trans (h.alignment_dvd hdata he hy) hstride) i

/-- Where each member is placed at its own alignment and no array is packed, every part stands at
its own alignment from the start of the whole. -/
theorem alignment_dvd_offset (h : PartAt options rule whole o k part o')
    (hrelaxed : rule.isRelaxed = false) (htight : rule.isTight = false)
    (hdata : whole.isNaturalData = true) (hx : extentAt options rule whole o = .ok x) :
    ∃ y, extentAt options rule part o' = .ok y ∧ y.alignment ∣ k := by
  induction h generalizing x with
  | refl => exact ⟨x, hx, Nat.dvd_zero _⟩
  | aliased _ ih => exact ih hdata hx
  | oriented _ ih => exact ih hdata hx
  | element harray _ hpart ih =>
    rw [extentAt] at hx
    obtain ⟨e, he, -⟩ := bind_eq_ok_iff.1 hx
    obtain ⟨y, hy, hk⟩ := ih hdata he
    exact ⟨y, hy, Nat.dvd_add (hpart.alignment_dvd_start htight hdata harray hy _) hk⟩
  | member hmember hpart ih =>
    have hnatural := hmember.isNatural hdata
    obtain ⟨e, nextFree, he, hoffset⟩ := hmember.natural hnatural.2
    obtain ⟨y, hy, hk⟩ := ih hnatural.1 he
    have hstart := alignment_dvd_naturalOffset (isAlignment_extentAt _ _ hnatural.1 he).pos
      (.inr hrelaxed) hoffset
    have hdvd := hpart.alignment_dvd hnatural.1 he hy
    exact ⟨y, hy, Nat.dvd_add (Nat.dvd_trans hdvd hstart) hk⟩

end PartAt

/-! ## Natural alignment -/

mutual

/-- At the end of every path into data that has an extent is data that has an extent. -/
theorem exists_extent_of_part? : (ty : Ty) → (o : Orientation) → (path : List PartStep) →
    {part : Ty} → {o' : Orientation} → {x : Extent} → ty.isNaturalData = true →
    ty.part? o path = some (part, o') → extentAt options rule ty o = .ok x →
    part.isNaturalData = true ∧ ∃ y, extentAt options rule part o' = .ok y
  | .alias _ target, o, path, _, _, _, hdata, hpart, hx => by
    rw [Ty.part?] at hpart
    exact exists_extent_of_part? target o path hdata hpart hx
  | .oriented order target, o, path, _, _, _, hdata, hpart, hx => by
    rw [Ty.part?] at hpart
    exact exists_extent_of_part? target (o.annotate order) path hdata hpart hx
  | .array elem _, o, path, _, _, x, hdata, hpart, hx => by
    rcases path with _ | ⟨_ | i, path⟩ <;> simp only [Ty.part?, reduceCtorEq] at hpart
    · cases hpart
      exact ⟨hdata, x, hx⟩
    · rw [extentAt] at hx
      obtain ⟨e, he, -⟩ := bind_eq_ok_iff.1 hx
      exact exists_extent_of_part? elem o.element path hdata hpart he
  | .struct _ base fields, _, path, _, _, x, hdata, hpart, hx => by
    have hparts := hdata
    rw [Ty.isNaturalData, Bool.and_eq_true] at hparts
    rcases path with _ | ⟨_ | i, path⟩ <;> simp only [Ty.part?, reduceCtorEq] at hpart
    · cases hpart
      exact ⟨hdata, x, hx⟩
    · rw [extentAt] at hx
      obtain ⟨inherited, hinherited, hx⟩ := bind_eq_ok_iff.1 hx
      obtain ⟨own, hown, -⟩ := bind_eq_ok_iff.1 hx
      split at hpart
      · exact exists_extent_of_base base path hparts.1 hpart hinherited
      · exact exists_extent_of_fields fields _ path hparts.2 hpart hown
  | .void, _, _, _, _, _, hdata, _, _ | .resource _ _, _, _, _, _, _, hdata, _, _ => nomatch hdata
  | .scalar _, _, path, _, _, x, hdata, hpart, hx | .vector _ _, _, path, _, _, x, hdata, hpart, hx
  | .matrix _ _ _, _, path, _, _, x, hdata, hpart, hx => by
    rcases path with _ | ⟨step, path⟩ <;> simp only [Ty.part?, reduceCtorEq] at hpart
    cases hpart
    exact ⟨hdata, x, hx⟩

theorem exists_extent_of_base : (base : OptionalTy) → (path : List PartStep) →
    {part : Ty} → {o' : Orientation} → {ms : List Unplaced} → base.isNaturalData = true →
    base.part? path = some (part, o') → unplacedBase options rule base = .ok ms →
    part.isNaturalData = true ∧ ∃ y, extentAt options rule part o' = .ok y
  | .present ty, path, _, _, _, hdata, hpart, hms => by
    rw [unplacedBase] at hms
    obtain ⟨x, hx, -⟩ := bind_eq_ok_iff.1 hms
    exact exists_extent_of_part? ty {} path hdata hpart hx

theorem exists_extent_of_fields : (fields : Fields) → (i : Nat) → (path : List PartStep) →
    {part : Ty} → {o' : Orientation} → {ms : List Unplaced} → fields.areNaturalData = true →
    fields.part? i path = some (part, o') → unplacedFields options rule fields = .ok ms →
    part.isNaturalData = true ∧ ∃ y, extentAt options rule part o' = .ok y
  | .cons _ ty _ _ rest, i, path, _, _, _, hdata, hpart, hms => by
    simp only [Fields.areNaturalData, Bool.and_eq_true] at hdata
    rw [unplacedFields] at hms
    obtain ⟨x, hx, hms⟩ := bind_eq_ok_iff.1 hms
    obtain ⟨others, hothers, -⟩ := bind_eq_ok_iff.1 hms
    cases i with
    | zero => exact exists_extent_of_part? ty {} path hdata.1.1 hpart hx
    | succ i => exact exists_extent_of_fields rest i path hdata.2 hpart hothers

end

/-- Unless its elements are packed, an array of data has a stride that keeps every element at the
alignment of the array, with room for it. -/
theorem alignment_dvd_stride {elem : Ty} {length : Option Nat} {o : Orientation} {x : Extent}
    (htight : rule.isTight = false) (hdata : (Ty.array elem length).isNaturalData = true)
    (hx : extentAt options rule (.array elem length) o = .ok x) :
    ∃ e, extentAt options rule elem o.element = .ok e ∧ x.alignment ∣ x.stride ∧
      e.size ≤ x.stride := by
  rw [extentAt] at hx
  obtain ⟨e, he, hx⟩ := bind_eq_ok_iff.1 hx
  obtain ⟨-, -, -, hpadded⟩ :=
    Extent.alignment_ofArray (isAlignment_extentAt elem o.element hdata he) hx
  exact ⟨e, he, hpadded htight⟩

/-- **Under the standard rules data is naturally aligned.**  Its alignment is a power of two; the
stride of every array in it is a multiple of the alignment of the array, with room for an element;
and every part of it, so each scalar, vector and matrix, stands at a multiple of its own alignment,
a power of two as well. -/
theorem naturally_aligned {ty : Ty} {x : Extent} (hrule : rule = .std140 ∨ rule = .std430)
    (hdata : ty.isNaturalData = true) (hx : extent options rule ty = .ok x) :
    x.alignment.isPowerOfTwo ∧
      (∀ path elem length o, ty.part? {} path = some (.array elem length, o) →
        ∃ a e, extentAt options rule (.array elem length) o = .ok a ∧
          extentAt options rule elem o.element = .ok e ∧
          a.alignment ∣ a.stride ∧ e.size ≤ a.stride) ∧
      ∀ k part o, PartAt options rule ty {} k part o →
        ∃ y, extentAt options rule part o = .ok y ∧ y.alignment.isPowerOfTwo ∧ y.alignment ∣ k := by
  have hrelaxed : rule.isRelaxed = false := by rcases hrule with rfl | rfl <;> rfl
  have htight : rule.isTight = false := by rcases hrule with rfl | rfl <;> rfl
  refine ⟨(isAlignment_extentAt ty {} hdata hx).isPowerOfTwo, ?_, ?_⟩
  · intro path elem length o hpart
    obtain ⟨harray, a, ha⟩ := exists_extent_of_part? ty {} path hdata hpart hx
    obtain ⟨e, he, hdvd, hroom⟩ := alignment_dvd_stride htight harray ha
    exact ⟨a, e, ha, he, hdvd, hroom⟩
  · intro k part o hpart
    obtain ⟨y, hy, hdvd⟩ := hpart.alignment_dvd_offset hrelaxed htight hdata hx
    exact ⟨y, hy, (isAlignment_extentAt part o (hpart.isNaturalData hdata) hy).isPowerOfTwo, hdvd⟩

/-- A structure with a base, an array of row-major matrices behind a typedef, and an open array. -/
def nestedStruct : Ty :=
  .struct "S" (.present (.struct "B" .absent
      (.cons "h" (.scalar .half) {} {} (.cons "wide" (.vector .double 3) {} {} .nil))))
    (.cons "m" (.alias "M" (.array (.oriented .rowMajor (.matrix .single 2 3)) (some 2))) {} {}
      (.cons "tail" (.array (.scalar .single) none) {} {} .nil))

/-- The second matrix stands one stride behind the base structure and the first one. -/
theorem partAt_nestedStruct :
    PartAt {} .std140 nestedStruct {} 96 (.matrix .single 2 3) ⟨some .rowMajor, none⟩ := by
  have harray : extentAt {} .std140
      (.array (.oriented .rowMajor (.matrix .single 2 3)) (some 2)) {} = .ok ⟨16, 64, 32⟩ := rfl
  refine PartAt.member (r := 64) (k := 32) ⟨[0, 64, 128], 1, rfl, rfl, rfl⟩ ?_
  exact .aliased (.element (i := 1) harray (by simp) (.oriented (.refl _ _)))

theorem naturally_aligned_nestedStruct :
    (Rule.std140 = .std140 ∨ Rule.std140 = .std430) ∧ nestedStruct.isNaturalData = true ∧
    extent {} .std140 nestedStruct = .ok ⟨32, 128, 128⟩ ∧
    PartAt {} .std140 nestedStruct {} 96 (.matrix .single 2 3) ⟨some .rowMajor, none⟩ ∧
    Nat.isPowerOfTwo 32 ∧
      (∀ path elem length o, nestedStruct.part? {} path = some (.array elem length, o) →
        ∃ a e, extentAt {} .std140 (.array elem length) o = .ok a ∧
          extentAt {} .std140 elem o.element = .ok e ∧
          a.alignment ∣ a.stride ∧ e.size ≤ a.stride) ∧
      ∀ k part o, PartAt {} .std140 nestedStruct {} k part o →
        ∃ y, extentAt {} .std140 part o = .ok y ∧ y.alignment.isPowerOfTwo ∧ y.alignment ∣ k :=
  ⟨.inl rfl, rfl, rfl, partAt_nestedStruct,
    naturally_aligned (x := ⟨32, 128, 128⟩) (.inl rfl) rfl rfl⟩

end ShaderLowering.Layout
