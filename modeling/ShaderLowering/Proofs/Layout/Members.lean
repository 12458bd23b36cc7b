import Mathlib.Data.List.Forall2
import ShaderLowering.Emission.Records
import ShaderLowering.Proofs.Emission.Written
import ShaderLowering.Proofs.Layout.Extent
import ShaderLowering.Proofs.Spirv.Footprint

/-!
# Members of a laid-out structure

The decorations of a structure are those of its members one after the other, so what is read for
one member is what was decorated for it.  With the members placed one behind the other, the
components of a structure lie within the room from the first place to the last end, as soon as the
components of each member lie within the extent of its type (`within_members`).
-/

namespace ShaderLowering.Layout

open Source (Ty OptionalTy Fields Field Record)
open Spirv (TypeTree TreeMembers TypeDecoration Span MatrixStorage)

variable {options : Options} {rule : Rule}

/-! ## Decorations of one member -/

/-- The storage of emitted matrices, whose columns are the source rows. -/
def storageOf : Nat × Bool → MatrixStorage
  | (stride, byRows) => ⟨stride, !byRows⟩

theorem member?_of_mem_memberDecorations {member : Nat} {part : Field} {placed : Placed}
    {ds : List TypeDecoration} (h : memberDecorations options rule member part placed = .ok ds) :
    ∀ d ∈ ds, d.member? = some member := by
  obtain ⟨matrix, -, h⟩ := bind_eq_ok_iff.1 h
  cases h
  intro d hd
  rcases List.mem_cons.1 hd with rfl | hd
  · rfl
  · rcases matrix with _ | ⟨stride, _ | _⟩
    · cases hd
    all_goals
      rw [matrixDecorations] at hd
      simp only [List.mem_cons, List.not_mem_nil, or_false, if_true, if_false,
        Bool.false_eq_true] at hd
      rcases hd with rfl | rfl <;> rfl

/-- What the decorations of a member say is its place and the storage of its matrices. -/
theorem read_memberDecorations {member : Nat} {part : Field} {placed : Placed}
    {ds : List TypeDecoration} (h : memberDecorations options rule member part placed = .ok ds) :
    TypeDecoration.offset? ds = some placed.offset ∧
      ∃ matrix, matrixStride? options rule part.ty = .ok matrix ∧
        TypeDecoration.matrixStorage? ds = matrix.map storageOf := by
  obtain ⟨matrix, hmatrix, h⟩ := bind_eq_ok_iff.1 h
  cases h
  refine ⟨rfl, matrix, hmatrix, ?_⟩
  rcases matrix with _ | ⟨stride, _ | _⟩ <;> rfl

/-! ## Decorations of all members -/

theorem le_member_of_mem_partDecorations {parts : List Field} {placed : List Placed} {first : Nat}
    {ds : List TypeDecoration} (h : partDecorations options rule first parts placed = .ok ds) :
    ∀ d ∈ ds, ∃ member, d.member? = some member ∧ first ≤ member := by
  induction parts generalizing first placed ds with
  | nil =>
    cases h
    simp
  | cons part parts ih =>
    cases placed with
    | nil =>
      cases h
      simp
    | cons p placed =>
      obtain ⟨here, hhere, h⟩ := bind_eq_ok_iff.1 h
      obtain ⟨others, hothers, h⟩ := bind_eq_ok_iff.1 h
      cases h
      intro d hd
      rcases List.mem_append.1 hd with hd | hd
      · exact ⟨first, member?_of_mem_memberDecorations hhere d hd, Nat.le_refl first⟩
      · obtain ⟨member, hmember, hle⟩ := ih hothers d hd
        exact ⟨member, hmember, by omega⟩

/-- The decorations read for the first member are its own, those for a later one come later. -/
theorem ofOneMember_append {here others : List TypeDecoration} {first : Nat}
    (hhere : ∀ d ∈ here, d.member? = some first)
    (hothers : ∀ d ∈ others, ∃ member, d.member? = some member ∧ first + 1 ≤ member) :
    TypeDecoration.ofOneMember first (here ++ others) = here ∧
      ∀ i, first + 1 ≤ i → TypeDecoration.ofOneMember i (here ++ others)
        = TypeDecoration.ofOneMember i others := by
  constructor
  · rw [TypeDecoration.ofOneMember, List.filter_append, List.filter_eq_self.2 (by simpa using hhere),
      List.filter_eq_nil_iff.2, List.append_nil]
    intro d hd
    obtain ⟨member, hmember, hle⟩ := hothers d hd
    rw [hmember]
    simp only [Option.some.injEq, decide_eq_true_eq]
    omega
  · intro i hi
    rw [TypeDecoration.ofOneMember, TypeDecoration.ofOneMember, List.filter_append,
      List.filter_eq_nil_iff.2, List.nil_append]
    intro d hd
    rw [hhere d hd]
    simp only [Option.some.injEq, decide_eq_true_eq]
    omega

/-- Members are read from their own decorations. -/
theorem spans_congr {ds ds' : List TypeDecoration} : (members : TreeMembers) → (first : Nat) →
    (∀ i, first ≤ i → TypeDecoration.ofOneMember i ds = TypeDecoration.ofOneMember i ds') →
    members.spans ds first = members.spans ds' first
  | .nil, _, _ => rfl
  | .cons _ ty rest, first, h => by
    have hrest := spans_congr rest (first + 1) fun i hi => h i (by omega)
    rw [TreeMembers.spans, TreeMembers.spans, h first (Nat.le_refl first), hrest]

/-! ## Members in their places -/

/-- The components of a part lie within the extent of its type, its matrices stored as its
decorations will say. -/
def PartFits (options : Options) (rule : Rule) (part : Field) (tree : TypeTree) : Prop :=
  ∀ x matrix, extent options rule part.ty = .ok x →
    matrixStride? options rule part.ty = .ok matrix →
    ∃ spans, tree.spans (matrix.map storageOf) = some spans ∧ Span.Within 0 x.size spans

theorem unplacedParts_cons {part : Field} {parts : List Field} {ms : List Unplaced}
    (h : unplacedParts options rule (part :: parts) = .ok ms) :
    ∃ m rest, ms = m :: rest ∧ extent options rule part.ty = .ok m.extent ∧
      unplacedParts options rule parts = .ok rest := by
  rw [unplacedParts, List.mapM_cons] at h
  obtain ⟨m, hm, h⟩ := bind_eq_ok_iff.1 h
  obtain ⟨rest, hrest, h⟩ := bind_eq_ok_iff.1 h
  obtain ⟨x, hx, hm⟩ := bind_eq_ok_iff.1 hm
  cases h
  cases hm
  exact ⟨_, rest, rfl, hx, hrest⟩

/-- The components of members that are placed from `nextFree` on lie behind it, apart from each
other, and end where the last member ends. -/
theorem within_members {parts : List Field} {trees : List TypeTree} {ms : List Unplaced}
    {placed : List Placed} {nextFree stop first : Nat} {ds : List TypeDecoration}
    (hfit : List.Forall₂ (PartFits options rule) parts trees)
    (hms : unplacedParts options rule parts = .ok ms)
    (hplaced : placeFrom rule nextFree ms = .ok (placed, stop))
    (hds : partDecorations options rule first parts placed = .ok ds) :
    ∃ spans, (Written.members parts trees).spans ds first = some spans ∧
      Span.Within nextFree stop spans := by
  induction hfit generalizing ms placed nextFree first ds with
  | nil => exact ⟨[], rfl, Span.within_nil _ _⟩
  | @cons part tree parts trees hpart _ ih =>
    obtain ⟨m, rest, rfl, hextent, hrest⟩ := unplacedParts_cons hms
    obtain ⟨p, others, rfl, hle, hsame, hothers⟩ := placeFrom_cons hplaced
    obtain ⟨here, hhere, h⟩ := bind_eq_ok_iff.1 hds
    obtain ⟨later, hlater, h⟩ := bind_eq_ok_iff.1 h
    cases h
    obtain ⟨hfirst, hafter⟩ := ofOneMember_append (member?_of_mem_memberDecorations hhere)
      (le_member_of_mem_partDecorations hlater)
    obtain ⟨hoffset, matrix, hmatrix, hstorage⟩ := read_memberDecorations hhere
    obtain ⟨own, hown, hwithin⟩ := hpart m.extent matrix hextent hmatrix
    obtain ⟨spans, hspans, hwithin'⟩ := ih hrest hothers hlater
    refine ⟨own.map (Span.shift p.offset) ++ spans, ?_, ?_⟩
    · rw [Written.members, TreeMembers.spans, hfirst, hoffset, hstorage, hown,
        spans_congr _ _ hafter, hspans]
      rfl
    · have hshift := hwithin.shift p.offset
      exact (hshift.mono hle (Nat.le_refl _)).append hwithin' (by omega)
        (le_stop_of_placeFrom hothers)

/-! ## The members of the two walks -/

theorem unplacedParts_toList : (fields : Fields) →
    unplacedParts options rule fields.toList = unplacedFields options rule fields
  | .nil => rfl
  | .cons name ty attributes position rest => by
    have hrest : unplacedParts options rule rest.toList = unplacedFields options rule rest :=
      unplacedParts_toList rest
    rw [unplacedParts] at hrest ⊢
    rw [Fields.toList, List.mapM_cons, hrest, unplacedFields]
    simp only [extent]
    cases extentAt options rule ty {} <;> rfl

/-- Emission and layout place the same members. -/
theorem unplacedParts_parts (name : String) (base : OptionalTy) (fields : Fields) :
    unplacedParts options rule (Record.parts ⟨name, base, fields⟩)
      = unplaced options rule base fields := by
  have hfields : unplacedParts options rule fields.toList = unplacedFields options rule fields :=
    unplacedParts_toList fields
  rw [unplaced]
  cases base with
  | absent =>
    rw [Record.parts, hfields, unplacedBase]
    cases unplacedFields options rule fields <;> rfl
  | present ty =>
    rw [unplacedParts] at hfields
    rw [Record.parts, unplacedParts, List.mapM_cons, hfields, unplacedBase]
    simp only [extent]
    cases extentAt options rule ty {}
    · rfl
    · cases unplacedFields options rule fields <;> rfl

end ShaderLowering.Layout
