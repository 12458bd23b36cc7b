import ShaderLowering.Proofs.Layout.Places
import ShaderLowering.Proofs.Session.Reachable

/-!
# Emission of values

A value is a type without resources whose vectors and matrices have up to four components in each
direction and of which no member asks for a place.  Emission of a value cannot go wrong by itself.
It reports nothing, since only sizes without counterpart and overlapping members are reported.  It
breaks off only where a size is no word, and every size that it asks for, of an array, a matrix or a
structure on the way, was already needed for the extent of the whole.
-/

namespace ShaderLowering

open Source (Ty OptionalTy Fields Field Scalar Record)
open Spirv (TypeTree TypeDecoration)

/-! ## Values -/

namespace Source.Ty

/-- Whether a scalar, vector or matrix has a counterpart in the module. -/
def isValueLeaf : Ty → Bool
  | .scalar _ => true
  | .vector _ count => decide (1 ≤ count ∧ count ≤ 4)
  | .matrix _ rows cols => decide (1 ≤ rows ∧ rows ≤ 4) && decide (1 ≤ cols ∧ cols ≤ 4)
  | _ => false

/-- Whether a type is a value. -/
def isValue (ty : Ty) : Bool := ty.isDataOf isValueLeaf

end Source.Ty

variable {options : Options} {rule : Layout.Rule} {o : Layout.Orientation}

/-! ## Extents on the way -/

namespace Layout

/-- What lies below the arrays of a type that has an extent has one too. -/
theorem exists_extentAt_innermost : (ty : Ty) → (o : Orientation) → {x : Extent} →
    extentAt options rule ty o = .ok x →
    ∃ y, extentAt options rule (innermost ty o).1 (innermost ty o).2 = .ok y
  | .alias _ target, o, _, h => by
    rw [extentAt] at h
    exact exists_extentAt_innermost target o h
  | .oriented order target, o, _, h => by
    rw [extentAt] at h
    exact exists_extentAt_innermost target (o.annotate order) h
  | .array elem _, o, _, h => by
    rw [extentAt] at h
    obtain ⟨y, hy, -⟩ := bind_eq_ok_iff.1 h
    exact exists_extentAt_innermost elem o.element hy
  | .void, _, x, h | .scalar _, _, x, h | .vector _ _, _, x, h | .matrix _ _ _, _, x, h
  | .struct _ _ _, _, x, h | .resource _ _, _, x, h => ⟨x, h⟩

theorem exists_matrixStride? {ty : Ty} {x : Extent} (h : extent options rule ty = .ok x) :
    ∃ matrix, matrixStride? options rule ty = .ok matrix := by
  rw [matrixStride?]
  split
  · obtain ⟨y, hy⟩ := exists_extentAt_innermost ty {} h
    exact ⟨_, bind_eq_ok_iff.2 ⟨y, hy, rfl⟩⟩
  · exact ⟨none, rfl⟩

/-- The decorations of members exist as soon as the members have extents. -/
theorem exists_partDecorations {parts : List Field} {ms : List Unplaced}
    (h : unplacedParts options rule parts = .ok ms) (first : Nat) (placed : List Placed) :
    ∃ ds, partDecorations options rule first parts placed = .ok ds := by
  induction parts generalizing ms first placed with
  | nil => exact ⟨[], rfl⟩
  | cons part parts ih =>
    cases placed with
    | nil => exact ⟨[], rfl⟩
    | cons p placed =>
      obtain ⟨m, rest, rfl, hextent, hrest⟩ := unplacedParts_cons h
      obtain ⟨matrix, hmatrix⟩ := exists_matrixStride? hextent
      obtain ⟨later, hlater⟩ := ih hrest (first + 1) placed
      have hhere : memberDecorations options rule first part p
          = .ok (.offset first p.offset :: matrixDecorations first matrix) :=
        bind_eq_ok_iff.2 ⟨matrix, hmatrix, rfl⟩
      exact ⟨_, bind_eq_ok_iff.2 ⟨_, hhere, bind_eq_ok_iff.2 ⟨later, hlater, rfl⟩⟩⟩

/-- Members that ask for no place overlap nothing. -/
theorem RecordLayout.overlaps_eq_nil {ms : List Unplaced} {layout : RecordLayout}
    (hms : ∀ m ∈ ms, m.attributes.asksForOffset = false) (h : of rule ms = .ok layout) :
    layout.overlaps = [] := by
  obtain ⟨stop, hplaced, -⟩ := of_spec h
  refine List.filterMap_eq_nil_iff.2 fun p hp => ?_
  obtain ⟨i, hi⟩ := List.mem_iff_getElem?.1 hp
  obtain ⟨m, next, hm, hplace⟩ := getElem?_placeFrom hplaced hi
  exact (natural_of_place (hms m (List.mem_of_getElem? hm)) hplace).2

end Layout

/-! ## The written value -/

namespace Written

theorem exists_vectorSize {count : Nat} (h : 1 < count ∧ count ≤ 4) :
    ∃ size, vectorSize count = .ok size := by
  obtain rfl | rfl | rfl : count = 2 ∨ count = 3 ∨ count = 4 := by omega
  all_goals exact ⟨_, rfl⟩

theorem exists_ofVector {elem : Scalar} {count : Nat} (h : 1 ≤ count ∧ count ≤ 4) :
    ∃ tree, ofVector options rule none elem count = .ok tree := by
  rw [ofVector]
  split
  · exact ⟨_, rfl⟩
  · obtain ⟨size, hsize⟩ := exists_vectorSize ⟨by omega, h.2⟩
    exact ⟨_, bind_eq_ok_iff.2 ⟨size, hsize, rfl⟩⟩

theorem exists_strideOf {ty : Ty}
    (h : rule ≠ .unlaid → ∃ x, Layout.extentAt options rule ty o = .ok x) :
    ∃ ds, strideOf options rule ty o = .ok ds := by
  rw [strideOf]
  split
  · exact ⟨[], rfl⟩
  · rename_i hrule
    obtain ⟨x, hx⟩ := h hrule
    exact ⟨_, bind_eq_ok_iff.2 ⟨x, ofChecked_eq_ok_iff.2 hx, rfl⟩⟩

theorem exists_ofMatrix {elem : Scalar} {rows cols : Nat} (hrows : 1 ≤ rows ∧ rows ≤ 4)
    (hcols : 1 ≤ cols ∧ cols ≤ 4)
    (h : rule ≠ .unlaid → ∃ x, Layout.extentAt options rule (.matrix elem rows cols) o = .ok x) :
    ∃ tree, ofMatrix options rule o none elem rows cols = .ok tree := by
  rw [ofMatrix]
  split
  · rename_i h1
    have hcount : 1 ≤ rows * cols ∧ rows * cols ≤ 4 := by rcases h1 with rfl | rfl <;> omega
    have hmul : ofChecked (Word.mul rows cols) = .ok (rows * cols) := by
      refine ofChecked_eq_ok_iff.2 (Word.mul_eq_ok_iff.2 ⟨rfl, ?_⟩)
      rw [Word.bound]
      omega
    obtain ⟨tree, htree⟩ : ∃ tree, ofVector options rule none elem (rows * cols) = .ok tree :=
      exists_ofVector hcount
    exact ⟨tree, bind_eq_ok_iff.2 ⟨_, hmul, htree⟩⟩
  · obtain ⟨row, hrow⟩ : ∃ row, ofVector options rule none elem cols = .ok row :=
      exists_ofVector hcols
    obtain ⟨size, hsize⟩ := exists_vectorSize ⟨by omega, hrows.2⟩
    obtain ⟨ds, hds⟩ := exists_strideOf h
    cases hfloat : elem.isFloat
    · exact ⟨_, bind_eq_ok_iff.2 ⟨row, hrow, bind_eq_ok_iff.2 ⟨ds, hds, rfl⟩⟩⟩
    · exact ⟨_, bind_eq_ok_iff.2 ⟨row, hrow, bind_eq_ok_iff.2 ⟨size, hsize, rfl⟩⟩⟩

theorem exists_ofArray {elem : Ty} {length : Option Nat} (base : TypeTree)
    (h : rule ≠ .unlaid → ∃ x, Layout.extentAt options rule (.array elem length) o = .ok x) :
    ∃ tree, ofArray options rule o elem length base = .ok tree := by
  rw [ofArray]
  dsimp only
  split
  · cases length <;> exact ⟨_, rfl⟩
  · obtain ⟨ds, hds⟩ := exists_strideOf h
    cases length <;> exact ⟨_, bind_eq_ok_iff.2 ⟨ds, hds, rfl⟩⟩

theorem exists_ofRecord {name : String} {base : OptionalTy} {fields : Fields}
    (trees : List TypeTree)
    (h : rule ≠ .unlaid →
      ∃ x, Layout.extentAt options rule (.struct name base fields) o = .ok x) :
    ∃ tree, ofRecord options name (Record.parts ⟨name, base, fields⟩) trees rule .plain
      = .ok tree := by
  obtain ⟨ds, hds⟩ : ∃ ds, layoutDecorations options rule (Record.parts ⟨name, base, fields⟩)
      = .ok ds := by
    rw [layoutDecorations]
    split
    · exact ⟨[], rfl⟩
    · rename_i hrule
      obtain ⟨x, hx⟩ := h hrule
      obtain ⟨ms, layout, hms, hlayout, -⟩ := Layout.exists_layout_of_struct hx
      obtain ⟨ds, hds⟩ := Layout.exists_partDecorations hms 0 layout.members
      exact ⟨ds, bind_eq_ok_iff.2 ⟨layout,
        ofChecked_eq_ok_iff.2 (bind_eq_ok_iff.2 ⟨ms, hms, hlayout⟩), ofChecked_eq_ok_iff.2 hds⟩⟩
  exact ⟨_, bind_eq_ok_iff.2 ⟨ds, hds, rfl⟩⟩

mutual

/-- A value can be written without a memory rule, and under one if it has an extent. -/
theorem exists_ofTy : (ty : Ty) → (o : Layout.Orientation) → ty.isDataOf Ty.isValueLeaf = true →
    (rule ≠ .unlaid → ∃ x, Layout.extentAt options rule ty o = .ok x) →
    ∃ tree, ofTy options ty rule o none = .ok tree
  | .alias _ target, o, hvalue, h => by
    rw [Layout.extentAt] at h
    exact exists_ofTy target o hvalue h
  | .oriented order target, o, hvalue, h => by
    rw [Layout.extentAt] at h
    exact exists_ofTy target (o.annotate order) hvalue h
  | .scalar _, _, _, _ => ⟨_, rfl⟩
  | .vector elem count, _, hvalue, _ => exists_ofVector (of_decide_eq_true hvalue)
  | .matrix elem rows cols, o, hvalue, h => by
    obtain ⟨hrows, hcols⟩ := Bool.and_eq_true_iff.1 hvalue
    exact exists_ofMatrix (of_decide_eq_true hrows) (of_decide_eq_true hcols) h
  | .array elem length, o, hvalue, h => by
    obtain ⟨base, hbase⟩ := exists_ofTy elem o.element hvalue fun hrule => by
      obtain ⟨x, hx⟩ := h hrule
      rw [Layout.extentAt] at hx
      obtain ⟨y, hy, -⟩ := bind_eq_ok_iff.1 hx
      exact ⟨y, hy⟩
    obtain ⟨tree, htree⟩ := exists_ofArray base h
    exact ⟨tree, bind_eq_ok_iff.2 ⟨base, hbase, htree⟩⟩
  | .struct name base fields, o, hvalue, h => by
    rw [Ty.isDataOf, Bool.and_eq_true] at hvalue
    -- a structure that has an extent has placed all its members
    have hparts : rule ≠ .unlaid → (∃ ms, Layout.unplacedBase options rule base = .ok ms) ∧
        ∃ ms, Layout.unplacedFields options rule fields = .ok ms := by
      intro hrule
      obtain ⟨x, hx⟩ := h hrule
      rw [Layout.extentAt] at hx
      obtain ⟨first, hfirst, hx⟩ := bind_eq_ok_iff.1 hx
      obtain ⟨rest, hrest, -⟩ := bind_eq_ok_iff.1 hx
      exact ⟨⟨first, hfirst⟩, rest, hrest⟩
    obtain ⟨inherited, hinherited⟩ := exists_ofBase base hvalue.1 fun hrule => (hparts hrule).1
    obtain ⟨own, hown⟩ := exists_ofFields fields hvalue.2 fun hrule => (hparts hrule).2
    obtain ⟨tree, htree⟩ := exists_ofRecord (inherited ++ own) h
    exact ⟨tree, bind_eq_ok_iff.2 ⟨inherited, hinherited, bind_eq_ok_iff.2 ⟨own, hown, htree⟩⟩⟩

theorem exists_ofBase : (base : OptionalTy) → base.isDataOf Ty.isValueLeaf = true →
    (rule ≠ .unlaid → ∃ ms, Layout.unplacedBase options rule base = .ok ms) →
    ∃ trees, ofBase options base rule = .ok trees
  | .absent, _, _ => ⟨[], rfl⟩
  | .present ty, hvalue, h => by
    obtain ⟨tree, htree⟩ := exists_ofTy ty {} hvalue fun hrule => by
      obtain ⟨ms, hms⟩ := h hrule
      rw [Layout.unplacedBase] at hms
      obtain ⟨x, hx, -⟩ := bind_eq_ok_iff.1 hms
      exact ⟨x, hx⟩
    exact ⟨[tree], bind_eq_ok_iff.2 ⟨tree, htree, rfl⟩⟩

theorem exists_ofFields : (fields : Fields) → fields.areDataOf Ty.isValueLeaf = true →
    (rule ≠ .unlaid → ∃ ms, Layout.unplacedFields options rule fields = .ok ms) →
    ∃ trees, ofFields options fields rule = .ok trees
  | .nil, _, _ => ⟨[], rfl⟩
  | .cons _ ty _ _ rest, hvalue, h => by
    simp only [Fields.areDataOf, Bool.and_eq_true] at hvalue
    have hparts : rule ≠ .unlaid → (∃ x, Layout.extentAt options rule ty {} = .ok x) ∧
        ∃ ms, Layout.unplacedFields options rule rest = .ok ms := by
      intro hrule
      obtain ⟨ms, hms⟩ := h hrule
      rw [Layout.unplacedFields] at hms
      obtain ⟨x, hx, hms⟩ := bind_eq_ok_iff.1 hms
      obtain ⟨later, hlater, -⟩ := bind_eq_ok_iff.1 hms
      exact ⟨⟨x, hx⟩, later, hlater⟩
    obtain ⟨tree, htree⟩ := exists_ofTy ty {} hvalue.1.1 fun hrule => (hparts hrule).1
    obtain ⟨trees, htrees⟩ := exists_ofFields rest hvalue.2 fun hrule => (hparts hrule).2
    exact ⟨tree :: trees, bind_eq_ok_iff.2 ⟨tree, htree, bind_eq_ok_iff.2 ⟨trees, htrees, rfl⟩⟩⟩

end

end Written

/-! ## Silence -/

namespace Emit

open Action.Contract (keeps_pure keeps_ofChecked keeps_get_bind)

/-- What an action keeps that reports nothing. -/
def silence : Action.Contract Emitter where
  invariant _ := True
  step e e' := e'.log = e.log
  refl _ := rfl
  trans h h' := h'.trans h

/-- The action reports nothing, wherever it is run. -/
def Silent {α : Type} (x : Emit α) : Prop := ∀ e, silence.Keeps x e

variable {α β : Type}

theorem Silent.bind {x : Emit α} {f : α → Emit β} (hx : Silent x) (hf : ∀ a, Silent (f a)) :
    Silent (x >>= f) :=
  fun e => (hx e).bind fun a e' _ _ _ => hf a e'

theorem silent_pure (a : α) : Silent (pure a) := fun _ => keeps_pure trivial a

theorem silent_ofChecked (c : Checked α) : Silent (.ofChecked c) :=
  fun _ => keeps_ofChecked trivial c

theorem silent_get_bind {f : Emitter → Emit α} (hf : ∀ e, Silent (f e)) : Silent (get >>= f) :=
  fun e => keeps_get_bind (hf e e)

theorem silent_onTarget (f : Spirv.Module → α × Spirv.Module) : Silent (onTarget f) :=
  fun _ => ⟨trivial, rfl⟩

theorem silent_declare (c : Option Spirv.Capability) (x : Option Spirv.Extension) :
    Silent (declare c x) := fun _ => ⟨trivial, rfl⟩

theorem silent_remembered {key : EmissionKey} {expected : Option Scalar} {make : Emit Spirv.TypeId}
    (hmake : Silent make) : Silent (remembered key expected make) := by
  rw [remembered]
  split
  · exact hmake
  · refine silent_get_bind fun e => ?_
    split
    · exact silent_pure _
    · exact hmake.bind fun id _ => ⟨trivial, rfl⟩

/-! ### Scalars, vectors, matrices and arrays -/

theorem silent_storedScalar (elem : Scalar) : Silent (storedScalar rule none elem) :=
  silent_get_bind fun _ => (silent_declare _ _).bind fun _ => silent_pure _

theorem silent_ofScalar (elem : Scalar) : Silent (ofScalar rule none elem) :=
  (silent_storedScalar elem).bind fun _ => silent_onTarget _

theorem silent_vectorSize {count : Nat} (h : 1 < count ∧ count ≤ 4) :
    Silent (vectorSize count) := by
  obtain rfl | rfl | rfl : count = 2 ∨ count = 3 ∨ count = 4 := by omega
  all_goals exact silent_pure _

theorem silent_ofVector {elem : Scalar} {count : Nat} (h : 1 ≤ count ∧ count ≤ 4) :
    Silent (ofVector rule none elem count) := by
  refine (silent_storedScalar elem).bind fun stored => ?_
  split
  · exact silent_onTarget _
  · exact (silent_vectorSize (by omega)).bind fun _ => silent_onTarget _

theorem silent_strideOf (ty : Ty) : Silent (strideOf rule ty o) := by
  rw [strideOf]
  split
  · exact silent_pure _
  · exact silent_get_bind fun _ => (silent_ofChecked _).bind fun _ => silent_pure _

theorem silent_ofMatrix {elem : Scalar} {rows cols : Nat} (hrows : 1 ≤ rows ∧ rows ≤ 4)
    (hcols : 1 ≤ cols ∧ cols ≤ 4) : Silent (ofMatrix rule o none elem rows cols) := by
  rw [ofMatrix]
  split
  · rename_i h1
    intro e
    refine (silent_ofChecked _ e).bind fun count e' _ _ hcount => ?_
    obtain rfl := (Word.mul_eq_ok_iff.1 (Action.runOn_ofChecked_eq_ok_iff.1 hcount).1).1
    have hbounds : 1 ≤ rows * cols ∧ rows * cols ≤ 4 := by rcases h1 with rfl | rfl <;> omega
    exact silent_ofVector hbounds e'
  · refine (silent_ofVector hcols).bind fun row => ?_
    split
    · exact (silent_vectorSize (by omega)).bind fun _ => silent_onTarget _
    · exact (silent_onTarget _).bind fun _ => (silent_strideOf _).bind fun _ => silent_onTarget _

theorem silent_ofArray (elem : Ty) (length : Option Nat) (base : Spirv.TypeId) :
    Silent (ofArray rule o elem length base) := by
  rw [ofArray]
  dsimp only
  cases length with
  | some n =>
    have hlast : ∀ ds, Silent (do insertType ⟨none, .array base (← constant n), ds⟩) :=
      fun _ => (silent_onTarget _).bind fun _ => silent_onTarget _
    split
    · exact (silent_pure _).bind hlast
    · exact (silent_strideOf _).bind hlast
  | none =>
    split
    · exact (silent_pure _).bind fun _ => (silent_declare _ _).bind fun _ => silent_onTarget _
    · exact (silent_strideOf _).bind fun _ => silent_onTarget _

/-! ### Structures -/

theorem silent_layoutDecorations {parts : List Field}
    (hparts : ∀ f ∈ parts, f.attributes.asksForOffset = false) :
    Silent (layoutDecorations rule parts) := by
  rw [layoutDecorations]
  split
  · exact silent_pure _
  · intro e
    refine keeps_get_bind ((silent_ofChecked _ e).bind fun layout e' _ _ hlayout => ?_)
    obtain ⟨ms, hms, hlayout⟩ :=
      bind_eq_ok_iff.1 (Action.runOn_ofChecked_eq_ok_iff.1 hlayout).1
    have hnone : layout.overlaps = [] := by
      refine Layout.RecordLayout.overlaps_eq_nil (fun m hm => ?_) hlayout
      obtain ⟨f, hf, -, hattributes⟩ := Layout.exists_part_of_mem_unplacedParts hms m hm
      rw [hattributes]
      exact hparts f hf
    rw [hnone]
    exact silent_ofChecked _ e'

theorem silent_ofRecord {name : String} {parts : List Field} (types : List Spirv.TypeId)
    (role : BlockRole) (hparts : ∀ f ∈ parts, f.attributes.asksForOffset = false) :
    Silent (ofRecord name parts types rule role) :=
  (silent_layoutDecorations hparts).bind fun _ => silent_onTarget _

mutual

/-- Emission of a value reports nothing. -/
theorem silent_ofTy : (ty : Ty) → (o : Layout.Orientation) → ty.isDataOf Ty.isValueLeaf = true →
    Silent (ofTy ty rule o none)
  | .alias _ target, o, hvalue => silent_ofTy target o hvalue
  | .oriented order target, o, hvalue => silent_ofTy target (o.annotate order) hvalue
  | .scalar elem, _, _ => silent_remembered (silent_ofScalar elem)
  | .vector elem count, _, hvalue => silent_remembered (silent_ofVector (of_decide_eq_true hvalue))
  | .matrix elem rows cols, _, hvalue => by
    obtain ⟨hrows, hcols⟩ := Bool.and_eq_true_iff.1 hvalue
    exact silent_remembered
      (silent_ofMatrix (of_decide_eq_true hrows) (of_decide_eq_true hcols))
  | .array elem length, o, hvalue => by
    rw [ofTy]
    exact silent_remembered
      ((silent_ofTy elem o.element hvalue).bind fun base => silent_ofArray elem length base)
  | .struct name base fields, _, hvalue => by
    have hparts := Source.forall_mem_parts_of_isDataOf hvalue
    rw [Ty.isDataOf, Bool.and_eq_true] at hvalue
    rw [ofTy]
    refine silent_remembered ((silent_ofBase base hvalue.1).bind fun inherited =>
      (silent_ofFields fields hvalue.2).bind fun own => ?_)
    exact silent_ofRecord _ _ fun f hf => (hparts f hf).2

theorem silent_ofBase : (base : OptionalTy) → base.isDataOf Ty.isValueLeaf = true →
    Silent (ofBase base rule)
  | .absent, _ => silent_pure _
  | .present ty, hvalue => (silent_ofTy ty {} hvalue).bind fun _ => silent_pure _

theorem silent_ofFields : (fields : Fields) → fields.areDataOf Ty.isValueLeaf = true →
    Silent (ofFields fields rule)
  | .nil, _ => silent_pure _
  | .cons _ ty _ _ rest, hvalue => by
    simp only [Fields.areDataOf, Bool.and_eq_true] at hvalue
    exact (silent_ofTy ty {} hvalue.1.1).bind fun _ =>
      (silent_ofFields rest hvalue.2).bind fun _ => silent_pure _

end

end Emit

/-! ## Values are emitted -/

/-- An emitter that a client can have: one of its own after some requests, or that of a session
after some operations. -/
def Emitter.Attained (options : Options) (e : Emitter) : Prop :=
  Emitter.Reachable options e ∨ ∃ stage s, Session.Reachable stage options s ∧ s.emitter = e

theorem Emitter.Attained.sound {e : Emitter} (h : Emitter.Attained options e) :
    e.Sound ∧ e.options = options := by
  rcases h with h | ⟨stage, s, h, rfl⟩
  · exact h.sound
  · exact ⟨h.sound.emitter, h.options_eq⟩

namespace Emit

variable {e : Emitter} {ty : Ty}

/-- The type is emitted, and nothing is reported. -/
def Emits (e : Emitter) (ty : Ty) (rule : Layout.Rule) : Prop :=
  ∃ id e', (type ty rule).runOn e = (.ok id, e') ∧ e'.log = e.log

theorem emits_of_isValue (he : e.Sound) (hvalue : ty.isValue = true)
    (h : rule ≠ .unlaid → ∃ x, Layout.extent e.options rule ty = .ok x) : Emits e ty rule := by
  obtain ⟨tree, htree⟩ := Written.exists_ofTy ty {} hvalue h
  have hrealizes := realizes_ofTy ty rule {} none he
  rw [htree] at hrealizes
  obtain ⟨id, e', hrun, -⟩ := hrealizes.exists_run
  have hsilent : ((ofTy ty rule {} none).runOn e).2.log = e.log := (silent_ofTy ty {} hvalue e).step
  rw [hrun] at hsilent
  exact ⟨id, e', hrun, hsilent⟩

/-- **Values are emitted.**  In whatever state an emitter is, it answers with the type of a value
and reports nothing: always where no layout is asked for, and under a memory rule whenever the
layout of the value under that rule is computed without a fault. -/
theorem isValue_emits (he : Emitter.Attained options e) (hvalue : ty.isValue = true) :
    Emits e ty .unlaid ∧
      ∀ rule x, rule ≠ .unlaid → Layout.extent options rule ty = .ok x → Emits e ty rule := by
  obtain ⟨hsound, rfl⟩ := he.sound
  exact ⟨emits_of_isValue hsound hvalue fun hrule => absurd rfl hrule,
    fun _ x _ hx => emits_of_isValue hsound hvalue fun _ => ⟨x, hx⟩⟩

/-- A structure with a base, an integer matrix in an order of its own, and an open array behind a
typedef. -/
def openStruct : Ty :=
  .struct "S" (.present (.struct "B" .absent (.cons "n" (.scalar (.minInt true)) {} {} .nil)))
    (.cons "m" (.oriented .rowMajor (.matrix .int32 2 3)) {} {}
      (.cons "r" (.array (.alias "V" (.vector .half 3)) none) {} {} .nil))

/-- An emitter that has reported a vector of five components. -/
def afterWideVector : Emitter :=
  ((typeExpecting (.vector .single 5) .std140 none).runOn (.start {})).2

theorem isValue_emits_openStruct :
    Emitter.Attained {} afterWideVector ∧ afterWideVector.log.entries.length = 1 ∧
    openStruct.isValue = true ∧ Layout.Rule.std140 ≠ .unlaid ∧
    Layout.extent {} .std140 openStruct = .ok ⟨16, 48, 48⟩ ∧
    Emits afterWideVector openStruct .unlaid ∧ Emits afterWideVector openStruct .std140 := by
  have hattained : Emitter.Attained {} afterWideVector :=
    .inl (.typeExpecting (.vector .single 5) .std140 none .start)
  have hvalue : openStruct.isValue = true := by decide
  have hextent : Layout.extent {} .std140 openStruct = .ok ⟨16, 48, 48⟩ := by rfl
  obtain ⟨hunlaid, hlaid⟩ := isValue_emits hattained hvalue
  exact ⟨hattained, by decide +kernel, hvalue, by decide, hextent, hunlaid,
    hlaid .std140 ⟨16, 48, 48⟩ (by decide) hextent⟩

end Emit

end ShaderLowering
