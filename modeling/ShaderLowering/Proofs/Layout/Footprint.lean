import ShaderLowering.Proofs.Layout.Members
import ShaderLowering.Proofs.Layout.PlainData

/-!
# Footprints of emitted types

The extent of a type is computed by one recursion, the decorations of the emitted type by another.
Read together they agree: the components of the emitted type lie apart from each other and within
the extent (`within_ofTy`).

There is one exception.  A matrix that is not floating-point is emitted as an array of its source
rows, also where it is laid out by columns.  The array takes its stride from the layout, so its rows
are apart and within the extent only if there are not more rows than columns and a row has room in
the place of a column (`rowsFit`); the statement asks for this of every such matrix.
-/

namespace ShaderLowering.Layout

open Source (Ty OptionalTy Fields Field Scalar Record)
open Spirv (TypeTree TreeForm TreeMembers TypeDecoration Span MatrixStorage)

variable {options : Options} {rule : Rule}

/-! ## Rows of a matrix that is emitted as an array -/

/-- Whether the rows of a matrix keep apart and within its extent, at the stride of the vectors in
which it is laid out. -/
def rowsFit (rule : Rule) (bytes rows cols : Nat) (byRows : Bool) : Bool :=
  byRows || decide (rows ≤ cols) &&
    if rule.isTight then decide (cols ≤ rows)
    else decide (cols ≤ Extent.lanes rows) || rule.roundsAggregates && decide (cols * bytes ≤ 16)

/-- Whether a matrix is emitted so that its components lie within its extent. -/
def matrixFits (options : Options) (rule : Rule) (o : Orientation) (elem : Scalar)
    (rows cols : Nat) : Bool :=
  elem.isFloat || decide (rows = 1) || decide (cols = 1) ||
    rowsFit rule (elem.bytes options) rows cols (o.byRows options)

/-- A row has room in the place of a column exactly when it has no more components than the place
has, or both are padded to the same sixteen bytes. -/
theorem row_le_vectorStride_iff {bytes rows cols : Nat} (hbytes : bytes = 2 ∨ bytes = 4 ∨ bytes = 8)
    (hrows : 2 ≤ rows ∧ rows ≤ 4) (hcols : 2 ≤ cols ∧ cols ≤ 4) (htight : ¬rule.isTight = true) :
    cols * bytes ≤ Extent.vectorStride rule bytes rows
      ↔ cols ≤ Extent.lanes rows ∨ rule.roundsAggregates = true ∧ cols * bytes ≤ 16 := by
  have hlanes : Extent.lanes rows = 2 ∧ rows = 2 ∨ Extent.lanes rows = 4 := by
    rw [Extent.lanes]
    split <;> omega
  rw [Extent.vectorStride, if_neg htight]
  -- three sizes of a component and two places for a column, with and without rounding
  split
  · rename_i hrounds
    rcases hbytes with rfl | rfl | rfl <;> rcases hlanes with ⟨h, -⟩ | h <;>
      simp only [h, hrounds, true_and] <;> omega
  · rename_i hrounds
    rw [Bool.not_eq_true] at hrounds
    simp only [hrounds, Bool.false_eq_true, false_and, or_false]
    rcases hbytes with rfl | rfl | rfl <;> rcases hlanes with ⟨h, -⟩ | h <;>
      simp only [h] <;> omega

/-- Rows fit exactly when the stride has room for one and the last one ends within the extent. -/
theorem rowsFit_iff {bytes rows cols : Nat} {byRows : Bool}
    (hbytes : bytes = 2 ∨ bytes = 4 ∨ bytes = 8) (hrows : 2 ≤ rows ∧ rows ≤ 4)
    (hcols : 2 ≤ cols ∧ cols ≤ 4) {stride : Nat}
    (hstride : stride = Extent.vectorStride rule bytes (if byRows then cols else rows)) :
    rowsFit rule bytes rows cols byRows = true
      ↔ cols * bytes ≤ stride ∧
        (rows - 1) * stride + cols * bytes ≤ (if byRows then rows else cols) * stride := by
  have hpos : 0 < cols * bytes := Nat.mul_pos (by omega) (by omega)
  have hroom : cols * bytes ≤ stride → rows ≤ cols →
      (rows - 1) * stride + cols * bytes ≤ cols * stride := by
    intro hle hrc
    have hlast := Span.mul_add_le_mul (i := rows - 1) (j := cols) (by omega) hle
    exact hlast
  cases byRows with
  | true =>
    have hle : cols * bytes ≤ stride := hstride ▸ Extent.le_vectorStride rule bytes cols
    have hlast := Span.mul_add_le_mul (i := rows - 1) (j := rows) (by omega) hle
    simp only [rowsFit, Bool.true_or, if_true, true_iff]
    exact ⟨hle, hlast⟩
  | false =>
    simp only [Bool.false_eq_true, if_false] at hstride ⊢
    -- with more rows than columns the last row starts behind the last column
    have hrc : (rows - 1) * stride + cols * bytes ≤ cols * stride → rows ≤ cols := by
      intro hlast
      by_contra hlt
      have hle : cols * stride ≤ (rows - 1) * stride := Nat.mul_le_mul_right _ (by omega)
      omega
    have hdecide : rowsFit rule bytes rows cols false = true
        ↔ rows ≤ cols ∧ cols * bytes ≤ stride := by
      simp only [rowsFit, Bool.false_or, Bool.and_eq_true, decide_eq_true_eq, hstride]
      refine and_congr_right fun hle => ?_
      split
      · rename_i htight
        rw [Extent.vectorStride, if_pos htight, decide_eq_true_eq]
        exact ⟨fun h => Nat.mul_le_mul_right bytes h,
          fun h => Nat.le_of_mul_le_mul_right h (by omega)⟩
      · rename_i htight
        rw [row_le_vectorStride_iff hbytes hrows hcols htight]
        simp only [Bool.or_eq_true, Bool.and_eq_true, decide_eq_true_eq]
    rw [hdecide]
    exact ⟨fun h => ⟨h.2, hroom h.2 h.1⟩, fun h => ⟨hrc h.2, h.1⟩⟩

/-! ## Vectors and matrices -/

section

variable {elem : Scalar}

theorem stored_spans (helem : elem.isSized = true) (hrule : rule ≠ .unlaid) :
    (elem.stored options rule none).spans = some [⟨0, elem.bytes options⟩] := by
  obtain ⟨hkind, hwidth⟩ := Source.Scalar.stored_of_isSized options helem hrule
  rw [Spirv.Scalar.spans_of_ne hkind, hwidth]

theorem stored_vectorSpans (helem : elem.isSized = true) (hrule : rule ≠ .unlaid)
    (size : Spirv.VectorSize) :
    size.spans (elem.stored options rule none)
      = some (Span.every size.toNat (elem.bytes options) [⟨0, elem.bytes options⟩]) := by
  obtain ⟨-, hwidth⟩ := Source.Scalar.stored_of_isSized options helem hrule
  rw [Spirv.VectorSize.spans, stored_spans helem hrule, hwidth, Option.map_some]

theorem size_of_vectorSize {count : Nat} {size : Spirv.VectorSize}
    (h : Written.vectorSize count = .ok size) : size.toNat = count := by
  rw [Written.vectorSize] at h
  split at h
  · rename_i size' hsize
    cases h
    exact Spirv.VectorSize.ofNat?_eq_some_iff.1 hsize
  · cases h

theorem vector_of_ofVector {count : Nat} {tree : TypeTree} (hcount : count ≠ 1)
    (h : Written.ofVector options rule none elem count = .ok tree) :
    ∃ size : Spirv.VectorSize, size.toNat = count ∧
      tree = Written.plain (.vector size (elem.stored options rule none)) := by
  rw [Written.ofVector, if_neg hcount] at h
  obtain ⟨size, hsize, h⟩ := bind_eq_ok_iff.1 h
  cases h
  exact ⟨size, size_of_vectorSize hsize, rfl⟩

/-- The components of a vector, one after the other. -/
theorem spans_ofVector {count : Nat} {tree : TypeTree} {storage : Option MatrixStorage}
    (helem : elem.isSized = true) (hrule : rule ≠ .unlaid)
    (h : Written.ofVector options rule none elem count = .ok tree) :
    tree.spans storage
      = some (Span.every count (elem.bytes options) [⟨0, elem.bytes options⟩]) := by
  by_cases hcount : count = 1
  · rw [Written.ofVector, if_pos hcount] at h
    cases h
    rw [hcount, Span.every_one]
    exact stored_spans helem hrule
  · obtain ⟨size, rfl, rfl⟩ := vector_of_ofVector hcount h
    exact stored_vectorSpans helem hrule size

theorem within_ofVector {count : Nat} {tree : TypeTree} {x : Extent}
    {storage : Option MatrixStorage} (helem : elem.isSized = true) (hrule : rule ≠ .unlaid)
    (h : Written.ofVector options rule none elem count = .ok tree)
    (hx : Extent.ofVector options rule elem count = .ok x) :
    ∃ spans, tree.spans storage = some spans ∧ Span.Within 0 x.size spans := by
  refine ⟨_, spans_ofVector helem hrule h, ?_⟩
  rw [Extent.size_ofVector hx]
  exact (Span.within_singleton _).every (Nat.le_refl _) fun _ hi =>
    Span.mul_add_le_mul hi (Nat.le_refl _)

/-- A floating-point matrix, stored as its decorations say. -/
theorem within_ofMatrix_of_isFloat {rows cols : Nat} {o : Orientation} {tree : TypeTree}
    {x : Extent} (helem : elem.isSized = true) (hrule : rule ≠ .unlaid)
    (h1 : ¬(rows = 1 ∨ cols = 1)) (hfloat : elem.isFloat = true)
    (h : Written.ofMatrix options rule o none elem rows cols = .ok tree)
    (hx : Extent.ofMatrix options rule elem rows cols (o.byRows options) = .ok x) :
    ∃ spans, tree.spans (some (storageOf (x.stride, o.byRows options))) = some spans ∧
      Span.Within 0 x.size spans := by
  obtain ⟨hstride, hsize⟩ := Extent.stride_ofMatrix h1 hx
  rw [not_or] at h1
  rw [Written.ofMatrix, if_neg (not_or.2 h1)] at h
  obtain ⟨row, hrow, h⟩ := bind_eq_ok_iff.1 h
  rw [if_pos hfloat] at h
  obtain ⟨columns, hcolumns, h⟩ := bind_eq_ok_iff.1 h
  cases h
  obtain ⟨size, hcols, rfl⟩ := vector_of_ofVector h1.2 hrow
  have hrows := size_of_vectorSize hcolumns
  -- the stored vectors are the source rows or the source columns; the emitted matrix has them
  -- the other way round, and so do the decorations
  cases hbyRows : o.byRows options with
  | true =>
    rw [hbyRows] at hstride hsize
    simp only [if_true] at hstride hsize
    refine ⟨_, congrArg (Option.map _) (stored_vectorSpans helem hrule size), ?_⟩
    rw [hsize, hcols, hrows]
    have hle : cols * elem.bytes options ≤ x.stride :=
      hstride ▸ Extent.le_vectorStride rule _ cols
    rw [← hcols] at hle ⊢
    exact size.within_every_vector hle fun _ hi => Span.mul_add_le_mul hi hle
  | false =>
    rw [hbyRows] at hstride hsize
    simp only [Bool.false_eq_true, if_false] at hstride hsize
    refine ⟨_, congrArg (Option.map _) (stored_vectorSpans helem hrule columns), ?_⟩
    rw [hsize, hcols, hrows]
    have hle : rows * elem.bytes options ≤ x.stride :=
      hstride ▸ Extent.le_vectorStride rule _ rows
    rw [← hrows] at hle ⊢
    exact columns.within_every_vector hle fun _ hi => Span.mul_add_le_mul hi hle

/-- Any other matrix is an array of its rows at the stride of the layout. -/
theorem rows_of_ofMatrix {rows cols : Nat} {o : Orientation} {tree : TypeTree} {x : Extent}
    (hrule : rule ≠ .unlaid) (h1 : ¬(rows = 1 ∨ cols = 1)) (hfloat : elem.isFloat = false)
    (h : Written.ofMatrix options rule o none elem rows cols = .ok tree)
    (hx : Extent.ofMatrix options rule elem rows cols (o.byRows options) = .ok x) :
    ∃ size : Spirv.VectorSize, size.toNat = cols ∧
      tree = .node none (.array
        (Written.plain (.vector size (elem.stored options rule none))) rows)
        [.arrayStride x.stride] := by
  rw [Written.ofMatrix, if_neg h1] at h
  obtain ⟨row, hrow, h⟩ := bind_eq_ok_iff.1 h
  rw [hfloat, if_neg (by simp), Written.strideOf, if_neg hrule, extentAt, hx] at h
  obtain ⟨size, hcols, rfl⟩ := vector_of_ofVector (fun hc => h1 (Or.inr hc)) hrow
  cases h
  exact ⟨size, hcols, rfl⟩

/-- A matrix that is emitted as an array of its rows has an extent. -/
theorem extent_of_ofMatrix {rows cols : Nat} {o : Orientation} {tree : TypeTree}
    (hrule : rule ≠ .unlaid) (h1 : ¬(rows = 1 ∨ cols = 1)) (hfloat : elem.isFloat = false)
    (h : Written.ofMatrix options rule o none elem rows cols = .ok tree) :
    ∃ x, Extent.ofMatrix options rule elem rows cols (o.byRows options) = .ok x := by
  rw [Written.ofMatrix, if_neg h1] at h
  obtain ⟨row, -, h⟩ := bind_eq_ok_iff.1 h
  rw [hfloat, if_neg (by simp), Written.strideOf, if_neg hrule, extentAt] at h
  obtain ⟨ds, hds, -⟩ := bind_eq_ok_iff.1 h
  obtain ⟨x, hx, -⟩ := bind_eq_ok_iff.1 hds
  exact ⟨x, Written.ofChecked_eq_ok_iff.1 hx⟩

/-- The rows of an emitted array of rows keep apart and within the extent exactly if they fit. -/
theorem within_rowSpans_iff {rows cols : Nat} {o : Orientation} {tree : TypeTree} {x : Extent}
    (helem : elem.isSized = true) (hrule : rule ≠ .unlaid) (hrows : 2 ≤ rows ∧ rows ≤ 4)
    (hcols : 2 ≤ cols ∧ cols ≤ 4) (hfloat : elem.isFloat = false)
    (h : Written.ofMatrix options rule o none elem rows cols = .ok tree)
    (hx : Extent.ofMatrix options rule elem rows cols (o.byRows options) = .ok x) :
    ∃ spans, tree.rowSpans = some spans ∧ spans.length = rows ∧
      (Span.Within 0 x.size spans
        ↔ rowsFit rule (elem.bytes options) rows cols (o.byRows options) = true) := by
  have h1 : ¬(rows = 1 ∨ cols = 1) := by omega
  obtain ⟨-, hwidth⟩ := Source.Scalar.stored_of_isSized options helem hrule
  have hbytes := Source.Scalar.bytes_of_isSized options helem
  obtain ⟨size, rfl, rfl⟩ := rows_of_ofMatrix hrule h1 hfloat h hx
  obtain ⟨hstride, hsize⟩ := Extent.stride_ofMatrix h1 hx
  refine ⟨_, rfl, by simp [Span.every], ?_⟩
  rw [hwidth, rowsFit_iff hbytes hrows hcols hstride, hsize]
  exact Span.within_every_singleton_iff (Nat.mul_pos (by omega) (by omega)) (by omega)

end

/-! ## Types -/

/-- The storage that the decorations outside give to the matrices of a type, if it is a matrix or
an array of such. -/
def StoredAs (options : Options) (rule : Rule) (ty : Ty) (o : Orientation)
    (storage : Option MatrixStorage) : Prop :=
  ty.isFloatMatrixArray = true → ∃ x, extentAt options rule (innermost ty o).1 (innermost ty o).2
    = .ok x ∧ storage = some (storageOf (x.stride, (innermost ty o).2.byRows options))

theorem storedAs_of_matrixStride? {ty : Ty} {matrix : Option (Nat × Bool)}
    (h : matrixStride? options rule ty = .ok matrix) :
    StoredAs options rule ty {} (matrix.map storageOf) := by
  intro hfloat
  rw [matrixStride?, if_pos hfloat] at h
  obtain ⟨x, hx, h⟩ := bind_eq_ok_iff.1 h
  cases h
  exact ⟨x, hx, rfl⟩

/-- What the components of a type do under a rule, wherever it stands: they keep apart and within
the extent. -/
def FitsAt (options : Options) (rule : Rule) (ty : Ty) (o : Orientation) : Prop :=
  ∀ tree x storage, Written.ofTy options ty rule o none = .ok tree →
    extentAt options rule ty o = .ok x → StoredAs options rule ty o storage →
    ∃ spans, tree.spans storage = some spans ∧ Span.Within 0 x.size spans

theorem fitsAt_matrix {elem : Scalar} {rows cols : Nat} {o : Orientation} (hrule : rule ≠ .unlaid)
    (hplain : (Ty.matrix elem rows cols).isPlainData = true)
    (hfits : matrixFits options rule o elem rows cols = true) :
    FitsAt options rule (.matrix elem rows cols) o := by
  intro tree x storage htree hx hstorage
  simp only [Ty.isPlainData, Bool.and_eq_true, decide_eq_true_eq] at hplain
  obtain ⟨⟨helem, hrows⟩, hcols⟩ := hplain
  rw [Written.ofTy] at htree
  rw [extentAt] at hx
  by_cases h1 : rows = 1 ∨ cols = 1
  · -- emitted and laid out as a vector
    rw [Written.ofMatrix, if_pos h1] at htree
    have hx' := Extent.ofMatrix_of_one h1 hx
    cases hmul : Word.mul rows cols with
    | error f =>
      rw [hmul] at htree
      cases htree
    | ok n =>
      rw [hmul] at htree
      rw [← (Word.mul_eq_ok_iff.1 hmul).1] at hx'
      exact within_ofVector helem hrule htree hx'
  · by_cases hfloat : elem.isFloat = true
    · -- emitted as a matrix, stored as the decorations outside say
      obtain ⟨y, hy, rfl⟩ := hstorage (by
        simp only [Ty.isFloatMatrixArray, Ty.isFloatMatrix, Ty.shape, hfloat, Bool.true_and,
          Bool.and_eq_true, decide_eq_true_eq]
        omega)
      have hxy : extentAt options rule (.matrix elem rows cols) o = .ok y := hy
      rw [extentAt, hx] at hxy
      cases hxy
      exact within_ofMatrix_of_isFloat helem hrule h1 hfloat htree hx
    · -- emitted as an array of rows, for which the room was asked for
      rw [Bool.not_eq_true] at hfloat
      have hbytes := Source.Scalar.bytes_of_isSized options helem
      obtain ⟨hstride, hsize⟩ := Extent.stride_ofMatrix h1 hx
      have hfit : rowsFit rule (elem.bytes options) rows cols (o.byRows options) = true := by
        rw [not_or] at h1
        simpa [matrixFits, hfloat, h1.1, h1.2] using hfits
      rw [rowsFit_iff hbytes (by omega) (by omega) hstride, ← hsize] at hfit
      obtain ⟨size, hcount, rfl⟩ := rows_of_ofMatrix hrule h1 hfloat htree hx
      refine ⟨_, congrArg (Option.map (Span.every rows x.stride))
        (stored_vectorSpans helem hrule size), ?_⟩
      rw [← hcount] at hfit
      refine size.within_every_vector hfit.1 fun i hi => ?_
      have hle : i * x.stride ≤ (rows - 1) * x.stride := Nat.mul_le_mul_right _ (by omega)
      omega

/-- The elements of an array stand at its stride. -/
theorem fitsAt_array {elem : Ty} {length : Nat} {o : Orientation} (hrule : rule ≠ .unlaid)
    (hplain : elem.isPlainData = true) (hfits : FitsAt options rule elem o.element) :
    FitsAt options rule (.array elem (some length)) o := by
  intro tree x storage htree hx hstorage
  rw [Written.ofTy] at htree
  obtain ⟨base, hbase, htree⟩ := bind_eq_ok_iff.1 htree
  have hx' := hx
  rw [extentAt] at hx'
  obtain ⟨y, hy, hx'⟩ := bind_eq_ok_iff.1 hx'
  obtain ⟨hroom, hlast⟩ := Extent.room_ofArray hx'
  obtain ⟨spans, hspans, hwithin⟩ := hfits base y storage hbase hy hstorage
  rw [Written.ofArray, elem.isResourceArray_of_isPlainData hplain, Written.strideOf,
    if_neg hrule, hx] at htree
  cases htree
  exact ⟨_, congrArg (Option.map (Span.every length x.stride)) hspans, hwithin.every hroom hlast⟩

theorem partFits_of_fitsAt {part : Field} {tree : TypeTree}
    (htree : Written.ofTy options part.ty rule {} none = .ok tree)
    (hfits : FitsAt options rule part.ty {}) : PartFits options rule part tree :=
  fun x matrix hx hmatrix =>
    hfits tree x (matrix.map storageOf) htree hx (storedAs_of_matrixStride? hmatrix)

/-- The members of a structure stand at their offsets. -/
theorem within_ofRecord {name : String} {parts : List Field} {trees : List TypeTree}
    {tree : TypeTree} {layout : RecordLayout} {ms : List Unplaced} {storage : Option MatrixStorage}
    (hrule : rule ≠ .unlaid)
    (htree : Written.ofRecord options name parts trees rule .plain = .ok tree)
    (hms : unplacedParts options rule parts = .ok ms) (hlayout : RecordLayout.of rule ms = .ok layout)
    (hfit : List.Forall₂ (PartFits options rule) parts trees) :
    ∃ spans, tree.spans storage = some spans ∧ Span.Within 0 layout.extent.size spans := by
  obtain ⟨ds, hds, htree⟩ := bind_eq_ok_iff.1 htree
  cases htree
  rw [Written.layoutDecorations, if_neg hrule, hms] at hds
  obtain ⟨layout', hlayout', hds⟩ := bind_eq_ok_iff.1 hds
  -- the decorations come from the same layout as the extent
  have hsame : RecordLayout.of rule ms = .ok layout' := Written.ofChecked_eq_ok_iff.1 hlayout'
  rw [hlayout] at hsame
  cases hsame
  have hds' := Written.ofChecked_eq_ok_iff.1 hds
  obtain ⟨stop, hplaced, hstop⟩ := RecordLayout.of_spec hlayout
  obtain ⟨spans, hspans, hwithin⟩ := within_members hfit hms hplaced hds'
  refine ⟨spans, ?_, hwithin.mono (Nat.le_refl 0) hstop⟩
  show (Written.members parts trees).spans (ds ++ []) 0 = some spans
  rw [List.append_nil]
  exact hspans

/-- A structure whose parts fit. -/
theorem fitsAt_struct {name : String} {base : OptionalTy} {fields : Fields} {o : Orientation}
    (hrule : rule ≠ .unlaid)
    (hbase : ∀ trees, Written.ofBase options base rule = .ok trees →
      List.Forall₂ (PartFits options rule) (Record.parts ⟨name, base, .nil⟩) trees)
    (hfields : ∀ trees, Written.ofFields options fields rule = .ok trees →
      List.Forall₂ (PartFits options rule) fields.toList trees) :
    FitsAt options rule (.struct name base fields) o := by
  intro tree x storage htree hx hstorage
  rw [Written.ofTy] at htree
  obtain ⟨inherited, hinherited, htree⟩ := bind_eq_ok_iff.1 htree
  obtain ⟨own, hown, htree⟩ := bind_eq_ok_iff.1 htree
  have hparts : Record.parts ⟨name, base, fields⟩
      = Record.parts ⟨name, base, .nil⟩ ++ fields.toList := by
    cases base <;> rfl
  have hfit : List.Forall₂ (PartFits options rule) (Record.parts ⟨name, base, fields⟩)
      (inherited ++ own) :=
    hparts ▸ List.rel_append (hbase inherited hinherited) (hfields own hown)
  rw [extentAt] at hx
  obtain ⟨first, hfirst, hx⟩ := bind_eq_ok_iff.1 hx
  obtain ⟨rest, hrest, hx⟩ := bind_eq_ok_iff.1 hx
  obtain ⟨layout, hlayout, hx⟩ := bind_eq_ok_iff.1 hx
  cases hx
  have hms : unplacedParts options rule (Record.parts ⟨name, base, fields⟩) =
      .ok (first ++ rest) := by
    rw [unplacedParts_parts, unplaced, hfirst, hrest]
    rfl
  exact within_ofRecord hrule htree hms hlayout hfit

mutual

/-- The components of plain data keep apart and within its extent, if those of each of its matrices
do. -/
theorem fitsAt_of_everyMatrix (hrule : rule ≠ .unlaid) : (ty : Ty) → (o : Orientation) →
    ty.isPlainData = true → ty.everyMatrix (matrixFits options rule) o = true →
    FitsAt options rule ty o
  | .scalar elem, o, hplain, _ => by
    intro tree x storage htree hx _
    rw [Written.ofTy] at htree
    rw [extentAt] at hx
    cases htree
    cases hx
    exact ⟨_, stored_spans hplain hrule, Span.within_singleton _⟩
  | .vector elem count, o, hplain, _ => by
    intro tree x storage htree hx _
    rw [Ty.isPlainData, Bool.and_eq_true] at hplain
    rw [Written.ofTy] at htree
    rw [extentAt] at hx
    exact within_ofVector hplain.1 hrule htree hx
  | .matrix elem rows cols, o, hplain, hfits => fitsAt_matrix hrule hplain hfits
  | .array elem (some length), o, hplain, hfits =>
    fitsAt_array hrule hplain (fitsAt_of_everyMatrix hrule elem o.element hplain hfits)
  | .struct name base fields, o, hplain, hfits => by
    rw [Ty.isPlainData, Bool.and_eq_true] at hplain
    rw [Ty.everyMatrix, Bool.and_eq_true] at hfits
    exact fitsAt_struct hrule (partFits_ofBase hrule name base hplain.1 hfits.1)
      (partFits_ofFields hrule fields hplain.2 hfits.2)
  | .alias name target, o, hplain, hfits => by
    intro tree x storage htree hx hstorage
    rw [Written.ofTy] at htree
    rw [extentAt] at hx
    exact fitsAt_of_everyMatrix hrule target o hplain hfits tree x storage htree hx hstorage
  | .oriented order target, o, hplain, hfits => by
    intro tree x storage htree hx hstorage
    rw [Written.ofTy] at htree
    rw [extentAt] at hx
    exact fitsAt_of_everyMatrix hrule target (o.annotate order) hplain hfits tree x storage htree hx
      hstorage

theorem partFits_ofBase (hrule : rule ≠ .unlaid) (name : String) : (base : OptionalTy) →
    base.isPlainData = true → base.everyMatrix (matrixFits options rule) = true →
    (trees : List TypeTree) → Written.ofBase options base rule = .ok trees →
    List.Forall₂ (PartFits options rule) (Record.parts ⟨name, base, .nil⟩) trees
  | .absent, _, _, trees, h => by
    cases h
    exact .nil
  | .present ty, hplain, hfits, trees, h => by
    rw [Written.ofBase] at h
    obtain ⟨tree, htree, h⟩ := bind_eq_ok_iff.1 h
    cases h
    exact .cons (partFits_of_fitsAt htree (fitsAt_of_everyMatrix hrule ty {} hplain hfits)) .nil

theorem partFits_ofFields (hrule : rule ≠ .unlaid) : (fields : Fields) →
    fields.arePlainData = true → fields.everyMatrix (matrixFits options rule) = true →
    (trees : List TypeTree) → Written.ofFields options fields rule = .ok trees →
    List.Forall₂ (PartFits options rule) fields.toList trees
  | .nil, _, _, trees, h => by
    cases h
    exact .nil
  | .cons name ty attributes position rest, hplain, hfits, trees, h => by
    rw [Fields.arePlainData, Bool.and_eq_true] at hplain
    rw [Fields.everyMatrix, Bool.and_eq_true] at hfits
    rw [Written.ofFields] at h
    obtain ⟨tree, htree, h⟩ := bind_eq_ok_iff.1 h
    obtain ⟨others, hothers, h⟩ := bind_eq_ok_iff.1 h
    cases h
    have hfirst := fitsAt_of_everyMatrix hrule ty {} hplain.1 hfits.1
    exact .cons (partFits_of_fitsAt htree hfirst)
      (partFits_ofFields hrule rest hplain.2 hfits.2 others hothers)

end

end ShaderLowering.Layout
