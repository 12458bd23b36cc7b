import ShaderLowering.Proofs.Layout.Slots

/-!
# Rules compared

Some rules are looser than others: they ask for no alignment that the other one does not ask for as
well (`Rule.Looser`).  A looser rule takes no more room for any data, its alignment divides the other
one, and no member of a structure stands further back (`looser_takes_no_more_room`).

The arguments about scalars, vectors, matrices and arrays compare two numbers.  Members take more:
the relaxed rules move a vector that would straddle a slot, so that a member is not placed at the
next multiple of its alignment.  It is however always placed at the first offset that the rule admits
(`Admits`, `exists_naturalOffset_le`), and what the other rule admits the looser one admits too
(`Beside.admits`).  So a looser rule that starts no later places every member no later.
-/

namespace ShaderLowering

/-- Rounding up stops at every multiple on the way. -/
theorem Word.exists_roundUp_le {value alignment r : Nat} (hpos : 0 < alignment)
    (hr : alignment ∣ r) (hle : value ≤ r) (hbound : r < Word.bound) :
    ∃ k, Word.roundUp value alignment = .ok k ∧ alignment ∣ k ∧ value ≤ k ∧ k ≤ r := by
  obtain ⟨c, rfl⟩ := hr
  have hquotient : (value + (alignment - 1)) / alignment ≤ c := by
    rw [Nat.div_le_iff_le_mul_add_pred hpos]
    omega
  have hk : (value + (alignment - 1)) / alignment * alignment ≤ alignment * c := by
    rw [Nat.mul_comm]
    exact Nat.mul_le_mul_left alignment hquotient
  have hround : Word.roundUp value alignment
      = .ok ((value + (alignment - 1)) / alignment * alignment) := by
    rw [Word.roundUp, if_neg (by omega), Word.mul_eq_ok_iff]
    exact ⟨rfl, by omega⟩
  obtain ⟨hdvd, hvalue, -, -⟩ := (Word.roundUp_eq_ok_iff hpos).1 hround
  exact ⟨_, hround, hdvd, hvalue, hk⟩

namespace Layout

open Source (Ty OptionalTy Fields Field Record Scalar)

variable {options : Options} {rule rule' : Rule}

/-! ## Looser rules -/

/-- The first rule asks for no more than the second one. -/
inductive Rule.Looser : Rule → Rule → Prop
  | scalar_relaxedStd430 : Looser .scalar .relaxedStd430
  | relaxedStd430_std430 : Looser .relaxedStd430 .std430
  | std430_std140 : Looser .std430 .std140
  | relaxedStd430_relaxedStd140 : Looser .relaxedStd430 .relaxedStd140
  | relaxedStd140_std140 : Looser .relaxedStd140 .std140
  | registerConstant_relaxedStd140 : Looser .registerConstant .relaxedStd140

namespace Rule.Looser

/-- The rule that asks for more pads arrays, matrices and structures, and aligns vectors. -/
theorem padded (h : rule.Looser rule') :
    rule'.isTight = false ∧ rule'.padsTail = true ∧ rule'.alignsToElement = false ∧
      rule' ≠ .registerConstant ∧ rule' ≠ .scalar := by
  cases h <;> decide

theorem roundsAggregates (h : rule.Looser rule') (hrounds : rule.roundsAggregates = true) :
    rule'.roundsAggregates = true := by
  revert hrounds
  cases h <;> decide

/-- Below a relaxed rule, vectors are placed at their components or have their alignment. -/
theorem alignsToElement (h : rule.Looser rule') (hrelaxed' : rule'.isRelaxed = true)
    (hrelaxed : rule.isRelaxed = false) : rule.alignsToElement = true := by
  revert hrelaxed' hrelaxed
  cases h <;> decide

end Rule.Looser

/-! ## Extents -/

/-- The first extent takes no more room, and stands wherever the second one may. -/
structure Extent.NoLarger (x x' : Extent) : Prop where
  size : x.size ≤ x'.size
  alignment : x.alignment ∣ x'.alignment

namespace Extent

variable {elem : Scalar} {count : Nat}

theorem ofVector_eq (helem : elem.isSized = true) (hcount : 1 ≤ count ∧ count ≤ 4) :
    ofVector options rule elem count
      = .ok (solid (vectorAlignment rule (elem.bytes options) count)
          (count * elem.bytes options)) := by
  have hbytes : elem.bytes options ≤ 8 := by
    have := elem.bytes_of_isSized options helem
    omega
  have hlanes : lanes count ≤ 4 := by
    rw [lanes]
    split <;> omega
  have hmul : ∀ n ≤ 4, Word.mul (elem.bytes options) n = .ok (elem.bytes options * n) := by
    intro n hn
    have hle : elem.bytes options * n ≤ 8 * 4 := Nat.mul_le_mul hbytes hn
    exact Word.mul_eq_ok_iff.2 ⟨rfl, Nat.lt_of_le_of_lt hle (by decide)⟩
  rw [ofVector, vectorAlignment]
  by_cases h1 : count = 1
  · rw [if_pos h1, if_pos (.inl h1), h1, Nat.one_mul]
    rfl
  · rw [if_neg h1]
    dsimp only
    rw [hmul count hcount.2, hmul _ hlanes, Nat.mul_comm count]
    by_cases helement : rule.alignsToElement = true
    · rw [if_pos helement, if_pos (.inr helement)]
      rfl
    · rw [if_neg helement, if_neg (not_or.2 ⟨h1, helement⟩)]
      rfl

/-- What a vector is aligned to divides its size, rounded to a power of two. -/
theorem vectorAlignment_dvd (rule : Rule) (bytes count : Nat) :
    bytes ∣ vectorAlignment rule bytes count ∧
      vectorAlignment rule bytes count ∣ bytes * lanes count := by
  rw [vectorAlignment]
  split
  · exact ⟨Nat.dvd_refl _, Nat.dvd_mul_right _ _⟩
  · exact ⟨Nat.dvd_mul_right _ _, Nat.dvd_refl _⟩

theorem vectorAlignment_dvd_vectorAlignment (hrule : rule'.alignsToElement = false)
    (rule : Rule) (bytes count : Nat) :
    vectorAlignment rule bytes count ∣ vectorAlignment rule' bytes count := by
  by_cases h1 : count = 1
  · rw [vectorAlignment, vectorAlignment, if_pos (.inl h1), if_pos (.inl h1)]
  · have hnot : ¬(count = 1 ∨ rule'.alignsToElement = true) := by
      rw [hrule]
      simpa using h1
    rw [show vectorAlignment rule' bytes count = bytes * lanes count by
      rw [vectorAlignment, if_neg hnot]]
    exact (vectorAlignment_dvd rule bytes count).2

/-- A vector takes the same room under all rules, and its alignment under a looser one divides. -/
theorem exists_ofVector (hrule : rule.Looser rule') {x' : Extent} (helem : elem.isSized = true)
    (hcount : 1 ≤ count ∧ count ≤ 4) (hx' : ofVector options rule' elem count = .ok x') :
    ∃ x, ofVector options rule elem count = .ok x ∧ x.NoLarger x' := by
  rw [ofVector_eq helem hcount] at hx'
  cases hx'
  refine ⟨_, ofVector_eq helem hcount, Nat.le_refl _, ?_⟩
  exact vectorAlignment_dvd_vectorAlignment hrule.padded.2.2.1 rule _ _

/-- The alignment of an aggregate, as a number. -/
def aggregated (rule : Rule) (a : Nat) : Nat :=
  if rule.roundsAggregates then (a + 15) / 16 * 16 else a

theorem aggregateAlignment_eq {a : Nat} (ha : IsAlignment a) :
    aggregateAlignment rule a = .ok (aggregated rule a) := by
  rw [aggregateAlignment, aggregated]
  split
  · rcases ha.cases with rfl | rfl | rfl | rfl | rfl | rfl <;> rfl
  · rfl

theorem isAlignment_aggregated (rule : Rule) {a : Nat} (ha : IsAlignment a) :
    IsAlignment (aggregated rule a) ∧ a ∣ aggregated rule a := by
  have heq : aggregateAlignment rule a = .ok (aggregated rule a) := aggregateAlignment_eq ha
  obtain ⟨halignment, hdvd, -⟩ := aggregateAlignment_spec ha heq
  exact ⟨halignment, hdvd⟩

/-- A looser rule rounds fewer aggregates, and those that it rounds no further. -/
theorem aggregated_dvd (hrule : rule.Looser rule') {a a' : Nat} (ha' : IsAlignment a')
    (hdvd : a ∣ a') : aggregated rule a ∣ aggregated rule' a' := by
  have ha : IsAlignment a := Nat.dvd_trans hdvd ha'
  have hle : a ≤ a' := Nat.le_of_dvd ha'.pos hdvd
  refine (isAlignment_aggregated rule ha).1.dvd_of_le (isAlignment_aggregated rule' ha').1 ?_
  rw [aggregated, aggregated]
  by_cases hrounds : rule.roundsAggregates = true
  · rw [if_pos hrounds, if_pos (hrule.roundsAggregates hrounds)]
    omega
  · rw [if_neg hrounds]
    split <;> omega

/-- What a matrix with several rows and columns is aligned to. -/
def matrixAlignment (rule : Rule) (bytes width : Nat) : Nat :=
  if rule.isTight then bytes else aggregated rule (bytes * lanes width)

theorem vectorStride_of_padded (hrule : ¬rule.isTight = true) (bytes width : Nat) :
    vectorStride rule bytes width = aggregated rule (bytes * lanes width) := by
  rw [vectorStride, if_neg hrule, aggregated]

theorem ofMatrix_eq {rows cols : Nat} {byRows : Bool} (helem : elem.isSized = true)
    (hrows : 1 ≤ rows ∧ rows ≤ 4) (hcols : 1 ≤ cols ∧ cols ≤ 4) (h1 : ¬(rows = 1 ∨ cols = 1)) :
    ofMatrix options rule elem rows cols byRows
      = .ok ⟨matrixAlignment rule (elem.bytes options) (if byRows then cols else rows),
        (if byRows then rows else cols)
          * vectorStride rule (elem.bytes options) (if byRows then cols else rows),
        vectorStride rule (elem.bytes options) (if byRows then cols else rows)⟩ := by
  have hbytes := elem.bytes_of_isSized options helem
  have hmul : ∀ m n, m ≤ 16 → n ≤ 32 → Word.mul m n = .ok (m * n) := by
    intro m n hm hn
    have hle : m * n ≤ 16 * 32 := Nat.mul_le_mul hm hn
    exact Word.mul_eq_ok_iff.2 ⟨rfl, Nat.lt_of_le_of_lt hle (by decide)⟩
  have hproduct : rows * cols ≤ 4 * 4 := Nat.mul_le_mul hrows.2 hcols.2
  -- `count` vectors of `width` components are stored one after the other
  have hstored : rows * cols
      = (if byRows then rows else cols) * (if byRows then cols else rows) := by
    cases byRows
    · exact Nat.mul_comm rows cols
    · rfl
  have hwidth : 1 ≤ (if byRows then cols else rows) ∧ (if byRows then cols else rows) ≤ 4 := by
    split <;> omega
  have hcount : (if byRows then rows else cols) ≤ 4 := by
    split <;> omega
  rw [ofMatrix, if_neg h1]
  dsimp only
  generalize (if byRows then cols else rows) = width at hstored hwidth ⊢
  generalize (if byRows then rows else cols) = count at hstored hcount ⊢
  have halignment := isAlignment_mul_lanes hbytes hwidth
  have hlanes : lanes width ≤ 4 := by
    rw [lanes]
    split <;> omega
  by_cases htight : rule.isTight = true
  · rw [if_pos htight, hmul rows cols (by omega) (by omega),
      matrixAlignment, if_pos htight, vectorStride, if_pos htight, ← Nat.mul_assoc, ← hstored]
    show (Word.mul (rows * cols) _ >>= fun size => _) = _
    rw [hmul _ _ (by omega) (by omega), hmul width _ (by omega) (by omega)]
    rfl
  · have hrounded := (isAlignment_aggregated rule halignment).1
    rw [if_neg htight, hmul _ _ (by omega) (by omega),
      matrixAlignment, if_neg htight, vectorStride_of_padded htight]
    show (aggregateAlignment rule _ >>= fun alignment => _) = _
    rw [aggregateAlignment_eq halignment]
    show (Word.mul count _ >>= fun size => _) = _
    rw [hmul _ _ (by omega) (Nat.le_of_dvd (by decide) hrounded)]
    rfl

/-- Under a looser rule the vectors of a matrix stand closer, and its alignment divides. -/
theorem vectorStride_le (hrule : rule.Looser rule') {bytes width : Nat}
    (halignment : IsAlignment (bytes * lanes width)) :
    vectorStride rule bytes width ≤ vectorStride rule' bytes width ∧
      matrixAlignment rule bytes width ∣ matrixAlignment rule' bytes width := by
  have htight' : ¬rule'.isTight = true := by
    rw [hrule.padded.1]
    decide
  have hrounding' := isAlignment_aggregated rule' halignment
  by_cases htight : rule.isTight = true
  · -- nothing is padded
    rw [matrixAlignment, if_pos htight, matrixAlignment, if_neg htight', vectorStride,
      if_pos htight]
    refine ⟨?_, Nat.dvd_trans (Nat.dvd_mul_right _ _) hrounding'.2⟩
    exact le_vectorStride rule' bytes width
  · have hdvd := aggregated_dvd hrule halignment (Nat.dvd_refl _)
    rw [vectorStride_of_padded htight, vectorStride_of_padded htight', matrixAlignment,
      if_neg htight, matrixAlignment, if_neg htight']
    exact ⟨Nat.le_of_dvd hrounding'.1.pos hdvd, hdvd⟩

/-- A matrix takes no more room under a looser rule. -/
theorem exists_ofMatrix (hrule : rule.Looser rule') {rows cols : Nat} {byRows : Bool}
    {x' : Extent} (helem : elem.isSized = true) (hrows : 1 ≤ rows ∧ rows ≤ 4)
    (hcols : 1 ≤ cols ∧ cols ≤ 4) (hx' : ofMatrix options rule' elem rows cols byRows = .ok x') :
    ∃ x, ofMatrix options rule elem rows cols byRows = .ok x ∧ x.NoLarger x' := by
  by_cases h1 : rows = 1 ∨ cols = 1
  · have hcount : 1 ≤ rows * cols ∧ rows * cols ≤ 4 := by
      rcases h1 with rfl | rfl <;> omega
    have hproduct : Word.mul rows cols = .ok (rows * cols) :=
      Word.mul_eq_ok_iff.2 ⟨rfl, Nat.lt_of_le_of_lt hcount.2 (by decide)⟩
    obtain ⟨x, hx, hle⟩ := exists_ofVector hrule helem hcount (ofMatrix_of_one h1 hx')
    refine ⟨x, ?_, hle⟩
    rw [ofMatrix, if_pos h1, hproduct]
    exact hx
  · have hwidth : 1 ≤ (if byRows then cols else rows) ∧ (if byRows then cols else rows) ≤ 4 := by
      split <;> omega
    rw [ofMatrix_eq helem hrows hcols h1] at hx'
    cases hx'
    obtain ⟨hstride, halignment⟩ := vectorStride_le hrule
      (isAlignment_mul_lanes (elem.bytes_of_isSized options helem) hwidth)
    exact ⟨_, ofMatrix_eq helem hrows hcols h1, Nat.mul_le_mul_left _ hstride, halignment⟩

/-- A padded array has an aligned room for its elements at an aligned stride. -/
theorem padded_ofArray (htight : rule.isTight = false) (hregister : rule ≠ .registerConstant)
    {element x : Extent} {length : Option Nat} (helement : IsAlignment element.alignment)
    (hx : ofArray rule element length = .ok x) :
    x.alignment = aggregated rule element.alignment ∧ element.size ≤ x.stride ∧
      x.alignment ∣ x.stride ∧ x.stride < Word.bound ∧
      x.stride * length.getD 0 ≤ x.size ∧ x.alignment ∣ x.size ∧ x.size < Word.bound := by
  have hpos := (isAlignment_aggregated rule helement).1.pos
  rw [ofArray, htight, if_neg (by decide), aggregateAlignment_eq helement] at hx
  obtain ⟨alignment, halignment, hx⟩ := bind_eq_ok_iff.1 hx
  cases halignment
  obtain ⟨stride, hstride, hx⟩ := bind_eq_ok_iff.1 hx
  rw [if_neg hregister] at hx
  obtain ⟨room, hroom, hx⟩ := bind_eq_ok_iff.1 hx
  obtain ⟨size, hsize, hx⟩ := bind_eq_ok_iff.1 hx
  cases hx
  obtain ⟨rfl, -⟩ := Word.mul_eq_ok_iff.1 hroom
  obtain ⟨hstrideDvd, hstrideLe, -, hstrideBound⟩ := (Word.roundUp_eq_ok_iff hpos).1 hstride
  obtain ⟨hsizeDvd, hsizeLe, -, hsizeBound⟩ := (Word.roundUp_eq_ok_iff hpos).1 hsize
  exact ⟨rfl, hstrideLe, hstrideDvd, hstrideBound, hsizeLe, hsizeDvd, hsizeBound⟩

/-- Where there is an aligned room for the elements at an aligned stride, an array has an extent
that fits there. -/
theorem exists_ofArray_le {element : Extent} {length : Option Nat} {stride' room : Nat}
    (helement : IsAlignment element.alignment) (hsize : element.size ≤ stride')
    (hstride' : aggregated rule element.alignment ∣ stride') (hstrideBound : stride' < Word.bound)
    (hwhole : stride' * length.getD 0 ≤ room) (hroom : aggregated rule element.alignment ∣ room)
    (hroomBound : room < Word.bound) :
    ∃ x, ofArray rule element length = .ok x ∧ x.size ≤ room ∧
      x.alignment ∣ aggregated rule element.alignment := by
  have hrounding := isAlignment_aggregated rule helement
  rw [ofArray]
  generalize length.getD 0 = count at hwhole ⊢
  by_cases htight : rule.isTight = true
  · -- the elements follow each other
    have hle : element.size * count ≤ stride' * count := Nat.mul_le_mul_right count hsize
    have hproduct : Word.mul element.size count = .ok (element.size * count) :=
      Word.mul_eq_ok_iff.2 ⟨rfl, by omega⟩
    rw [if_pos htight, hproduct]
    exact ⟨_, rfl, Nat.le_trans hle hwhole, hrounding.2⟩
  · -- the stride is the least aligned one, so it is at most the given one
    obtain ⟨stride, hstride, -, hstrideGe, hstrideLe⟩ :=
      Word.exists_roundUp_le hrounding.1.pos hstride' hsize hstrideBound
    have hle : stride * count ≤ stride' * count := Nat.mul_le_mul_right count hstrideLe
    rw [if_neg htight, aggregateAlignment_eq helement]
    show ∃ x, (Word.roundUp element.size _ >>= fun stride => _) = _ ∧ _
    rw [hstride]
    by_cases hregister : rule = .registerConstant
    · by_cases h0 : count = 0
      · subst h0
        subst hregister
        exact ⟨_, rfl, Nat.zero_le _, Nat.dvd_refl _⟩
      · -- the last element has no padding behind it
        have hlast : stride * (count - 1) + stride = stride * count := by
          rw [← Nat.mul_succ, Nat.succ_eq_add_one, Nat.sub_add_cancel (by omega)]
        have hproduct : Word.mul stride (count - 1) = .ok (stride * (count - 1)) :=
          Word.mul_eq_ok_iff.2 ⟨rfl, by omega⟩
        have hsum : Word.add element.size (stride * (count - 1))
            = .ok (element.size + stride * (count - 1)) :=
          Word.add_eq_ok_iff.2 ⟨rfl, by omega⟩
        refine ⟨⟨_, element.size + stride * (count - 1), stride⟩, ?_, ?_, Nat.dvd_refl _⟩
        · show (if rule = .registerConstant then _ else _) = _
          rw [if_pos hregister, if_neg h0, hproduct]
          show (Word.add element.size _ >>= fun size => _) = _
          rw [hsum]
          rfl
        · show element.size + stride * (count - 1) ≤ room
          omega
    · -- the whole is rounded up, which the room allows since it is aligned
      obtain ⟨size, hround, -, -, hsizeLe⟩ := Word.exists_roundUp_le hrounding.1.pos hroom
        (Nat.le_trans hle hwhole) hroomBound
      have hproduct : Word.mul stride count = .ok (stride * count) :=
        Word.mul_eq_ok_iff.2 ⟨rfl, by omega⟩
      refine ⟨⟨_, size, stride⟩, ?_, hsizeLe, Nat.dvd_refl _⟩
      show (if rule = .registerConstant then _ else _) = _
      rw [if_neg hregister, hproduct]
      show (Word.roundUp (stride * count) _ >>= fun size => _) = _
      rw [hround]
      rfl

/-- An array takes no more room under a looser rule, if its elements do not. -/
theorem exists_ofArray (hrule : rule.Looser rule') {element element' x' : Extent}
    {length : Option Nat} (helement' : IsAlignment element'.alignment)
    (hle : element.NoLarger element') (hx' : ofArray rule' element' length = .ok x') :
    ∃ x, ofArray rule element length = .ok x ∧ x.NoLarger x' := by
  have helement : IsAlignment element.alignment := Nat.dvd_trans hle.alignment helement'
  have hdvd := aggregated_dvd hrule helement' hle.alignment
  obtain ⟨htight', -, -, hregister', -⟩ := hrule.padded
  obtain ⟨halignment', hsize', hstride', hstrideBound', hwhole', hroom', hroomBound'⟩ :=
    padded_ofArray htight' hregister' helement' hx'
  rw [← halignment'] at hdvd
  obtain ⟨x, hx, hsize, halignment⟩ := exists_ofArray_le helement
    (Nat.le_trans hle.size hsize') (Nat.dvd_trans hdvd hstride') hstrideBound' hwhole'
    (Nat.dvd_trans hdvd hroom') hroomBound'
  exact ⟨x, hx, hsize, Nat.dvd_trans halignment hdvd⟩

end Extent

/-! ## Places of members -/

/-- Whether a member is a vector that the rule keeps to the slots. -/
def Unplaced.isSlotted (rule : Rule) (m : Unplaced) : Bool :=
  rule.isRelaxed && m.component.isSome

/-- The distance of the places among which the first one is looked for. -/
def Unplaced.step (rule : Rule) (m : Unplaced) : Nat :=
  if m.isSlotted rule && m.component.any (decide <| · ≤ 4) then m.component.getD 0
  else m.extent.alignment

theorem Unplaced.step_of_none {m : Unplaced} (h : m.component = none) :
    m.step rule = m.extent.alignment ∧ m.isSlotted rule = false := by
  simp [step, isSlotted, h]

theorem Unplaced.step_of_some {m : Unplaced} {component : Nat} (h : m.component = some component) :
    m.step rule = (if rule.isRelaxed && decide (component ≤ 4) then component
      else m.extent.alignment) ∧ m.isSlotted rule = rule.isRelaxed := by
  simp [step, isSlotted, h]

/-- A rule admits a member at an offset. -/
structure Admits (rule : Rule) (m : Unplaced) (offset : Nat) : Prop where
  dvd : m.step rule ∣ offset
  keepsSlot : m.isSlotted rule = true → KeepsSlot m.extent.size offset

section Admits

variable {m : Unplaced} {nextFree offset : Nat}

theorem naturalOffset_eq (rule : Rule) (m : Unplaced) (nextFree : Nat) :
    naturalOffset rule m nextFree = (do
      let first ← Word.roundUp nextFree (m.step rule)
      if m.isSlotted rule then
        if ← straddles m.extent.size first then Word.roundUp first 16 else return first
      else return first) := by
  rw [naturalOffset, Unplaced.step, Unplaced.isSlotted]
  rcases m with ⟨_, _, _, _ | component, _⟩
  · simp only [Option.isSome_none, Bool.and_false, Bool.false_and, Bool.false_eq_true, if_false]
    exact (bind_pure _).symm
  · by_cases hrelaxed : rule.isRelaxed = true
    · by_cases hnarrow : component ≤ 4 <;> simp [hrelaxed, hnarrow]
    · simp only [hrelaxed, Bool.false_and, Bool.false_eq_true, if_false]
      exact (bind_pure _).symm

/-- Up to the bounds of arithmetic, the check of the relaxed rules is exact. -/
theorem straddles_eq {size : Nat} (hsize : 0 < size) (hroom : offset + size < Word.bound) :
    straddles size offset = .ok (!decide (KeepsSlot size offset)) := by
  rw [straddles]
  by_cases hle : size ≤ 16
  · have hsum : Word.add offset size = .ok (offset + size) := Word.add_eq_ok_iff.2 ⟨rfl, hroom⟩
    have hlast : Word.sub (offset + size) 1 = .ok (offset + size - 1) :=
      Word.sub_eq_ok_iff.2 (by omega)
    have hiff : KeepsSlot size offset ↔ offset / 16 = (offset + size - 1) / 16 := by
      rw [KeepsSlot, if_pos hle]
      omega
    rw [if_pos hle, hsum]
    show (Word.sub (offset + size) 1 >>= fun last => _) = _
    rw [hlast, decide_eq_decide.2 hiff]
    rfl
  · have hiff : KeepsSlot size offset ↔ offset % 16 = 0 := by
      rw [KeepsSlot, if_neg hle]
    rw [if_neg hle, decide_eq_decide.2 hiff]
    rfl

/-- A member is placed where the rule admits it. -/
theorem admits_naturalOffset (hstep : IsAlignment (m.step rule))
    (hsize : m.isSlotted rule = true → 0 < m.extent.size)
    (h : naturalOffset rule m nextFree = .ok offset)
    (hroom : offset + m.extent.size < Word.bound) :
    nextFree ≤ offset ∧ Admits rule m offset := by
  refine ⟨le_naturalOffset h, ?_⟩
  rw [naturalOffset_eq] at h
  obtain ⟨first, hfirst, h⟩ := bind_eq_ok_iff.1 h
  have hdvd := ((Word.roundUp_eq_ok_iff hstep.pos).1 hfirst).1
  by_cases hslotted : m.isSlotted rule = true
  · rw [if_pos hslotted] at h
    obtain ⟨crosses, hcrosses, h⟩ := bind_eq_ok_iff.1 h
    by_cases hkeeps : KeepsSlot m.extent.size first
    · have hle : first ≤ offset := by
        split at h
        · exact Word.le_of_roundUp h
        · cases h
          exact Nat.le_refl _
      rw [straddles_eq (hsize hslotted) (by omega), decide_eq_true hkeeps] at hcrosses
      cases hcrosses
      cases h
      exact ⟨hdvd, fun _ => hkeeps⟩
    · -- a place that does not start with a slot, so the places are less than a slot apart
      have hsixteen : m.step rule ∣ 16 := by
        refine hstep.dvd_of_le (by decide : (16 : Nat) ∣ 32) ?_
        by_contra hwide
        exact hkeeps (keepsSlot_of_sixteen_dvd
          (Nat.dvd_trans (hstep.sixteen_dvd (by omega)) hdvd))
      cases crosses with
      | true =>
        rw [if_pos rfl] at h
        have hslot := ((Word.roundUp_eq_ok_iff (by decide)).1 h).1
        exact ⟨Nat.dvd_trans hsixteen hslot, fun _ => keepsSlot_of_sixteen_dvd hslot⟩
      | false => exact absurd (keepsSlot_of_straddles hcrosses) hkeeps
  · rw [if_neg hslotted] at h
    cases h
    exact ⟨hdvd, fun h => absurd h hslotted⟩

/-- A member is placed no later than at any offset that the rule admits. -/
theorem exists_naturalOffset_le (hstep : IsAlignment (m.step rule))
    (hsize : m.isSlotted rule = true → 0 < m.extent.size) (h : Admits rule m offset)
    (hle : nextFree ≤ offset) (hroom : offset + m.extent.size < Word.bound) :
    ∃ k, naturalOffset rule m nextFree = .ok k ∧ k ≤ offset := by
  obtain ⟨first, hfirst, -, -, hbefore⟩ :=
    Word.exists_roundUp_le hstep.pos h.dvd hle (by omega)
  rw [naturalOffset_eq, hfirst]
  show ∃ k, (if m.isSlotted rule = true then _ else _) = _ ∧ _
  by_cases hslotted : m.isSlotted rule = true
  · rw [if_pos hslotted, straddles_eq (hsize hslotted) (by omega)]
    by_cases hkeeps : KeepsSlot m.extent.size first
    · rw [decide_eq_true hkeeps]
      exact ⟨first, rfl, hbefore⟩
    · -- the admitted offset lies in a later slot
      have hslot : first ≤ offset / 16 * 16 := by
        have hadmitted := h.keepsSlot hslotted
        unfold KeepsSlot at hadmitted hkeeps
        split at hadmitted <;> rename_i hshort
        · rw [if_pos hshort] at hkeeps
          omega
        · omega
      obtain ⟨k, hk, -, -, hlast⟩ := Word.exists_roundUp_le (by decide : 0 < 16)
        (Nat.dvd_mul_left 16 (offset / 16)) hslot (by omega)
      rw [decide_eq_false hkeeps]
      exact ⟨k, hk, by omega⟩
  · rw [if_neg hslotted]
    exact ⟨first, rfl, hbefore⟩

end Admits

/-! ## Members under two rules -/

/-- A part of a structure, ready to be placed by two rules, the first of which gives it no more
room. -/
inductive Beside (options : Options) (rule rule' : Rule) : Unplaced → Unplaced → Prop
  | part (part : Field) {x x' : Extent} : part.ty.isNaturalData = true →
    part.attributes.asksForOffset = false → extent options rule part.ty = .ok x →
    extent options rule' part.ty = .ok x' → x.NoLarger x' →
    Beside options rule rule'
      (.ofTy options part.name part.ty part.attributes part.position x)
      (.ofTy options part.name part.ty part.attributes part.position x')

/-- A part that is placed as a vector is one, of two to four components. -/
theorem exists_vector_of_component {ty : Ty} {component : Nat} (hdata : ty.isNaturalData = true)
    (h : (vectorScalar? ty).map (·.bytes options) = some component) :
    ∃ count, (2 ≤ count ∧ count ≤ 4) ∧ (component = 2 ∨ component = 4 ∨ component = 8) ∧
      ∀ rule x, extent options rule ty = .ok x →
        x = .solid (Extent.vectorAlignment rule component count) (count * component) := by
  rw [vectorScalar?_eq hdata] at h
  cases hvector : ty.shape.asVector? with
  | none =>
    rw [hvector] at h
    cases h
  | some v =>
    obtain ⟨elem, count⟩ := v
    rw [hvector, Option.bind_some] at h
    dsimp only at h
    split at h
    · rename_i hseveral
      cases h
      have hbounds := bounds_of_asVector? (by rwa [Ty.isNaturalData_shape]) hvector
      refine ⟨count, ⟨hseveral, hbounds.2.2⟩, elem.bytes_of_isSized options hbounds.1, ?_⟩
      intro rule x hx
      have hof := ofVector_of_shape ty {} hvector hx
      rw [Extent.ofVector_eq hbounds.1 hbounds.2] at hof
      cases hof
      rfl
    · cases h

/-- The places for data are a divisor of 32 apart, and a vector that is kept to the slots is not
empty. -/
theorem isAlignment_step {part : Field} {x : Extent} (hdata : part.ty.isNaturalData = true)
    (hx : extent options rule part.ty = .ok x) :
    IsAlignment ((Unplaced.ofTy options part.name part.ty part.attributes part.position x).step
        rule) ∧
      ((Unplaced.ofTy options part.name part.ty part.attributes part.position x).isSlotted rule
        = true → 0 < x.size) := by
  have halignment := isAlignment_extentAt part.ty {} hdata hx
  cases hcomponent : (vectorScalar? part.ty).map (·.bytes options) with
  | none =>
    rw [(Unplaced.step_of_none hcomponent).1, (Unplaced.step_of_none hcomponent).2]
    exact ⟨halignment, fun h => nomatch h⟩
  | some component =>
    obtain ⟨count, hcount, hsizes, hsolid⟩ := exists_vector_of_component hdata hcomponent
    rw [(Unplaced.step_of_some hcomponent).1]
    constructor
    · split
      · show component ∣ 32
        rcases hsizes with rfl | rfl | rfl <;> decide
      · exact halignment
    · rintro -
      rw [hsolid rule x hx]
      exact Nat.mul_pos (by omega) (by omega)

/-- The places for a vector are no further apart under a looser rule. -/
theorem vector_step_dvd (hrule : rule.Looser rule') (component count : Nat) :
    (if rule.isRelaxed && decide (component ≤ 4) then component
      else Extent.vectorAlignment rule component count) ∣
    (if rule'.isRelaxed && decide (component ≤ 4) then component
      else Extent.vectorAlignment rule' component count) := by
  split
  · split
    · exact Nat.dvd_refl _
    · exact (Extent.vectorAlignment_dvd rule' component count).1
  · rename_i hplaced
    split
    · -- then the looser rule is not relaxed, and aligns vectors to their components
      rename_i hplaced'
      rw [Bool.and_eq_true] at hplaced hplaced'
      have hrelaxed : rule.isRelaxed = false := by
        rw [← Bool.not_eq_true]
        exact fun h => hplaced ⟨h, hplaced'.2⟩
      rw [Extent.vectorAlignment, if_pos (.inr (hrule.alignsToElement hplaced'.1 hrelaxed))]
    · exact Extent.vectorAlignment_dvd_vectorAlignment hrule.padded.2.2.1 rule _ _

namespace Beside

variable {m m' : Unplaced} {offset : Nat}

theorem noLarger (h : Beside options rule rule' m m') : m.extent.NoLarger m'.extent := by
  cases h with
  | part _ _ _ _ _ hle => exact hle

theorem isAlignment (h : Beside options rule rule' m m') :
    IsAlignment m.extent.alignment ∧ IsAlignment m'.extent.alignment := by
  cases h with
  | part part hdata _ hx hx' _ =>
    exact ⟨isAlignment_extentAt part.ty {} hdata hx, isAlignment_extentAt part.ty {} hdata hx'⟩

/-- What a rule admits, a looser one admits as well. -/
theorem admits (hrule : rule.Looser rule') (h : Beside options rule rule' m m')
    (hadmits : Admits rule' m' offset) : Admits rule m offset := by
  obtain ⟨part, hdata, -, hx, hx', hle⟩ := h
  obtain ⟨hdvd, hkeeps⟩ := hadmits
  cases hcomponent : (vectorScalar? part.ty).map (·.bytes options) with
  | none =>
    rw [(Unplaced.step_of_none hcomponent).1] at hdvd
    constructor
    · rw [(Unplaced.step_of_none hcomponent).1]
      exact Nat.dvd_trans hle.alignment hdvd
    · rw [(Unplaced.step_of_none hcomponent).2]
      exact fun h => nomatch h
  | some component =>
    obtain ⟨count, hcount, -, hsolid⟩ := exists_vector_of_component hdata hcomponent
    have halignment' := isAlignment_extentAt part.ty {} hdata hx'
    have hsolid' := hsolid rule' _ hx'
    have hsolid := hsolid rule _ hx
    subst hsolid hsolid'
    rw [(Unplaced.step_of_some hcomponent).1] at hdvd
    rw [(Unplaced.step_of_some hcomponent).2] at hkeeps
    constructor
    · rw [(Unplaced.step_of_some hcomponent).1]
      exact Nat.dvd_trans (vector_step_dvd hrule component count) hdvd
    · intro _
      by_cases hrelaxed' : rule'.isRelaxed = true
      · exact hkeeps hrelaxed'
      · -- the other rule aligns the vector to its size or more
        rw [Bool.not_eq_true] at hrelaxed'
        rw [hrelaxed', Bool.false_and, if_neg (by decide)] at hdvd
        have hnot : ¬(count = 1 ∨ rule'.alignsToElement = true) := by
          simp only [hrule.padded.2.2.1, Bool.false_eq_true, or_false]
          omega
        have hsize : count * component ≤ Extent.vectorAlignment rule' component count := by
          rw [Extent.vectorAlignment, if_neg hnot, Nat.mul_comm]
          exact Nat.mul_le_mul_left component (Extent.le_lanes count)
        exact keepsSlot_of_dvd halignment' hsize hdvd

/-- A looser rule that starts no later places a member no later. -/
theorem exists_place (hrule : rule.Looser rule') (h : Beside options rule rule' m m')
    {nextFree nextFree' : Nat} {p' : Placed} (hle : nextFree ≤ nextFree')
    (hp' : place rule' nextFree' m' = .ok p') (hroom : p'.offset + m'.extent.size < Word.bound) :
    ∃ p, place rule nextFree m = .ok p ∧ p.offset ≤ p'.offset := by
  have hnoLarger := h.noLarger
  have hadmits : Admits rule' m' p'.offset → Admits rule m p'.offset := h.admits hrule
  obtain @⟨part, x, x', hdata, hnatural, hx, hx', -⟩ := h
  obtain ⟨hstep', hsize'⟩ := isAlignment_step hdata hx'
  obtain ⟨hstep, hsize⟩ := isAlignment_step hdata hx
  obtain ⟨hafter, hadmits'⟩ :=
    admits_naturalOffset hstep' hsize' (natural_of_place hnatural hp').1 hroom
  have hsmall := hnoLarger.size
  obtain ⟨k, hk, hbefore⟩ := exists_naturalOffset_le hstep hsize (hadmits hadmits')
    (Nat.le_trans hle hafter) (by omega)
  refine ⟨⟨k, x, none⟩, ?_, hbefore⟩
  rw [place, hk]
  show (explicitOffset part.attributes >>= fun explicit => _) = _
  rw [explicitOffset_of_natural hnatural]
  rfl

end Beside

/-! ## Structures -/

/-- Members in their places stand no later than others, one by one. -/
def NoLater (placed placed' : List Placed) : Prop :=
  List.Forall₂ (· ≤ ·) (placed.map (·.offset)) (placed'.map (·.offset))

section Structures

variable {ms ms' : List Unplaced}

theorem exists_placeFrom (hrule : rule.Looser rule')
    (hms : List.Forall₂ (Beside options rule rule') ms ms') {nextFree nextFree' stop' : Nat}
    {placed' : List Placed} (hle : nextFree ≤ nextFree')
    (h : placeFrom rule' nextFree' ms' = .ok (placed', stop')) :
    ∃ placed stop, placeFrom rule nextFree ms = .ok (placed, stop) ∧ stop ≤ stop' ∧
      NoLater placed placed' := by
  -- on the members, from any places that are no later under the looser rule
  induction hms generalizing nextFree nextFree' placed' with
  | nil =>
    cases h
    exact ⟨[], nextFree, rfl, hle, .nil⟩
  | @cons m m' rest rest' hm _ ih =>
    obtain ⟨p', hp', h⟩ := bind_eq_ok_iff.1 h
    obtain ⟨next', hnext', h⟩ := bind_eq_ok_iff.1 h
    obtain ⟨⟨others', stop''⟩, hothers', h⟩ := bind_eq_ok_iff.1 h
    cases h
    obtain ⟨rfl, hroom⟩ := Word.add_eq_ok_iff.1 hnext'
    obtain ⟨p, hp, hbefore⟩ := hm.exists_place hrule hle hp' hroom
    have hsize := hm.noLarger.size
    -- no later and no larger, so the next member starts no later
    have hnextFree : p.offset + m.extent.size ≤ p'.offset + m'.extent.size := by omega
    obtain ⟨others, stop, hothers, hstop, hlater⟩ := ih hnextFree hothers'
    have hnext : Word.add p.offset m.extent.size = .ok (p.offset + m.extent.size) :=
      Word.add_eq_ok_iff.2 ⟨rfl, by omega⟩
    refine ⟨p :: others, stop, ?_, hstop, .cons hbefore hlater⟩
    rw [placeFrom, hp]
    show (Word.add p.offset m.extent.size >>= fun next => _) = _
    rw [hnext]
    show (placeFrom rule _ rest >>= fun later => _) = _
    rw [hothers]
    rfl

/-- The largest alignment among members is not larger under the looser rule. -/
theorem maxAlignment_dvd (hms : List.Forall₂ (Beside options rule rule') ms ms') (hne : ms ≠ []) :
    maxAlignment ms ∣ maxAlignment ms' ∧ IsAlignment (maxAlignment ms') := by
  have hboth : (∀ m ∈ ms, IsAlignment m.extent.alignment) ∧
      (∀ m' ∈ ms', IsAlignment m'.extent.alignment) ∧ maxAlignment ms ≤ maxAlignment ms' := by
    clear hne
    induction hms with
    | nil => simp
    | @cons m m' rest rest' hm _ ih =>
      have hle := Nat.le_of_dvd hm.isAlignment.2.pos hm.noLarger.alignment
      simp only [List.forall_mem_cons, maxAlignment_cons]
      exact ⟨⟨hm.isAlignment.1, ih.1⟩, ⟨hm.isAlignment.2, ih.2.1⟩, by omega⟩
  have hne' : ms' ≠ [] := by
    rintro rfl
    cases hms
    exact hne rfl
  have hmax' := isAlignment_maxAlignment hne' hboth.2.1
  exact ⟨(isAlignment_maxAlignment hne hboth.1).dvd_of_le hmax' hboth.2.2, hmax'⟩

/-- A structure takes no more room under a looser rule, and none of its members stands later. -/
theorem exists_recordLayout (hrule : rule.Looser rule')
    (hms : List.Forall₂ (Beside options rule rule') ms ms') {r' : RecordLayout}
    (h : RecordLayout.of rule' ms' = .ok r') :
    ∃ r, RecordLayout.of rule ms = .ok r ∧ r.extent.NoLarger r'.extent ∧
      NoLater r.members r'.members := by
  by_cases hempty : ms = []
  · subst hempty
    cases hms
    cases h
    exact ⟨_, rfl, ⟨Nat.le_refl _, Nat.dvd_refl _⟩, .nil⟩
  · obtain ⟨hmax, halignment'⟩ := maxAlignment_dvd hms hempty
    have halignment : IsAlignment (maxAlignment ms) := Nat.dvd_trans hmax halignment'
    have hrounding := Extent.isAlignment_aggregated rule halignment
    have hrounding' := Extent.isAlignment_aggregated rule' halignment'
    have hdvd := Extent.aggregated_dvd hrule halignment' hmax
    have hempty' : ms'.isEmpty = false := by
      cases hms with
      | nil => exact absurd rfl hempty
      | cons => rfl
    -- the rule that asks for more pads the end, so its size is aligned
    obtain ⟨-, hpads', -, -, hscalar'⟩ := hrule.padded
    rw [RecordLayout.of, hempty', if_neg (by decide)] at h
    obtain ⟨⟨placed', stop'⟩, hplaced', h⟩ := bind_eq_ok_iff.1 h
    dsimp only at h
    rw [if_neg hscalar', Extent.aggregateAlignment_eq halignment', hpads'] at h
    obtain ⟨alignment', heq, h⟩ := bind_eq_ok_iff.1 h
    cases heq
    rw [if_pos rfl] at h
    obtain ⟨size', hsize', h⟩ := bind_eq_ok_iff.1 h
    cases h
    obtain ⟨hroom', hstop', -, hbound'⟩ :=
      (Word.roundUp_eq_ok_iff hrounding'.1.pos).1 hsize'
    -- member by member nothing stands later under the looser rule; what is left is the end
    obtain ⟨placed, stop, hplaced, hstop, hlater⟩ :=
      exists_placeFrom hrule hms (Nat.le_refl 0) hplaced'
    rw [RecordLayout.of, if_neg (by rwa [List.isEmpty_iff]), hplaced]
    show ∃ r, (if rule = .scalar then _ else _) = _ ∧ _
    by_cases hscalar : rule = .scalar
    · rw [if_pos hscalar]
      refine ⟨_, rfl, ⟨?_, Nat.dvd_trans hmax hrounding'.2⟩, hlater⟩
      exact Nat.le_trans hstop hstop'
    · rw [if_neg hscalar, Extent.aggregateAlignment_eq halignment]
      show ∃ r, (if rule.padsTail = true then _ else _) = _ ∧ _
      by_cases hpads : rule.padsTail = true
      · obtain ⟨size, hsize, -, -, hsizeLe⟩ := Word.exists_roundUp_le hrounding.1.pos
          (Nat.dvd_trans hdvd hroom') (Nat.le_trans hstop hstop') hbound'
        rw [if_pos hpads, hsize]
        exact ⟨_, rfl, ⟨hsizeLe, hdvd⟩, hlater⟩
      · rw [if_neg hpads]
        exact ⟨_, rfl, ⟨Nat.le_trans hstop hstop', hdvd⟩, hlater⟩

end Structures

/-! ## Data -/

mutual

/-- Data takes no more room under a looser rule. -/
theorem exists_extentAt (hrule : rule.Looser rule') : (ty : Ty) → (o : Orientation) →
    {x' : Extent} → ty.isNaturalData = true → extentAt options rule' ty o = .ok x' →
    ∃ x, extentAt options rule ty o = .ok x ∧ x.NoLarger x'
  | .alias _ target, o, _, hdata, hx' => by
    rw [extentAt] at hx' ⊢
    exact exists_extentAt hrule target o hdata hx'
  | .oriented order target, o, _, hdata, hx' => by
    rw [extentAt] at hx' ⊢
    exact exists_extentAt hrule target (o.annotate order) hdata hx'
  | .scalar elem, _, _, _, hx' => by
    rw [extentAt] at hx' ⊢
    cases hx'
    exact ⟨_, rfl, Nat.le_refl _, Nat.dvd_refl _⟩
  | .vector elem count, _, _, hdata, hx' => by
    simp only [Ty.isNaturalData, Bool.and_eq_true, decide_eq_true_eq] at hdata
    rw [extentAt] at hx' ⊢
    exact Extent.exists_ofVector hrule hdata.1 hdata.2 hx'
  | .matrix elem rows cols, _, _, hdata, hx' => by
    simp only [Ty.isNaturalData, Bool.and_eq_true, decide_eq_true_eq] at hdata
    rw [extentAt] at hx' ⊢
    exact Extent.exists_ofMatrix hrule hdata.1.1 hdata.1.2 hdata.2 hx'
  | .array elem length, o, _, hdata, hx' => by
    rw [extentAt] at hx' ⊢
    obtain ⟨element', helement', hx'⟩ := bind_eq_ok_iff.1 hx'
    obtain ⟨element, helement, hle⟩ := exists_extentAt hrule elem o.element hdata helement'
    have halignment' := isAlignment_extentAt elem o.element hdata helement'
    rw [helement]
    exact Extent.exists_ofArray hrule halignment' hle hx'
  | .struct _ base fields, _, _, hdata, hx' => by
    rw [Ty.isNaturalData, Bool.and_eq_true] at hdata
    rw [extentAt] at hx' ⊢
    obtain ⟨inherited', hinherited', hx'⟩ := bind_eq_ok_iff.1 hx'
    obtain ⟨own', hown', hx'⟩ := bind_eq_ok_iff.1 hx'
    obtain ⟨r', hr', hx'⟩ := bind_eq_ok_iff.1 hx'
    cases hx'
    obtain ⟨inherited, hinherited, hbase⟩ := exists_unplacedBase hrule base hdata.1 hinherited'
    obtain ⟨own, hown, hfields⟩ := exists_unplacedFields hrule fields hdata.2 hown'
    obtain ⟨r, hr, hle, -⟩ := exists_recordLayout hrule (List.rel_append hbase hfields) hr'
    exact ⟨r.extent, bind_eq_ok_iff.2 ⟨_, hinherited, bind_eq_ok_iff.2 ⟨_, hown,
      bind_eq_ok_iff.2 ⟨r, hr, rfl⟩⟩⟩, hle⟩

theorem exists_unplacedBase (hrule : rule.Looser rule') : (base : OptionalTy) →
    {ms' : List Unplaced} → base.isNaturalData = true → unplacedBase options rule' base = .ok ms' →
    ∃ ms, unplacedBase options rule base = .ok ms ∧
      List.Forall₂ (Beside options rule rule') ms ms'
  | .absent, _, _, hms' => by
    cases hms'
    exact ⟨[], rfl, .nil⟩
  | .present ty, _, hdata, hms' => by
    rw [unplacedBase] at hms' ⊢
    obtain ⟨x', hx', hms'⟩ := bind_eq_ok_iff.1 hms'
    cases hms'
    obtain ⟨x, hx, hle⟩ := exists_extentAt hrule ty {} hdata hx'
    rw [hx]
    exact ⟨_, rfl, .cons (.part ⟨"", ty, {}, {}⟩ hdata rfl hx hx' hle) .nil⟩

theorem exists_unplacedFields (hrule : rule.Looser rule') : (fields : Fields) →
    {ms' : List Unplaced} →
    fields.areNaturalData = true → unplacedFields options rule' fields = .ok ms' →
    ∃ ms, unplacedFields options rule fields = .ok ms ∧
      List.Forall₂ (Beside options rule rule') ms ms'
  | .nil, _, _, hms' => by
    cases hms'
    exact ⟨[], rfl, .nil⟩
  | .cons name ty attributes position rest, _, hdata, hms' => by
    simp only [Fields.areNaturalData, Bool.and_eq_true, Bool.not_eq_true'] at hdata
    rw [unplacedFields] at hms' ⊢
    obtain ⟨x', hx', hms'⟩ := bind_eq_ok_iff.1 hms'
    obtain ⟨others', hothers', hms'⟩ := bind_eq_ok_iff.1 hms'
    cases hms'
    obtain ⟨x, hx, hle⟩ := exists_extentAt hrule ty {} hdata.1.1 hx'
    obtain ⟨others, hothers, hbeside⟩ := exists_unplacedFields hrule rest hdata.2 hothers'
    rw [hx, hothers]
    exact ⟨_, rfl, .cons (.part ⟨name, ty, attributes, position⟩ hdata.1.1 hdata.1.2 hx hx' hle)
      hbeside⟩

end

/-- The offsets of a structure are those of its layout. -/
theorem partOffsets_of_recordLayout {name : String} {base : OptionalTy} {fields : Fields}
    {inherited own : List Unplaced} {r : RecordLayout}
    (hinherited : unplacedBase options rule base = .ok inherited)
    (hown : unplacedFields options rule fields = .ok own)
    (hr : RecordLayout.of rule (inherited ++ own) = .ok r) :
    partOffsets options rule (Record.parts ⟨name, base, fields⟩)
      = .ok (r.members.map (·.offset)) := by
  rw [partOffsets, unplacedParts_parts, unplaced, hinherited, hown]
  show (RecordLayout.of rule (inherited ++ own) >>= fun layout => _) = _
  rw [hr]
  rfl

/-- No member of a structure stands later under a looser rule. -/
theorem exists_partOffsets (hrule : rule.Looser rule') {name : String} {base : OptionalTy}
    {fields : Fields} {o : Orientation} {x' : Extent}
    (hdata : (Ty.struct name base fields).isNaturalData = true)
    (hx' : extentAt options rule' (.struct name base fields) o = .ok x') :
    ∃ offsets offsets', partOffsets options rule (Record.parts ⟨name, base, fields⟩) = .ok offsets ∧
      partOffsets options rule' (Record.parts ⟨name, base, fields⟩) = .ok offsets' ∧
      List.Forall₂ (· ≤ ·) offsets offsets' := by
  rw [Ty.isNaturalData, Bool.and_eq_true] at hdata
  rw [extentAt] at hx'
  obtain ⟨inherited', hinherited', hx'⟩ := bind_eq_ok_iff.1 hx'
  obtain ⟨own', hown', hx'⟩ := bind_eq_ok_iff.1 hx'
  obtain ⟨r', hr', -⟩ := bind_eq_ok_iff.1 hx'
  obtain ⟨inherited, hinherited, hbase⟩ := exists_unplacedBase hrule base hdata.1 hinherited'
  obtain ⟨own, hown, hfields⟩ := exists_unplacedFields hrule fields hdata.2 hown'
  obtain ⟨r, hr, -, hlater⟩ := exists_recordLayout hrule (List.rel_append hbase hfields) hr'
  exact ⟨_, _, partOffsets_of_recordLayout hinherited hown hr,
    partOffsets_of_recordLayout hinherited' hown' hr', hlater⟩

/-- **Looser rules never take more room.**  Where data has a layout under a rule, it has one under
every looser rule: it is not larger, its alignment divides the other one, and no member of any
structure in it stands later in its structure. -/
theorem looser_takes_no_more_room {ty : Ty} {x' : Extent} (hrule : rule.Looser rule')
    (hdata : ty.isNaturalData = true) (hx' : extent options rule' ty = .ok x') :
    (∃ x, extent options rule ty = .ok x ∧ x.size ≤ x'.size ∧ x.alignment ∣ x'.alignment) ∧
      ∀ path name base fields o, ty.part? {} path = some (.struct name base fields, o) →
        ∃ offsets offsets',
          partOffsets options rule (Record.parts ⟨name, base, fields⟩) = .ok offsets ∧
          partOffsets options rule' (Record.parts ⟨name, base, fields⟩) = .ok offsets' ∧
          List.Forall₂ (· ≤ ·) offsets offsets' := by
  constructor
  · obtain ⟨x, hx, hle⟩ := exists_extentAt hrule ty {} hdata hx'
    exact ⟨x, hx, hle.size, hle.alignment⟩
  · intro path name base fields o hpart
    obtain ⟨hstruct, y', hy'⟩ := exists_extent_of_part? ty {} path hdata hpart hx'
    exact exists_partOffsets hrule hstruct hy'

/-- A scalar with a vector behind it. -/
def vectorBehindScalar : Ty :=
  .struct "S" .absent (.cons "a" (.scalar .single) {} {} (.cons "v" (.vector .single 3) {} {} .nil))

/-- The relaxed rule leaves the twelve bytes behind the scalar to the vector, the other one starts a
slot for it. -/
theorem looser_takes_no_more_room_vectorBehindScalar :
    Rule.Looser .relaxedStd140 .std140 ∧ vectorBehindScalar.isNaturalData = true ∧
    extent {} .std140 vectorBehindScalar = .ok ⟨16, 32, 32⟩ ∧
    (∃ x, extent {} .relaxedStd140 vectorBehindScalar = .ok x ∧ x.size ≤ 32 ∧ x.alignment ∣ 16) ∧
      ∀ path name base fields o,
        vectorBehindScalar.part? {} path = some (.struct name base fields, o) →
        ∃ offsets offsets',
          partOffsets {} .relaxedStd140 (Record.parts ⟨name, base, fields⟩) = .ok offsets ∧
          partOffsets {} .std140 (Record.parts ⟨name, base, fields⟩) = .ok offsets' ∧
          List.Forall₂ (· ≤ ·) offsets offsets' := by
  have hextent : extent {} .std140 vectorBehindScalar = .ok ⟨16, 32, 32⟩ := rfl
  exact ⟨.relaxedStd140_std140, rfl, hextent,
    looser_takes_no_more_room .relaxedStd140_std140 rfl hextent⟩

end Layout

end ShaderLowering
