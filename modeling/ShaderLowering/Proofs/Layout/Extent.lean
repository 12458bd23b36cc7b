import ShaderLowering.Layout.Members
import ShaderLowering.Proofs.Checked

/-!
# Room in an extent

An extent has room for what it is the extent of: a vector for its components, a matrix for its
stored vectors at its stride, an array for its elements at its stride, and a structure for its
members in their places, one behind the other.
-/

namespace ShaderLowering.Layout

open Source (Scalar)

namespace Extent

variable {options : Options} {rule : Rule} {elem : Scalar} {x : Extent}

theorem size_ofVector {count : Nat} (h : ofVector options rule elem count = .ok x) :
    x.size = count * elem.bytes options := by
  rw [ofVector] at h
  split at h
  · rename_i h1
    cases h
    rw [h1, Nat.one_mul]
    rfl
  · have hlast : ∀ alignment, (do
        let size ← Word.mul (elem.bytes options) count
        return solid alignment size) = .ok x → x.size = count * elem.bytes options := by
      intro alignment h
      obtain ⟨size, hsize, h⟩ := bind_eq_ok_iff.1 h
      cases h
      rw [Nat.mul_comm]
      exact (Word.mul_eq_ok_iff.1 hsize).1
    dsimp only at h
    split at h
    · exact hlast _ h
    · obtain ⟨alignment, -, h⟩ := bind_eq_ok_iff.1 h
      exact hlast alignment h

/-- A matrix with one row or one column is laid out as a vector. -/
theorem ofMatrix_of_one {rows cols : Nat} {byRows : Bool} (h1 : rows = 1 ∨ cols = 1)
    (h : ofMatrix options rule elem rows cols byRows = .ok x) :
    ofVector options rule elem (rows * cols) = .ok x := by
  rw [ofMatrix, if_pos h1] at h
  obtain ⟨count, hcount, h⟩ := bind_eq_ok_iff.1 h
  rw [← (Word.mul_eq_ok_iff.1 hcount).1]
  exact h

/-- The stride of a matrix: the stored vectors follow each other, or each has an aligned place. -/
def vectorStride (rule : Rule) (bytes width : Nat) : Nat :=
  if rule.isTight then width * bytes
  else if rule.roundsAggregates then (bytes * lanes width + 15) / 16 * 16
  else bytes * lanes width

/-- A matrix takes a stride for each of its stored vectors. -/
theorem stride_ofMatrix {rows cols : Nat} {byRows : Bool} (h1 : ¬(rows = 1 ∨ cols = 1))
    (h : ofMatrix options rule elem rows cols byRows = .ok x) :
    x.stride = vectorStride rule (elem.bytes options) (if byRows then cols else rows) ∧
      x.size = (if byRows then rows else cols) * x.stride := by
  rw [ofMatrix, if_neg h1] at h
  rw [vectorStride]
  dsimp only at h
  by_cases htight : rule.isTight = true
  · rw [if_pos htight] at h
    obtain ⟨n, hn, h⟩ := bind_eq_ok_iff.1 h
    obtain ⟨size, hsize, h⟩ := bind_eq_ok_iff.1 h
    obtain ⟨stride, hstride, h⟩ := bind_eq_ok_iff.1 h
    cases h
    rw [Word.mul_eq_ok_iff] at hn hsize hstride
    rw [if_pos htight, hsize.1, hn.1, hstride.1]
    refine ⟨rfl, ?_⟩
    cases byRows
    · simp only [Bool.false_eq_true, if_false]
      rw [← Nat.mul_assoc, Nat.mul_comm rows]
    · simp only [if_true]
      rw [Nat.mul_assoc]
  · rw [if_neg htight] at h
    -- the stride is the alignment of the whole
    obtain ⟨bytes, hbytes, h⟩ := bind_eq_ok_iff.1 h
    obtain ⟨alignment, halignment, h⟩ := bind_eq_ok_iff.1 h
    obtain ⟨size, hsize, h⟩ := bind_eq_ok_iff.1 h
    cases h
    rw [Word.mul_eq_ok_iff] at hbytes hsize
    rw [if_neg htight]
    refine ⟨?_, hsize.1⟩
    rw [aggregateAlignment] at halignment
    split at halignment
    · rename_i hrounds
      rw [if_pos hrounds, Word.roundUp_sixteen halignment, hbytes.1]
    · rename_i hrounds
      cases halignment
      rw [if_neg hrounds, hbytes.1]

theorem le_lanes (count : Nat) : count ≤ lanes count := by
  rw [lanes]
  split <;> omega

/-- A stored vector has room in the stride. -/
theorem le_vectorStride (rule : Rule) (bytes width : Nat) :
    width * bytes ≤ vectorStride rule bytes width := by
  have hle : width * bytes ≤ bytes * lanes width := by
    rw [Nat.mul_comm]
    exact Nat.mul_le_mul_left bytes (le_lanes width)
  rw [vectorStride]
  split
  · exact Nat.le_refl _
  · split <;> omega

/-- An array has room for each of its elements at its stride. -/
theorem room_ofArray {element : Extent} {length : Nat}
    (h : ofArray rule element (some length) = .ok x) :
    element.size ≤ x.stride ∧ ∀ i < length, i * x.stride + element.size ≤ x.size := by
  rw [ofArray] at h
  simp only [Option.getD_some] at h
  split at h
  · -- the elements follow each other
    obtain ⟨size, hsize, h⟩ := bind_eq_ok_iff.1 h
    cases h
    rw [(Word.mul_eq_ok_iff.1 hsize).1]
    refine ⟨Nat.le_refl _, fun i hi => ?_⟩
    have hle : (i + 1) * element.size ≤ length * element.size := Nat.mul_le_mul_right _ hi
    rw [Nat.succ_mul] at hle
    rw [Nat.mul_comm element.size]
    exact hle
  · obtain ⟨alignment, -, h⟩ := bind_eq_ok_iff.1 h
    obtain ⟨stride, hstride, h⟩ := bind_eq_ok_iff.1 h
    have hsize := Word.le_of_roundUp hstride
    split at h
    · split at h
      · rename_i h0
        cases h
        exact ⟨hsize, fun i hi => by omega⟩
      · -- the last element has no padding behind it
        obtain ⟨rest, hrest, h⟩ := bind_eq_ok_iff.1 h
        obtain ⟨size, hsum, h⟩ := bind_eq_ok_iff.1 h
        cases h
        refine ⟨hsize, fun i hi => ?_⟩
        have hle : i * stride ≤ (length - 1) * stride := Nat.mul_le_mul_right _ (by omega)
        have hend := (Word.add_eq_ok_iff.1 hsum).1
        rw [(Word.mul_eq_ok_iff.1 hrest).1, Nat.mul_comm stride] at hend
        show i * stride + element.size ≤ size
        omega
    · -- every element is padded to the stride
      obtain ⟨rest, hrest, h⟩ := bind_eq_ok_iff.1 h
      obtain ⟨size, hround, h⟩ := bind_eq_ok_iff.1 h
      cases h
      refine ⟨hsize, fun i hi => ?_⟩
      have hle : (i + 1) * stride ≤ length * stride := Nat.mul_le_mul_right _ hi
      have hend := Word.le_of_roundUp hround
      rw [(Word.mul_eq_ok_iff.1 hrest).1, Nat.mul_comm stride] at hend
      rw [Nat.succ_mul] at hle
      show i * stride + element.size ≤ size
      omega

end Extent

/-! ## Members -/

variable {rule : Rule}

theorem le_naturalOffset {m : Unplaced} {nextFree offset : Nat}
    (h : naturalOffset rule m nextFree = .ok offset) : nextFree ≤ offset := by
  rw [naturalOffset] at h
  split at h
  · split at h
    · obtain ⟨first, hfirst, h⟩ := bind_eq_ok_iff.1 h
      obtain ⟨overlaps, -, h⟩ := bind_eq_ok_iff.1 h
      have hle := Word.le_of_roundUp hfirst
      split at h
      · exact Nat.le_trans hle (Word.le_of_roundUp h)
      · cases h
        exact hle
    · exact Word.le_of_roundUp h
  · exact Word.le_of_roundUp h

/-- A member is placed behind everything before it, with the room it needs. -/
theorem place_spec {nextFree : Nat} {m : Unplaced} {p : Placed}
    (h : place rule nextFree m = .ok p) : nextFree ≤ p.offset ∧ p.extent = m.extent := by
  rw [place] at h
  obtain ⟨offset, hoffset, h⟩ := bind_eq_ok_iff.1 h
  obtain ⟨explicit, -, h⟩ := bind_eq_ok_iff.1 h
  have hle := le_naturalOffset hoffset
  split at h
  · cases h
    exact ⟨hle, rfl⟩
  · split at h
    · cases h
      exact ⟨hle, rfl⟩
    · rename_i hnot
      cases h
      exact ⟨Nat.not_lt.1 hnot, rfl⟩

/-- Members are placed one behind the other. -/
theorem placeFrom_cons {nextFree stop : Nat} {m : Unplaced} {rest : List Unplaced}
    {placed : List Placed} (h : placeFrom rule nextFree (m :: rest) = .ok (placed, stop)) :
    ∃ p others, placed = p :: others ∧ nextFree ≤ p.offset ∧ p.extent = m.extent ∧
      placeFrom rule (p.offset + m.extent.size) rest = .ok (others, stop) := by
  rw [placeFrom] at h
  obtain ⟨p, hp, h⟩ := bind_eq_ok_iff.1 h
  obtain ⟨next, hnext, h⟩ := bind_eq_ok_iff.1 h
  obtain ⟨⟨others, stop'⟩, hothers, h⟩ := bind_eq_ok_iff.1 h
  cases h
  obtain ⟨hle, hextent⟩ := place_spec hp
  rw [(Word.add_eq_ok_iff.1 hnext).1] at hothers
  exact ⟨p, others, rfl, hle, hextent, hothers⟩

/-- The end of the last member is behind all that was taken before. -/
theorem le_stop_of_placeFrom {nextFree stop : Nat} {ms : List Unplaced} {placed : List Placed}
    (h : placeFrom rule nextFree ms = .ok (placed, stop)) : nextFree ≤ stop := by
  induction ms generalizing nextFree placed with
  | nil =>
    cases h
    exact Nat.le_refl _
  | cons m rest ih =>
    obtain ⟨p, others, -, hle, -, hrest⟩ := placeFrom_cons h
    have hstop := ih hrest
    omega

/-- A structure has room for all of its members. -/
theorem RecordLayout.of_spec {ms : List Unplaced} {r : RecordLayout} (h : of rule ms = .ok r) :
    ∃ stop, placeFrom rule 0 ms = .ok (r.members, stop) ∧ stop ≤ r.extent.size := by
  rw [of] at h
  split at h
  · rename_i hempty
    cases h
    rw [List.isEmpty_iff] at hempty
    rw [hempty]
    exact ⟨0, rfl, Nat.le_refl 0⟩
  · obtain ⟨⟨placed, stop⟩, hplaced, h⟩ := bind_eq_ok_iff.1 h
    refine ⟨stop, ?_⟩
    dsimp only at h
    split at h
    · cases h
      exact ⟨hplaced, Nat.le_refl stop⟩
    · obtain ⟨alignment, -, h⟩ := bind_eq_ok_iff.1 h
      split at h
      · obtain ⟨size, hsize, h⟩ := bind_eq_ok_iff.1 h
        cases h
        exact ⟨hplaced, Word.le_of_roundUp hsize⟩
      · cases h
        exact ⟨hplaced, Nat.le_refl stop⟩

end ShaderLowering.Layout
