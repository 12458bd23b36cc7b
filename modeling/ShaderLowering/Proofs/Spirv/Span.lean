import Mathlib.Data.List.Pairwise

/-!
# Byte ranges

Where the scalar components of a value lie in memory.  A span is a half-open range of bytes.  A
list of spans lies *within* a range when no two of them share a byte and none reaches out of it.

The ways in which composite values are laid out keep spans within a range: moving them back
(`Within.shift`), placing some behind others (`Within.append`), and repeating them at a stride that
leaves room for one copy (`Within.every`).
-/

namespace ShaderLowering.Spirv

/-- A range of bytes. -/
structure Span where
  start : Nat
  size : Nat
deriving DecidableEq, Repr

namespace Span

/-- The first byte after the span. -/
def stop (s : Span) : Nat := s.start + s.size

/-- The span moved back by some bytes. -/
def shift (offset : Nat) (s : Span) : Span := ⟨offset + s.start, s.size⟩

/-- Two spans of which one ends before the other starts. -/
def Apart (s t : Span) : Prop := s.stop ≤ t.start ∨ t.stop ≤ s.start

instance (s t : Span) : Decidable (Apart s t) := inferInstanceAs (Decidable (_ ∨ _))

/-- Copies of some spans, `count` of them, each `stride` bytes after the one before. -/
def every (count stride : Nat) (spans : List Span) : List Span :=
  (List.range count).flatMap fun i => spans.map (shift (i * stride))

/-- No two spans share a byte, and all lie between two positions. -/
structure Within (first last : Nat) (spans : List Span) : Prop where
  apart : spans.Pairwise Apart
  starts : ∀ s ∈ spans, first ≤ s.start
  stops : ∀ s ∈ spans, s.stop ≤ last

@[simp] theorem start_shift (offset : Nat) (s : Span) :
    (s.shift offset).start = offset + s.start := rfl

@[simp] theorem stop_shift (offset : Nat) (s : Span) : (s.shift offset).stop = offset + s.stop := by
  simp [stop, shift, Nat.add_assoc]

theorem apart_shift_iff {offset : Nat} {s t : Span} :
    Apart (s.shift offset) (t.shift offset) ↔ Apart s t := by
  simp only [Apart, stop_shift, start_shift]
  omega

variable {spans others : List Span} {first middle last : Nat}

theorem within_nil (first last : Nat) : Within first last [] := ⟨.nil, by simp, by simp⟩

theorem within_singleton (size : Nat) : Within 0 size [⟨0, size⟩] :=
  ⟨List.pairwise_singleton _ _, by simp, by simp [stop]⟩

theorem Within.mono {first' last' : Nat} (h : Within first last spans) (hfirst : first' ≤ first)
    (hlast : last ≤ last') : Within first' last' spans where
  apart := h.apart
  starts s hs := Nat.le_trans hfirst (h.starts s hs)
  stops s hs := Nat.le_trans (h.stops s hs) hlast

theorem Within.shift (h : Within first last spans) (offset : Nat) :
    Within (offset + first) (offset + last) (spans.map (shift offset)) := by
  refine ⟨?_, ?_, ?_⟩
  · rw [List.pairwise_map]
    exact h.apart.imp apart_shift_iff.2
  · intro s hs
    obtain ⟨t, ht, rfl⟩ := List.mem_map.1 hs
    exact Nat.add_le_add_left (h.starts t ht) offset
  · intro s hs
    obtain ⟨t, ht, rfl⟩ := List.mem_map.1 hs
    rw [stop_shift]
    exact Nat.add_le_add_left (h.stops t ht) offset

theorem Within.append (h : Within first middle spans) (h' : Within middle last others)
    (hfirst : first ≤ middle) (hlast : middle ≤ last) : Within first last (spans ++ others) := by
  have h₁ := h.mono (Nat.le_refl first) hlast
  have h₂ := h'.mono hfirst (Nat.le_refl last)
  refine ⟨?_, ?_, ?_⟩
  · rw [List.pairwise_append]
    refine ⟨h.apart, h'.apart, fun s hs t ht => ?_⟩
    exact Or.inl (Nat.le_trans (h.stops s hs) (h'.starts t ht))
  · exact List.forall_mem_append.2 ⟨h₁.starts, h₂.starts⟩
  · exact List.forall_mem_append.2 ⟨h₁.stops, h₂.stops⟩

/-! ## Repetition -/

theorem every_one (stride : Nat) (spans : List Span) : every 1 stride spans = spans := by
  have hshift : shift (0 * stride) = id := by
    funext s
    rw [shift, Nat.zero_mul, Nat.zero_add]
    rfl
  rw [every, List.range_one, List.flatMap_singleton, hshift, List.map_id]

theorem mem_every_iff {count stride : Nat} {s : Span} :
    s ∈ every count stride spans ↔ ∃ i < count, ∃ t ∈ spans, s = t.shift (i * stride) := by
  simp only [every, List.mem_flatMap, List.mem_range, List.mem_map, eq_comm]

/-- A copy ends before the next one starts. -/
theorem mul_add_le_mul {i j stride size : Nat} (hij : i < j) (hsize : size ≤ stride) :
    i * stride + size ≤ j * stride := by
  have h : (i + 1) * stride ≤ j * stride := Nat.mul_le_mul_right stride hij
  rw [Nat.succ_mul] at h
  omega

/-- Copies at a stride that leaves room for one of them. -/
theorem Within.every {size stride count : Nat} (h : Within 0 size spans) (hsize : size ≤ stride)
    (hlast : ∀ i < count, i * stride + size ≤ last) :
    Within 0 last (every count stride spans) := by
  refine ⟨?_, fun _ _ => Nat.zero_le _, ?_⟩
  · rw [Span.every, List.pairwise_flatMap]
    refine ⟨fun i _ => (h.shift _).apart, ?_⟩
    refine List.pairwise_lt_range.imp fun {i j} hij s hs t ht => ?_
    have hstop := (h.shift _).stops s hs
    have hstart := (h.shift _).starts t ht
    have hnext := mul_add_le_mul hij hsize
    left
    omega
  · intro s hs
    obtain ⟨i, hi, t, ht, rfl⟩ := mem_every_iff.1 hs
    have hstop := h.stops t ht
    have hend := hlast i hi
    rw [stop_shift]
    omega

/-- Single spans at a stride lie within a size exactly when the stride leaves room for one of them
and the last one ends in time. -/
theorem within_every_singleton_iff {size stride count : Nat} (hsize : 0 < size)
    (hcount : 1 < count) :
    Within 0 last (Span.every count stride [⟨0, size⟩])
      ↔ size ≤ stride ∧ (count - 1) * stride + size ≤ last := by
  constructor
  · intro h
    have hmem : ∀ i < count,
        (⟨0, size⟩ : Span).shift (i * stride) ∈ Span.every count stride [⟨0, size⟩] :=
      fun i hi => mem_every_iff.2 ⟨i, hi, _, List.mem_singleton_self _, rfl⟩
    constructor
    · have hpair := h.apart
      rw [Span.every, List.pairwise_flatMap] at hpair
      have hlt := List.pairwise_iff_getElem.1 hpair.2 0 1 (by simp; omega) (by simpa) (by omega)
      have h01 : Apart ((⟨0, size⟩ : Span).shift (0 * stride))
          ((⟨0, size⟩ : Span).shift (1 * stride)) := by
        simpa using hlt
      rw [Apart, stop_shift, stop_shift, start_shift, start_shift] at h01
      simp only [stop] at h01
      omega
    · have hlast := h.stops _ (hmem (count - 1) (by omega))
      rw [stop_shift] at hlast
      simpa [stop] using hlast
  · rintro ⟨hstride, hlast⟩
    refine (within_singleton size).every hstride fun i hi => ?_
    have hle : i * stride ≤ (count - 1) * stride := Nat.mul_le_mul_right _ (by omega)
    omega

end Span

end ShaderLowering.Spirv
