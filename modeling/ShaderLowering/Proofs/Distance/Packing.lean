import Mathlib.Data.List.Pairwise
import ShaderLowering.Distance.Packing
import ShaderLowering.Proofs.Checked

/-!
# Packings of distances

A packing holds its declarations by ascending semantic index, so the declaration of an index is a
member of the list and nothing else (`Ascending.lookup_eq_some_iff`).  The calculated ranges have
the indices of the declarations and the widths of their components, in the same order; the array is
as long as all components together.

Declarations may be added after ranges were calculated.  A packing is *measured*
(`Packing.IsMeasured`) if its ranges are those of some of its declarations, which is all that an
access needs to stay inside the array and apart from the others.
-/

namespace ShaderLowering.Distance

variable {α : Type}

/-! ## Sorted declarations -/

/-- A list by strictly ascending keys. -/
def Ascending (l : List (Nat × α)) : Prop := l.Pairwise fun x y => x.1 < y.1

theorem mem_insertSorted {key : Nat} {a : α} {x : Nat × α} {l : List (Nat × α)} :
    x ∈ insertSorted key a l ↔ x = (key, a) ∨ x ∈ l := by
  induction l with
  | nil => simp [insertSorted]
  | cons y rest ih =>
    rw [insertSorted]
    split
    · simp
    · rw [List.mem_cons, ih, List.mem_cons]
      exact or_left_comm

theorem Ascending.insertSorted {key : Nat} {l : List (Nat × α)} (h : Ascending l)
    (hkey : l.lookup key = none) (a : α) : Ascending (insertSorted key a l) := by
  induction l with
  | nil => exact List.pairwise_singleton _ _
  | cons y rest ih =>
    obtain ⟨hy, hrest⟩ := List.pairwise_cons.1 h
    have hne : key ≠ y.1 := by simpa using List.lookup_eq_none_iff.1 hkey y List.mem_cons_self
    rw [Distance.insertSorted]
    split
    · rename_i hlt
      refine List.pairwise_cons.2 ⟨fun z hz => ?_, h⟩
      rcases List.mem_cons.1 hz with rfl | hz
      · exact hlt
      · exact Nat.lt_trans hlt (hy z hz)
    · rename_i hge
      have hrest' : rest.lookup key = none := by
        rw [List.lookup_cons, beq_false_of_ne hne] at hkey
        exact hkey
      refine List.pairwise_cons.2 ⟨fun z hz => ?_, ih hrest hrest'⟩
      rcases mem_insertSorted.1 hz with rfl | hz
      · show y.1 < key
        omega
      · exact hy z hz

/-- Keys are not repeated, so a lookup finds exactly what is in the list. -/
theorem Ascending.lookup_eq_some_iff {l : List (Nat × α)} (h : Ascending l) {i : Nat} {a : α} :
    l.lookup i = some a ↔ (i, a) ∈ l := by
  induction l with
  | nil => simp
  | cons y rest ih =>
    obtain ⟨hy, hrest⟩ := List.pairwise_cons.1 h
    obtain ⟨key, b⟩ := y
    rw [List.lookup_cons, List.mem_cons]
    by_cases hkey : i = key
    · subst hkey
      have hnot : (i, a) ∉ rest := fun hmem => Nat.lt_irrefl i (hy (i, a) hmem)
      simp [hnot, eq_comm]
    · rw [beq_false_of_ne hkey]
      simp [hkey, ih hrest]

theorem mem_of_lookup {l : List (Nat × α)} {i : Nat} {a : α} (h : l.lookup i = some a) :
    (i, a) ∈ l := by
  obtain ⟨before, after, rfl, -⟩ := List.lookup_eq_some_iff.1 h
  exact List.mem_append_right _ List.mem_cons_self

/-! ## Calculated ranges -/

/-- The range of an index is as wide as its declaration has components. -/
theorem lookup_rangesFrom (i : Nat) : {l : List (Nat × Declared)} → {start total : Nat} →
    {ranges : List (Nat × Range)} → rangesFrom start l = .ok (ranges, total) →
    (ranges.lookup i).map (fun r => r.stop - r.start) = (l.lookup i).map (·.count)
  | [], _, _, _, h => by
    cases h
    rfl
  | (index, d) :: rest, start, _, _, h => by
    rw [rangesFrom] at h
    obtain ⟨stop, hstop, h⟩ := bind_eq_ok_iff.1 h
    obtain ⟨⟨ranges, total⟩, hrest, h⟩ := bind_eq_ok_iff.1 h
    cases h
    obtain ⟨rfl, -⟩ := Word.add_eq_ok_iff.1 hstop
    rw [List.lookup_cons, List.lookup_cons]
    split
    · simp
    · exact lookup_rangesFrom i hrest

/-- The ranges together take room exactly if a declaration does. -/
theorem lt_total_rangesFrom_iff : {l : List (Nat × Declared)} → {start total : Nat} →
    {ranges : List (Nat × Range)} → rangesFrom start l = .ok (ranges, total) →
    start ≤ total ∧ (start < total ↔ ∃ x ∈ l, x.2.count ≠ 0)
  | [], start, _, _, h => by
    cases h
    simp
  | (index, d) :: rest, start, _, _, h => by
    rw [rangesFrom] at h
    obtain ⟨stop, hstop, h⟩ := bind_eq_ok_iff.1 h
    obtain ⟨⟨ranges, total⟩, hrest, h⟩ := bind_eq_ok_iff.1 h
    cases h
    obtain ⟨rfl, -⟩ := Word.add_eq_ok_iff.1 hstop
    obtain ⟨hle, hlt⟩ := lt_total_rangesFrom_iff hrest
    refine ⟨by omega, ?_⟩
    simp only [List.mem_cons, exists_eq_or_imp, ← hlt]
    omega

/-- Ranges without a common element. -/
def Range.Apart (r r' : Range) : Prop := r.stop ≤ r'.start ∨ r'.stop ≤ r.start

theorem Range.Apart.symm {r r' : Range} (h : r.Apart r') : r'.Apart r := h.elim .inr .inl

/-- Ranges by index that lie apart in a part of an array. -/
structure Laid (start : Nat) (ranges : List (Nat × Range)) (stop : Nat) : Prop where
  within : ∀ x ∈ ranges, start ≤ x.2.start ∧ x.2.start ≤ x.2.stop ∧ x.2.stop ≤ stop
  apart : ranges.Pairwise fun x y => x.2.Apart y.2

theorem laid_rangesFrom : {l : List (Nat × Declared)} → {start total : Nat} →
    {ranges : List (Nat × Range)} → rangesFrom start l = .ok (ranges, total) →
    Laid start ranges total
  | [], _, _, _, h => by
    cases h
    exact ⟨List.forall_mem_nil _, .nil⟩
  | (index, d) :: rest, start, total, _, h => by
    rw [rangesFrom] at h
    obtain ⟨stop, hstop, h⟩ := bind_eq_ok_iff.1 h
    obtain ⟨⟨ranges, _⟩, hrest, h⟩ := bind_eq_ok_iff.1 h
    cases h
    obtain ⟨rfl, -⟩ := Word.add_eq_ok_iff.1 hstop
    have hle : start + d.count ≤ total := (lt_total_rangesFrom_iff hrest).1
    have hlaid := laid_rangesFrom hrest
    refine ⟨List.forall_mem_cons.2 ⟨⟨Nat.le_refl _, Nat.le_add_right _ _, hle⟩, fun x hx => ?_⟩,
      List.pairwise_cons.2 ⟨fun x hx => .inl (hlaid.within x hx).1, hlaid.apart⟩⟩
    have hx := hlaid.within x hx
    exact ⟨Nat.le_trans (Nat.le_add_right _ _) hx.1, hx.2⟩

/-- Ranges of different indices are apart. -/
theorem Laid.apart_of_lookup {start stop : Nat} {ranges : List (Nat × Range)}
    (h : Laid start ranges stop) {i j : Nat} {r r' : Range} (hr : ranges.lookup i = some r)
    (hr' : ranges.lookup j = some r') (hij : i ≠ j) : r.Apart r' :=
  have : Std.Symm fun x y : Nat × Range => x.2.Apart y.2 := ⟨fun _ _ => Range.Apart.symm⟩
  h.apart.forall (mem_of_lookup hr) (mem_of_lookup hr') fun heq => hij (congrArg Prod.fst heq)

namespace Packing

/-- A packing declares an index with a number of components. -/
def Declares (p : Packing) (index count : Nat) : Prop :=
  ∃ ty, (index, ⟨ty, count⟩) ∈ p.declared

theorem declares_declare {p : Packing} {i index count : Nat} {d : Declared} :
    (p.declare i d).Declares index count ↔
      p.Declares index count ∨ (index = i ∧ count = d.count) := by
  constructor
  · rintro ⟨ty, h⟩
    rcases mem_insertSorted.1 h with h | h
    · cases h
      exact .inr ⟨rfl, rfl⟩
    · exact .inl ⟨ty, h⟩
  · rintro (⟨ty, h⟩ | ⟨rfl, rfl⟩)
    · exact ⟨ty, mem_insertSorted.2 (.inr h)⟩
    · exact ⟨d.ty, mem_insertSorted.2 (.inl rfl)⟩

/-- Calculation gives every declaration its range and keeps all else. -/
theorem calculate_eq_ok {p p' : Packing} (h : p.calculate = .ok p') :
    p'.declared = p.declared ∧ p'.var = p.var ∧
      rangesFrom 0 p.declared = .ok (p'.ranges, p'.total) := by
  rw [calculate] at h
  obtain ⟨⟨ranges, total⟩, hranges, h⟩ := bind_eq_ok_iff.1 h
  cases h
  exact ⟨rfl, rfl, hranges⟩

/-- The array is empty exactly if every declaration is. -/
theorem total_ne_zero_iff {p p' : Packing} (h : p.calculate = .ok p') :
    p'.total ≠ 0 ↔ ∃ index count, p.Declares index count ∧ count ≠ 0 := by
  have htotal := (lt_total_rangesFrom_iff (calculate_eq_ok h).2.2).2
  rw [← Nat.pos_iff_ne_zero, htotal]
  constructor
  · rintro ⟨⟨index, ty, count⟩, hmem, hcount⟩
    exact ⟨index, count, ⟨ty, hmem⟩, hcount⟩
  · rintro ⟨index, count, ⟨ty, hmem⟩, hcount⟩
    exact ⟨_, hmem, hcount⟩

/-- An access goes by the range, the array and the declaration of its index. -/
theorem access?_eq_some_iff {p : Packing} {index : Nat} {invocation : Option Nat} {a : Access} :
    p.access? index invocation = some a ↔ ∃ range var d, p.ranges.lookup index = some range ∧
      p.var = some var ∧ p.declared.lookup index = some d ∧
      ⟨var, range.start, range.stop - range.start, invocation, d.ty⟩ = a := by
  simp only [access?, range?, bind, Option.bind_eq_some_iff, pure, Option.some.injEq,
    exists_and_left]

/-- A calculated packing with an array gives access to what is declared, in its number of
components. -/
theorem exists_access?_iff {p p' : Packing} (hp : Ascending p.declared) (h : p.calculate = .ok p')
    (var : Option Spirv.VariableId) {index count : Nat} {invocation : Option Nat} :
    (∃ access, { p' with var }.access? index invocation = some access ∧ access.count = count) ↔
      var.isSome ∧ p.Declares index count := by
  obtain ⟨hdeclared, -, hranges⟩ := calculate_eq_ok h
  have hlookup := lookup_rangesFrom index hranges
  simp only [access?_eq_some_iff, hdeclared]
  constructor
  · rintro ⟨_, ⟨range, v, d, hrange, hv, hd, rfl⟩, rfl⟩
    rw [hrange, hd] at hlookup
    have hcount : range.stop - range.start = d.count := Option.some.inj hlookup
    refine ⟨by rw [hv]; rfl, d.ty, ?_⟩
    rw [hcount]
    exact hp.lookup_eq_some_iff.1 hd
  · rintro ⟨hvar, ty, hmem⟩
    obtain ⟨v, rfl⟩ := Option.isSome_iff_exists.1 hvar
    have hd := hp.lookup_eq_some_iff.2 hmem
    rw [hd] at hlookup
    obtain ⟨range, hrange, hcount⟩ := Option.map_eq_some_iff.1 hlookup
    exact ⟨_, ⟨range, v, _, hrange, rfl, hd, rfl⟩, hcount⟩

/-! ## Measured packings -/

/-- The calculated ranges are those of some of the declarations. -/
def IsMeasured (p : Packing) : Prop :=
  ∃ l, Ascending l ∧ l ⊆ p.declared ∧ rangesFrom 0 l = .ok (p.ranges, p.total)

theorem isMeasured_empty : IsMeasured {} := ⟨[], .nil, List.Subset.refl _, rfl⟩

theorem isMeasured_of_calculate {p p' : Packing} (hp : Ascending p.declared)
    (h : p.calculate = .ok p') : p'.IsMeasured := by
  obtain ⟨hdeclared, -, hranges⟩ := calculate_eq_ok h
  exact ⟨p.declared, hp, hdeclared ▸ List.Subset.refl _, hranges⟩

/-- Declarations may be added at any time. -/
theorem IsMeasured.mono {p : Packing} (h : p.IsMeasured) {declared : List (Nat × Declared)}
    (hsubset : p.declared ⊆ declared) : { p with declared }.IsMeasured := by
  obtain ⟨l, hl, hmem, hranges⟩ := h
  exact ⟨l, hl, List.Subset.trans hmem hsubset, hranges⟩

/-- A measured packing with an array that is not empty declares a component. -/
theorem IsMeasured.exists_declares {p : Packing} (h : p.IsMeasured) (htotal : p.total ≠ 0) :
    ∃ index count, p.Declares index count ∧ count ≠ 0 := by
  obtain ⟨l, -, hmem, hranges⟩ := h
  obtain ⟨⟨index, ty, count⟩, hx, hcount⟩ :=
    (lt_total_rangesFrom_iff hranges).2.1 (Nat.pos_of_ne_zero htotal)
  exact ⟨index, count, ⟨ty, hmem hx⟩, hcount⟩

variable {p : Packing} {i j : Nat} {invocation invocation' : Option Nat} {a a' : Access}

/-- An access stays inside the array and has as many components as are declared. -/
theorem IsMeasured.access (h : p.IsMeasured) (hp : Ascending p.declared)
    (ha : p.access? i invocation = some a) :
    p.var = some a.var ∧ a.offset + a.count ≤ p.total ∧ (i, ⟨a.ty, a.count⟩) ∈ p.declared := by
  obtain ⟨l, hl, hmem, hranges⟩ := h
  obtain ⟨range, var, d, hrange, hvar, hd, rfl⟩ := access?_eq_some_iff.1 ha
  obtain ⟨-, hle : range.start ≤ range.stop, hstop⟩ :=
    (laid_rangesFrom hranges).within _ (mem_of_lookup hrange)
  -- the index was declared when the ranges were calculated, and not differently
  have hlookup := lookup_rangesFrom i hranges
  rw [hrange, eq_comm] at hlookup
  obtain ⟨d', hd', hcount⟩ := Option.map_eq_some_iff.1 hlookup
  have hsame := hp.lookup_eq_some_iff.2 (hmem (mem_of_lookup hd'))
  cases hd.symm.trans hsame
  refine ⟨hvar, ?_, ?_⟩
  · show range.start + (range.stop - range.start) ≤ p.total
    rw [Nat.add_sub_cancel' hle]
    exact hstop
  · have hcount : d.count = range.stop - range.start := hcount
    show (i, (⟨d.ty, range.stop - range.start⟩ : Declared)) ∈ p.declared
    rw [← hcount]
    exact mem_of_lookup hd

/-- Accesses of different indices share no element. -/
theorem IsMeasured.apart (h : p.IsMeasured) (ha : p.access? i invocation = some a)
    (ha' : p.access? j invocation' = some a') (hij : i ≠ j) :
    a.offset + a.count ≤ a'.offset ∨ a'.offset + a'.count ≤ a.offset := by
  obtain ⟨l, -, -, hranges⟩ := h
  obtain ⟨range, _, _, hrange, -, -, rfl⟩ := access?_eq_some_iff.1 ha
  obtain ⟨range', _, _, hrange', -, -, rfl⟩ := access?_eq_some_iff.1 ha'
  have hlaid := laid_rangesFrom hranges
  have hle : range.start ≤ range.stop := (hlaid.within _ (mem_of_lookup hrange)).2.1
  have hle' : range'.start ≤ range'.stop := (hlaid.within _ (mem_of_lookup hrange')).2.1
  have hapart : range.stop ≤ range'.start ∨ range'.stop ≤ range.start :=
    hlaid.apart_of_lookup hrange hrange' hij
  show range.start + (range.stop - range.start) ≤ range'.start ∨
    range'.start + (range'.stop - range'.start) ≤ range.start
  rwa [Nat.add_sub_cancel' hle, Nat.add_sub_cancel' hle']

end Packing

end ShaderLowering.Distance
