import ShaderLowering.Proofs.Checked
import ShaderLowering.Proofs.Index
import ShaderLowering.Proofs.Spirv.Interning

/-!
# Runs of insertions

A table that starts empty and is only ever inserted into (`Interned.ofList`) holds each value once,
in the order of first arrival, so a value and its number determine each other.

`IndexedTable` is the table with a map that finds the numbers, and with numbers that have to be
words.  The map stays inverse to the list (`IndexedTable.Follows`), and until the words run out both
tables give the same numbers (`IndexedTable.ofList_follows`).
-/

namespace ShaderLowering.Spirv

variable {α : Type} [DecidableEq α]

namespace Interned

/-- The table after the insertion of some values. -/
def ofList (as : List α) : Interned α := as.foldl (fun t a => (t.insert a).2) {}

theorem ofList_append (as bs : List α) :
    ofList (as ++ bs) = bs.foldl (fun t a => (t.insert a).2) (ofList as) :=
  List.foldl_append

theorem ofList_concat (as : List α) (a : α) : ofList (as ++ [a]) = ((ofList as).insert a).2 :=
  ofList_append as [a]

/-- An insertion adds a new value at the end, and nothing else changes the table. -/
theorem insert_snd (t : Interned α) (a : α) :
    (t.insert a).2 = if a ∈ t.entries then t else ⟨t.entries ++ [a]⟩ := by
  rw [insert]
  cases h : t.find? a with
  | some i => rw [if_pos (List.mem_of_getElem? (get?_of_find? h))]
  | none => rw [if_neg (find?_eq_none_iff.1 h)]

theorem insert_fst (t : Interned α) (a : α) : (t.insert a).1 = (t.find? a).getD t.size := by
  rw [insert]
  cases t.find? a <;> rfl

/-- In a table of distinct values a value is found under the number that stores it. -/
theorem find?_eq_some_iff {t : Interned α} (h : t.entries.Nodup) {a : α} {i : Nat} :
    t.find? a = some i ↔ t.get? i = some a := by
  refine ⟨get?_of_find?, fun hi => ?_⟩
  cases hj : t.find? a with
  | some j => rw [get?_inj h (get?_of_find? hj) hi]
  | none => exact absurd (List.mem_of_getElem? hi) (find?_eq_none_iff.1 hj)

theorem nodup_ofList (as : List α) : (ofList as).entries.Nodup := by
  induction as using List.reverseRecOn with
  | nil => exact List.nodup_nil
  | append_singleton as a ih =>
    rw [ofList_concat]
    exact nodup_insert ih a

/-- The values are in the order of first arrival. -/
theorem entries_ofList (as : List α) : (ofList as).entries = as.eraseDups := by
  induction as using List.reverseRecOn with
  | nil => rfl
  | append_singleton as a ih =>
    rw [ofList_concat, insert_snd, ih, eraseDups_concat]
    simp only [List.mem_eraseDups]
    split
    · exact ih
    · rfl

/-- A run only adds to the table. -/
theorem prefix_foldl_insert (t : Interned α) (as : List α) :
    t.entries <+: (as.foldl (fun t a => (t.insert a).2) t).entries := by
  induction as generalizing t with
  | nil => exact List.prefix_refl _
  | cons a as ih => exact (prefix_insert t a).trans (ih _)

theorem size_le_size_insert (t : Interned α) (a : α) : t.size ≤ (t.insert a).2.size :=
  (prefix_insert t a).length_le

end Interned

/-! ## A table with its index -/

variable [Hashable α]

/-- A table of distinct values, with a map that finds their numbers. -/
structure IndexedTable (α : Type) [DecidableEq α] [Hashable α] where
  entries : List α := []
  numbers : Std.HashMap α Nat := ∅

namespace IndexedTable

/-- The number of a value; a new value takes the next number, which has to be a word. -/
def insert (x : IndexedTable α) (a : α) : Checked (Nat × IndexedTable α) :=
  match x.numbers[a]? with
  | some i => .ok (i, x)
  | none => do
    let i ← Word.ofNat x.entries.length
    return (i, ⟨x.entries ++ [a], x.numbers.insert a i⟩)

/-- The table after the insertion of some values. -/
def ofList (as : List α) : Checked (IndexedTable α) :=
  as.foldlM (fun x a => Prod.snd <$> x.insert a) {}

theorem ofList_concat (as : List α) (a : α) :
    ofList (as ++ [a]) = (do let x ← ofList as; Prod.snd <$> x.insert a) := by
  simp [ofList, List.foldlM_append]

/-- The same entries as a table, with a map that is inverse to them. -/
structure Follows (x : IndexedTable α) (t : Interned α) : Prop where
  entries : x.entries = t.entries
  numbers : Indexes id t.entries x.numbers

theorem follows_empty : Follows (α := α) {} {} := ⟨rfl, Indexes.nil⟩

variable {x : IndexedTable α} {t : Interned α}

/-- The map finds what a search through the table finds. -/
theorem Follows.getElem?_numbers (h : x.Follows t) (a : α) : x.numbers[a]? = t.find? a := by
  have hnodup : t.entries.Nodup := by simpa using h.numbers.nodup
  refine Option.ext fun i => ?_
  rw [Interned.find?_eq_some_iff hnodup, h.numbers a i]
  simp [Interned.get?]

/-- One insertion into both tables, where there is a word for the number. -/
theorem Follows.insert (h : x.Follows t) (a : α) (hsize : (t.insert a).2.size ≤ Word.bound) :
    ∃ y, x.insert a = .ok ((t.insert a).1, y) ∧ y.Follows (t.insert a).2 := by
  rw [IndexedTable.insert, h.getElem?_numbers]
  rw [Interned.insert] at hsize ⊢
  cases hfind : t.find? a with
  | some i => exact ⟨x, rfl, h⟩
  | none =>
    have hword : Word.ofNat x.entries.length = .ok t.size := by
      rw [Word.ofNat_eq_ok_iff, h.entries]
      refine ⟨rfl, ?_⟩
      simpa [hfind, Interned.size, Nat.succ_le_iff] using hsize
    have hnew : x.numbers[id a]? = none := by rw [id, h.getElem?_numbers, hfind]
    dsimp only
    rw [hword]
    exact ⟨⟨x.entries ++ [a], x.numbers.insert a t.size⟩, rfl, by rw [h.entries],
      h.numbers.append hnew⟩

/-- One insertion where no word is left. -/
theorem Follows.insert_of_bound_lt (h : x.Follows t) (a : α) (hsize : t.size ≤ Word.bound)
    (hfull : Word.bound < (t.insert a).2.size) : x.insert a = .error .overflow := by
  rw [IndexedTable.insert, h.getElem?_numbers]
  rw [Interned.insert] at hfull
  cases hfind : t.find? a with
  | some i =>
    simp only [hfind] at hfull
    omega
  | none =>
    have hlength : ¬ x.entries.length < Word.bound := by
      rw [h.entries]
      simpa [hfind, Interned.size, Nat.lt_succ_iff] using hfull
    dsimp only
    rw [Word.ofNat, if_neg hlength]
    rfl

/-- The number that is answered is the one of the other table, if that is a word. -/
theorem Follows.fst_insert (h : x.Follows t) (a : α) (hsize : t.size ≤ Word.bound) :
    Prod.fst <$> x.insert a = Word.ofNat (t.insert a).1 := by
  rw [IndexedTable.insert, h.getElem?_numbers, Interned.insert_fst]
  cases hfind : t.find? a with
  | some i =>
    have hi : i < t.size := (List.getElem?_eq_some_iff.1 (Interned.get?_of_find? hfind)).1
    exact (Word.ofNat_eq_ok_iff.2 ⟨rfl, Nat.lt_of_lt_of_le hi hsize⟩).symm
  | none =>
    dsimp only [Option.getD_none]
    rw [h.entries, ← Interned.size, Word.ofNat]
    split <;> rfl

/-- After any run both tables hold the same, or the words have run out. -/
theorem ofList_follows (as : List α) :
    ((Interned.ofList as).size ≤ Word.bound ∧
      ∃ x, ofList as = .ok x ∧ x.Follows (Interned.ofList as)) ∨
    (Word.bound < (Interned.ofList as).size ∧ ofList as = .error .overflow) := by
  induction as using List.reverseRecOn with
  | nil => exact .inl ⟨Nat.zero_le _, {}, rfl, follows_empty⟩
  | append_singleton as a ih =>
    rw [ofList_concat, Interned.ofList_concat]
    rcases ih with ⟨hsize, x, hx, hfollows⟩ | ⟨hfull, herror⟩
    · rcases Nat.lt_or_ge Word.bound ((Interned.ofList as).insert a).2.size with hnext | hnext
      · refine .inr ⟨hnext, ?_⟩
        rw [hx]
        exact congrArg (Prod.snd <$> ·) (hfollows.insert_of_bound_lt a hsize hnext)
      · obtain ⟨y, hy, hfollows⟩ := hfollows.insert a hnext
        refine .inl ⟨hnext, y, ?_, hfollows⟩
        rw [hx]
        exact congrArg (Prod.snd <$> ·) hy
    · refine .inr ⟨Nat.lt_of_lt_of_le hfull (Interned.size_le_size_insert _ a), ?_⟩
      rw [herror]
      rfl

end IndexedTable

/-! ## Any run -/

/-- After any run of insertions, and for any value that is inserted next: the stored values are
pairwise different, and they are the inserted ones in the order of first arrival; the number that is
answered stores the value; the table has the value as one more entry at its end if it was absent, and
else is as it was; what was stored under a number before and under the answered one is stored there
after any further run; and a value is found under a number exactly if it is stored there.

The table that finds its values through a map holds the same entries, its map is inverse to them,
and it answers the same number, as long as numbers are words. -/
theorem Interned.insert_in_run (before : List α) (a : α) (after : List α) :
    (ofList before).entries.Nodup ∧
    (ofList before).entries = before.eraseDups ∧
    ((ofList before).insert a).2.get? ((ofList before).insert a).1 = some a ∧
    ((ofList before).insert a).2 =
      (if a ∈ (ofList before).entries then ofList before
        else ⟨(ofList before).entries ++ [a]⟩) ∧
    (∀ i b, (ofList before).get? i = some b → (ofList (before ++ a :: after)).get? i = some b) ∧
    (ofList (before ++ a :: after)).get? ((ofList before).insert a).1 = some a ∧
    (∀ b i, (ofList before).find? b = some i ↔ (ofList before).get? i = some b) ∧
    ((Word.bound < (ofList before).size ∧ IndexedTable.ofList before = .error .overflow) ∨
      ∃ x, IndexedTable.ofList before = .ok x ∧ x.entries = (ofList before).entries ∧
        (∀ b i, x.numbers[b]? = some i ↔ (ofList before).get? i = some b) ∧
        Prod.fst <$> x.insert a = Word.ofNat ((ofList before).insert a).1) := by
  have hnodup := nodup_ofList before
  have hgrows : (ofList before).entries <+: (ofList (before ++ a :: after)).entries := by
    rw [ofList_append]
    exact prefix_foldl_insert _ _
  have hlater : ((ofList before).insert a).2.entries <+:
      (ofList (before ++ a :: after)).entries := by
    rw [ofList_append]
    exact prefix_foldl_insert _ after
  refine ⟨hnodup, entries_ofList before, get?_insert _ a, insert_snd _ a,
    fun i b => get?_of_prefix hgrows, get?_of_prefix hlater (get?_insert _ a),
    fun b i => find?_eq_some_iff hnodup, ?_⟩
  rcases IndexedTable.ofList_follows before with ⟨hsize, x, hx, hfollows⟩ | hfull
  · refine .inr ⟨x, hx, hfollows.entries, fun b i => ?_, ?_⟩
    · rw [hfollows.getElem?_numbers, find?_eq_some_iff hnodup]
    · exact hfollows.fst_insert a hsize
  · exact .inl hfull

end ShaderLowering.Spirv
