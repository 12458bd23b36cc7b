import ShaderLowering.Word

/-!
# Tables

The tables of a module give their entries numbers in the order of arrival.  A `Table` takes every
value; an `Interned` table takes a value once and answers with the old number afterwards, so that
two entries are equal exactly when their numbers are.  There is no bound on the size of a table: how
one runs out of numbers of 32 bits is said of `IndexedTable` (`Proofs/Spirv/Insertions`).
-/

namespace ShaderLowering.Spirv

/-- A table that grows at its end. -/
structure Table (α : Type) where
  entries : List α := []
deriving DecidableEq, Repr, Inhabited

namespace Table

variable {α : Type}

/-- The number of entries, which is also the number of the next one. -/
def size (t : Table α) : Nat := t.entries.length

/-- The table with one more entry. -/
def push (t : Table α) (a : α) : Table α := ⟨t.entries ++ [a]⟩

/-- The entry with a given number. -/
def get? (t : Table α) (i : Nat) : Option α := t.entries[i]?

/-- The entry with a given number, which has to be there. -/
def get (t : Table α) (i : Nat) : Checked α :=
  match t.get? i with
  | some a => .ok a
  | none => .error .outOfBounds

/-- The table with one entry changed; a number without an entry changes nothing. -/
def modify (t : Table α) (i : Nat) (f : α → α) : Table α := ⟨t.entries.modify i f⟩

@[simp] theorem size_push (t : Table α) (a : α) : (t.push a).size = t.size + 1 := by
  simp [size, push]

@[simp] theorem size_modify (t : Table α) (i : Nat) (f : α → α) :
    (t.modify i f).size = t.size := by
  simp [size, modify]

theorem get?_push (t : Table α) (a : α) (i : Nat) :
    (t.push a).get? i = if i = t.size then some a else t.get? i := by
  simp only [get?, push, size, List.getElem?_append]
  grind

theorem get?_modify (t : Table α) (i j : Nat) (f : α → α) :
    (t.modify i f).get? j = if i = j then (t.get? j).map f else t.get? j := by
  simp only [get?, modify, List.getElem?_modify]
  split <;> simp

end Table

/-- A table of distinct values. -/
structure Interned (α : Type) where
  entries : List α := []
deriving DecidableEq, Repr, Inhabited

namespace Interned

variable {α : Type}

/-- The number of entries. -/
def size (t : Interned α) : Nat := t.entries.length

/-- The entry with a given number. -/
def get? (t : Interned α) (i : Nat) : Option α := t.entries[i]?

/-- The entry with a given number, which has to be there. -/
def get (t : Interned α) (i : Nat) : Checked α :=
  match t.get? i with
  | some a => .ok a
  | none => .error .outOfBounds

/-- An entry keeps its number when a table grows. -/
theorem get?_of_prefix {t t' : Interned α} (h : t.entries <+: t'.entries) {i : Nat} {a : α}
    (ha : t.get? i = some a) : t'.get? i = some a := by
  obtain ⟨more, hmore⟩ := h
  have hi := (List.getElem?_eq_some_iff.1 ha).1
  rw [get?, ← hmore, List.getElem?_append_left hi]
  exact ha

/-- In a table of distinct values a value has one number. -/
theorem get?_inj {t : Interned α} (h : t.entries.Nodup) {i j : Nat} {a : α}
    (hi : t.get? i = some a) (hj : t.get? j = some a) : i = j :=
  (List.getElem?_inj (List.getElem?_eq_some_iff.1 hi).1 h).1 (hi.trans hj.symm)

variable [DecidableEq α]

/-- The number of a value that is in the table. -/
def find? (t : Interned α) (a : α) : Option Nat := t.entries.findIdx? (· = a)

/-- The number of a value, which becomes the last entry if it is new. -/
def insert (t : Interned α) (a : α) : Nat × Interned α :=
  match t.find? a with
  | some i => (i, t)
  | none => (t.size, ⟨t.entries ++ [a]⟩)

theorem get?_of_find? {t : Interned α} {a : α} {i : Nat} (h : t.find? a = some i) :
    t.get? i = some a := by
  obtain ⟨hi, ha, -⟩ := List.findIdx?_eq_some_iff_getElem.1 h
  rw [get?, List.getElem?_eq_getElem hi]
  simpa using ha

theorem find?_eq_none_iff {t : Interned α} {a : α} : t.find? a = none ↔ a ∉ t.entries := by
  simp only [find?, List.findIdx?_eq_none_iff, decide_eq_false_iff_not]
  exact ⟨fun h ha => h a ha rfl, fun h b hb hba => h (hba ▸ hb)⟩

theorem get?_insert (t : Interned α) (a : α) : (t.insert a).2.get? (t.insert a).1 = some a := by
  unfold insert
  split
  · rename_i i h
    exact get?_of_find? h
  · simp [get?, size]

theorem prefix_insert (t : Interned α) (a : α) : t.entries <+: (t.insert a).2.entries := by
  unfold insert
  split
  · exact List.prefix_refl _
  · exact List.prefix_append _ _

theorem mem_insert {t : Interned α} {a b : α} (h : b ∈ (t.insert a).2.entries) :
    b = a ∨ b ∈ t.entries := by
  unfold insert at h
  split at h
  · exact .inr h
  · simpa [or_comm] using h

theorem nodup_insert {t : Interned α} (h : t.entries.Nodup) (a : α) :
    (t.insert a).2.entries.Nodup := by
  unfold insert
  split
  · exact h
  · rename_i hn
    have ha := find?_eq_none_iff.1 hn
    rw [List.nodup_append]
    refine ⟨h, by simp, ?_⟩
    rintro b hb c hc rfl
    exact ha (by simpa using (List.mem_singleton.1 hc) ▸ hb)

end Interned

end ShaderLowering.Spirv
