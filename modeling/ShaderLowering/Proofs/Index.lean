import Mathlib.Data.List.Nodup

/-!
# Indexed lists

A list whose entries have different keys can be read by key through a map from keys to positions,
if the map is kept in step with the list: `Indexes` says that the two are inverse to each other.
This stays so when an entry of a new key comes to the end (`Indexes.append`), and when an entry
takes the place of the one with the same key (`Indexes.set`).  In the order of the list the keys
are then in the order of first arrival, which `List.eraseDups` computes.
-/

namespace ShaderLowering

/-- Of the values of a list, each once and in the order of first arrival, a new one comes last. -/
theorem eraseDups_concat {α : Type} [BEq α] [LawfulBEq α] (as : List α) (a : α) :
    (as ++ [a]).eraseDups = if a ∈ as then as.eraseDups else as.eraseDups ++ [a] := by
  rw [List.eraseDups_append]
  split <;> simp_all [List.removeAll, List.eraseDups_cons]

/-- The position that a map gives to a key is where the entry of this key is. -/
def Indexes {ε κ : Type} [BEq κ] [Hashable κ] (key : ε → κ) (entries : List ε)
    (index : Std.HashMap κ Nat) : Prop :=
  ∀ k i, index[k]? = some i ↔ ∃ e, entries[i]? = some e ∧ key e = k

namespace Indexes

variable {ε κ : Type} [BEq κ] [Hashable κ] {key : ε → κ} {entries : List ε}
  {index : Std.HashMap κ Nat}

theorem nil : Indexes key ([] : List ε) ∅ := by
  intro k i
  simp

/-- A key that the map does not have is none of an entry. -/
theorem getElem?_eq_none_iff (h : Indexes key entries index) {k : κ} :
    index[k]? = none ↔ ∀ e ∈ entries, key e ≠ k := by
  constructor
  · intro hnone e he hk
    obtain ⟨i, hi⟩ := List.getElem?_of_mem he
    have hsome := (h k i).2 ⟨e, hi, hk⟩
    simp [hnone] at hsome
  · intro hall
    cases hget : index[k]? with
    | none => rfl
    | some i =>
      obtain ⟨e, he, hk⟩ := (h k i).1 hget
      exact absurd hk (hall e (List.mem_of_getElem? he))

/-- All entries have different keys. -/
theorem nodup (h : Indexes key entries index) : (entries.map key).Nodup := by
  refine List.nodup_iff_injective_get.2 fun i j hij => ?_
  have at? (i : Fin (entries.map key).length) :
      index[(entries.map key).get i]? = some i.val := by
    have hi : i.val < entries.length := by simpa using i.isLt
    exact (h _ _).2 ⟨entries[i.val], List.getElem?_eq_getElem hi, by simp⟩
  have hsame := at? i
  rw [hij, at? j] at hsame
  exact Fin.ext (Option.some.inj hsame).symm

/-- An entry of a new key comes to the end. -/
theorem append [LawfulBEq κ] (h : Indexes key entries index) {e : ε}
    (hnew : index[key e]? = none) :
    Indexes key (entries ++ [e]) (index.insert (key e) entries.length) := by
  intro k i
  rw [Std.HashMap.getElem?_insert]
  have hold := h k i
  have hlt : ∀ {x}, entries[i]? = some x → i < entries.length := fun hx =>
    (List.getElem?_eq_some_iff.1 hx).1
  by_cases hk : key e = k
  · have hnone := h.getElem?_eq_none_iff.1 (hk ▸ hnew)
    rw [if_pos (by simpa using hk)]
    constructor
    · rintro ⟨⟩
      exact ⟨e, by simp, hk⟩
    · rintro ⟨x, hx, hkey⟩
      rcases Nat.lt_trichotomy i entries.length with hi | rfl | hi
      · rw [List.getElem?_append_left hi] at hx
        exact absurd hkey (hnone x (List.mem_of_getElem? hx))
      · rfl
      · rw [List.getElem?_eq_none (by simp; omega)] at hx
        cases hx
  · rw [if_neg (by simpa using hk), hold]
    constructor
    · rintro ⟨x, hx, hkey⟩
      exact ⟨x, by rw [List.getElem?_append_left (hlt hx), hx], hkey⟩
    · rintro ⟨x, hx, hkey⟩
      rcases Nat.lt_or_ge i entries.length with hi | hi
      · exact ⟨x, by rwa [List.getElem?_append_left hi] at hx, hkey⟩
      · rw [List.getElem?_append_right hi] at hx
        have hxe : x = e := by
          simpa using (List.mem_of_getElem? hx)
        exact absurd (hxe ▸ hkey) hk

/-- An entry takes the place of the one with the same key. -/
theorem set (h : Indexes key entries index) {e : ε} {i : Nat} (hi : index[key e]? = some i) :
    Indexes key (entries.set i e) index := by
  obtain ⟨old, hold, hkey⟩ := (h _ _).1 hi
  obtain ⟨hlt, rfl⟩ := List.getElem?_eq_some_iff.1 hold
  intro k j
  rw [h k j, List.getElem?_set]
  by_cases hij : i = j
  · subst hij
    simp [hkey, hlt]
  · simp [hij]

end Indexes

end ShaderLowering
