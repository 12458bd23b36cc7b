import Mathlib.Data.List.Induction
import Mathlib.Data.Nat.Digits.Defs
import ShaderLowering.Semantic

/-!
# Spellings of semantics

A semantic string is a name with the longest run of decimal digits at its end, which is its index
(`Semantic.IsSpelling`).  Every text has exactly one such division, so a string is read in one way,
and it is refused only if the digits denote no word.  A name never ends in a digit.  So a semantic
that was composed from a name and another index is read back as it was composed
(`Semantic.ofString?_reads_back`).
-/

namespace ShaderLowering.Semantic

open Source (Position)

/-- A text is a name followed by the longest run of decimal digits at its end. -/
structure IsSpelling (cs name run : List Char) : Prop where
  append : cs = name ++ run
  digits : ∀ c ∈ run, c.isDigit = true
  longest : ∀ c ∈ name.getLast?, c.isDigit = false

theorem isSpelling_nameChars (cs : List Char) : IsSpelling cs (nameChars cs) (indexChars cs) where
  append := (nameChars_append_indexChars cs).symm
  digits c hc := by
    rw [indexChars, List.mem_reverse] at hc
    exact List.all_eq_true.1 List.all_takeWhile c hc
  longest c hc := by
    rw [nameChars, List.getLast?_reverse] at hc
    have hhead := List.head?_dropWhile_not Char.isDigit cs.reverse
    rw [hc] at hhead
    exact hhead

/-- There is only one way to divide a text. -/
theorem IsSpelling.eq_nameChars {cs name run : List Char} (h : IsSpelling cs name run) :
    name = nameChars cs ∧ run = indexChars cs := by
  have hdigits : ∀ c ∈ run.reverse, c.isDigit = true := fun c hc =>
    h.digits c (List.mem_reverse.1 hc)
  have hname : name.reverse.takeWhile Char.isDigit = [] ∧
      name.reverse.dropWhile Char.isDigit = name.reverse := by
    cases hlast : name.reverse with
    | nil => exact ⟨rfl, rfl⟩
    | cons c rest =>
      have hc := h.longest c (by rw [← List.head?_reverse, hlast]; rfl)
      rw [List.takeWhile_cons, List.dropWhile_cons, hc]
      exact ⟨rfl, rfl⟩
  rw [nameChars, indexChars, h.append, List.reverse_append, List.dropWhile_append_of_pos hdigits,
    List.takeWhile_append_of_pos hdigits, hname.1, hname.2, List.append_nil, List.reverse_reverse,
    List.reverse_reverse]
  exact ⟨rfl, rfl⟩

/-- The digit that a character denotes. -/
def digit (c : Char) : Nat := c.toNat - '0'.toNat

/-- Digits are read by their places, the last one counting once. -/
theorem digitsValue_eq_ofDigits (run : List Char) :
    digitsValue run = Nat.ofDigits 10 (run.reverse.map digit) := by
  induction run using List.reverseRecOn with
  | nil => rfl
  | append_singleton run c ih =>
    rw [List.reverse_append, List.reverse_singleton, List.singleton_append, List.map_cons,
      Nat.ofDigits_cons, ← ih, digitsValue, List.foldl_append, digitsValue, Nat.add_comm]
    rfl

/-- The digits of a number are read back as the number. -/
theorem digitsValue_toDigits (n : Nat) : digitsValue (Nat.toDigits 10 n) = n :=
  Nat.ofDigitChars_eq_foldl.symm.trans Nat.ofDigitChars_ten_toDigits

/-- A string is read as its name and the value of its digits, if that is a word. -/
theorem ofString?_of_isSpelling {string : String} {name run : List Char}
    (h : IsSpelling string.toList name run) (position : Position) :
    ofString? string position =
      if digitsValue run < Word.bound then
        some ⟨string, .ofList name, digitsValue run, .ofName (.ofList name), position⟩
      else none := by
  obtain ⟨rfl, rfl⟩ := h.eq_nameChars
  rfl

theorem index_lt_of_ofString? {string : String} {position : Position} {s : Semantic}
    (h : ofString? string position = some s) : s.index < Word.bound := by
  rw [ofString?_of_isSpelling (isSpelling_nameChars string.toList)] at h
  split at h
  · rename_i hword
    cases h
    exact hword
  · cases h

/-- A name that does not end in a digit is told apart from an index that is written after it. -/
theorem isSpelling_append_toString {name : List Char}
    (hname : ∀ c ∈ name.getLast?, c.isDigit = false) (index : Nat) :
    IsSpelling (String.ofList name ++ toString index).toList name (Nat.toDigits 10 index) where
  append := by
    rw [String.toList_append, String.toList_ofList, Nat.toString_eq_ofList_toDigits,
      String.toList_ofList]
  digits _ := Nat.isDigit_of_mem_toDigits (by decide) (by decide)
  longest := hname

/-- **How a semantic string is read.**  The string is divided into a name and the longest run of
digits at its end.  It is refused exactly if the digits denote a number that is no word.  Else its
parts are the name, the number and the kind that belongs to the name, and the semantic of the same
name at any other index is what its own string is read as. -/
theorem ofString?_reads_back (string : String) (position : Position) :
    ∃ name run, IsSpelling string.toList name run ∧
      (ofString? string position = none ↔ 2 ^ 32 ≤ Nat.ofDigits 10 (run.reverse.map digit)) ∧
      ∀ s, ofString? string position = some s →
        s = ⟨string, .ofList name, Nat.ofDigits 10 (run.reverse.map digit),
          .ofName (.ofList name), position⟩ ∧
        ∀ index < 2 ^ 32,
          ofString? (s.withIndex index).string position = some (s.withIndex index) := by
  have hspelling := isSpelling_nameChars string.toList
  refine ⟨_, _, hspelling, ?_, fun s hs => ?_⟩
  · rw [ofString?_of_isSpelling hspelling, ← digitsValue_eq_ofDigits]
    split
    · rename_i hword
      exact iff_of_false nofun (Nat.not_le_of_lt hword)
    · rename_i hlarge
      exact iff_of_true rfl (Nat.le_of_not_lt hlarge)
  · rw [ofString?_of_isSpelling hspelling] at hs
    split at hs <;> cases hs
    refine ⟨by rw [digitsValue_eq_ofDigits], fun index hindex => ?_⟩
    have hword : index < Word.bound := hindex
    have hcomposed := isSpelling_append_toString hspelling.longest index
    rw [withIndex, ofString?_of_isSpelling hcomposed, digitsValue_toDigits, if_pos hword]

/-- Zeros before an index are part of the string and not of the number. -/
example : ofString? "Tex2D_007" {} =
    some ⟨"Tex2D_007", "Tex2D_", 7, .arbitrary, {}⟩ := by decide +kernel

end ShaderLowering.Semantic
