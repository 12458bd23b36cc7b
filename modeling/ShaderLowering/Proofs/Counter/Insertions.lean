import Mathlib.Data.List.Induction
import ShaderLowering.Proofs.Checked
import ShaderLowering.Proofs.Counter.Assignments
import ShaderLowering.Proofs.Index

/-!
# Runs of insertions into counter maps

In a map that is filled entry by entry (`Map.ofList`) the paths are those of the entries, each once
and in the order of first insertion (`Map.map_path_ofList`), and a path has the last entry that was
inserted at it (`Map.get?_ofList`).  `SlotMap` is the map with the positions of its paths beside it;
both stay in step (`SlotMap.ofList_follows`).

An assignment between two maps serves all entries below the member of the source, or it stops at the
first one without a counterpart that can be rebound (`Map.planFrom_eq_ok_iff`,
`Map.planFrom_eq_error_iff`).
-/

namespace ShaderLowering.Counter

namespace Map

/-! ## Filling a map -/

/-- The map after the insertion of some entries. -/
def ofList (entries : List Entry) : Map := entries.foldl insert {}

theorem ofList_concat (entries : List Entry) (e : Entry) :
    ofList (entries ++ [e]) = (ofList entries).insert e := List.foldl_append

theorem isSome_get?_iff {m : Map} {path : Path} :
    (m.get? path).isSome ↔ path ∈ m.entries.map (·.path) := by
  rw [← not_iff_not, Bool.not_eq_true, Option.isSome_eq_false_iff, Option.isNone_iff_eq_none,
    get?_eq_none_iff]
  simp

/-- A new path comes last, and an insertion at an old one leaves the paths as they are. -/
theorem map_path_insert (m : Map) (e : Entry) :
    (m.insert e).entries.map (·.path) =
      if e.path ∈ m.entries.map (·.path) then m.entries.map (·.path)
      else m.entries.map (·.path) ++ [e.path] := by
  rw [insert]
  simp only [isSome_get?_iff]
  split
  · rw [List.map_map]
    refine List.map_congr_left fun old _ => ?_
    dsimp only [Function.comp_apply]
    split
    · rename_i hpath
      exact hpath.symm
    · rfl
  · rw [List.map_append]
    rfl

/-- The paths are in the order of first insertion. -/
theorem map_path_ofList (entries : List Entry) :
    (ofList entries).entries.map (·.path) = (entries.map (·.path)).eraseDups := by
  induction entries using List.reverseRecOn with
  | nil => rfl
  | append_singleton entries e ih =>
    rw [ofList_concat, map_path_insert, ih, List.map_append, List.map_singleton, eraseDups_concat]
    simp only [List.mem_eraseDups]

theorem nodup_map_path_ofList (entries : List Entry) :
    ((ofList entries).entries.map (·.path)).Nodup := by
  induction entries using List.reverseRecOn with
  | nil => exact List.nodup_nil
  | append_singleton entries e ih =>
    rw [ofList_concat, map_path_insert]
    split
    · exact ih
    · rename_i hnew
      exact List.nodup_append.2 ⟨ih, List.nodup_singleton _, fun p hp q hq hpq =>
        hnew (List.mem_singleton.1 hq ▸ hpq ▸ hp)⟩

/-- A path has the last entry that was inserted at it. -/
theorem get?_ofList (entries : List Entry) (path : Path) :
    (ofList entries).get? path = (entries.filter (·.path = path)).getLast? := by
  induction entries using List.reverseRecOn with
  | nil => rfl
  | append_singleton entries e ih =>
    rw [ofList_concat, get?_insert, ih, List.filter_append]
    by_cases hpath : path = e.path
    · simp [hpath]
    · simp [hpath, Ne.symm hpath]

end Map

/-! ## A map with the positions of its paths -/

/-- The counters of a declaration, with a map that finds the positions of their paths. -/
structure SlotMap where
  entries : List Entry := []
  slots : Std.HashMap Path Nat := ∅

namespace SlotMap

/-- The map with an entry: at the position that its path has, which has to be there, or at the
end. -/
def insert (x : SlotMap) (e : Entry) : Checked SlotMap :=
  match x.slots[e.path]? with
  | some i =>
    if i < x.entries.length then .ok { x with entries := x.entries.set i e }
    else .error .outOfBounds
  | none => .ok ⟨x.entries ++ [e], x.slots.insert e.path x.entries.length⟩

/-- The entry at a path; the position that the path has has to be there. -/
def get? (x : SlotMap) (path : Path) : Checked (Option Entry) :=
  match x.slots[path]? with
  | some i =>
    match x.entries[i]? with
    | some e => .ok (some e)
    | none => .error .outOfBounds
  | none => .ok none

/-- The map after the insertion of some entries. -/
def ofList (entries : List Entry) : Checked SlotMap := entries.foldlM insert {}

/-- The same entries as a map, with the positions of their paths. -/
structure Follows (x : SlotMap) (m : Map) : Prop where
  entries : x.entries = m.entries
  slots : Indexes (·.path) m.entries x.slots

variable {x : SlotMap} {m : Map}

theorem Follows.get? (h : x.Follows m) (path : Path) : x.get? path = .ok (m.get? path) := by
  rw [SlotMap.get?, h.entries]
  cases hslot : x.slots[path]? with
  | none =>
    rw [Map.get?_eq_none_iff.2 (h.slots.getElem?_eq_none_iff.1 hslot)]
  | some i =>
    obtain ⟨e, he, hpath⟩ := (h.slots path i).1 hslot
    rw [← hpath, Map.get?_of_mem h.slots.nodup (List.mem_of_getElem? he)]
    simp [he]

/-- To replace the entry at one position is to replace the entries of its path. -/
theorem Follows.set_eq_map (h : x.Follows m) {e : Entry} {i : Nat}
    (hi : x.slots[e.path]? = some i) :
    m.entries.set i e = m.entries.map fun old => if old.path = e.path then e else old := by
  obtain ⟨old, hold, hpath⟩ := (h.slots _ _).1 hi
  obtain ⟨hlt, rfl⟩ := List.getElem?_eq_some_iff.1 hold
  refine List.ext_getElem? fun j => ?_
  rw [List.getElem?_set, List.getElem?_map]
  by_cases hij : i = j
  · subst hij
    simp [hlt, hpath]
  · rw [if_neg hij]
    cases hother : m.entries[j]? with
    | none => rfl
    | some other =>
      have hne : other.path ≠ e.path := fun heq =>
        hij (Option.some.inj (hi.symm.trans ((h.slots _ _).2 ⟨other, hother, heq⟩)))
      simp [hne]

/-- One insertion into both maps. -/
theorem Follows.insert (h : x.Follows m) (e : Entry) :
    ∃ y, x.insert e = .ok y ∧ y.Follows (m.insert e) := by
  rw [SlotMap.insert, h.entries]
  cases hslot : x.slots[e.path]? with
  | none =>
    have hnone : m.get? e.path = none :=
      Map.get?_eq_none_iff.2 (h.slots.getElem?_eq_none_iff.1 hslot)
    refine ⟨_, rfl, ?_⟩
    rw [Map.insert, hnone]
    exact ⟨rfl, h.slots.append hslot⟩
  | some i =>
    obtain ⟨old, hold, hpath⟩ := (h.slots _ _).1 hslot
    have hsome : (m.get? e.path).isSome :=
      Map.isSome_get?_iff.2 (hpath ▸ List.mem_map_of_mem (List.mem_of_getElem? hold))
    dsimp only
    rw [if_pos (List.getElem?_eq_some_iff.1 hold).1]
    refine ⟨_, rfl, ?_⟩
    rw [Map.insert, if_pos hsome, ← h.set_eq_map hslot]
    exact ⟨rfl, h.slots.set hslot⟩

/-- Both maps stay in step, whatever is inserted. -/
theorem ofList_follows (entries : List Entry) :
    ∃ x, ofList entries = .ok x ∧ x.Follows (Map.ofList entries) := by
  induction entries using List.reverseRecOn with
  | nil => exact ⟨{}, rfl, rfl, Indexes.nil⟩
  | append_singleton entries e ih =>
    obtain ⟨x, hx, hfollows⟩ := ih
    obtain ⟨y, hy, hfollows⟩ := hfollows.insert e
    rw [Map.ofList_concat]
    refine ⟨y, ?_, hfollows⟩
    rw [ofList] at hx ⊢
    rw [List.foldlM_append, hx]
    exact bind_eq_ok_iff.2 ⟨x, rfl, bind_eq_ok_iff.2 ⟨y, hy, rfl⟩⟩

end SlotMap

/-! ## Assignments -/

namespace Map

variable {destination : Map} {destinationPath sourcePath : Path}

/-- A source entry below the path has a counterpart at the destination that can be rebound. -/
def Served (destination : Map) (destinationPath sourcePath : Path) (e : Entry) : Prop :=
  ∀ rest, e.path = sourcePath ++ rest →
    ∃ d, destination.get? (destinationPath ++ rest) = some d ∧ d.isAlias = true

/-- A source entry below the path has no such counterpart, with what is reported of it. -/
def Refused (destination : Map) (destinationPath sourcePath : Path) (e : Entry)
    (err : CounterError) : Prop :=
  ∃ rest, e.path = sourcePath ++ rest ∧
    ((destination.get? (destinationPath ++ rest) = none ∧
        err = .missing (destinationPath ++ rest)) ∨
      ∃ d, destination.get? (destinationPath ++ rest) = some d ∧ d.isAlias = false ∧
        err = .notAlias (destinationPath ++ rest))

/-- The copy of the counter of a source entry, if the entry is below the path. -/
def copy? (destination : Map) (destinationPath sourcePath : Path) (e : Entry) : Option Copy :=
  (e.path.below? sourcePath).bind fun rest =>
    (destination.get? (destinationPath ++ rest)).map fun d => ⟨d.counter, e.counter⟩

theorem served_or_refused (destination : Map) (destinationPath sourcePath : Path) (e : Entry) :
    destination.Served destinationPath sourcePath e ∨
      ∃ err, destination.Refused destinationPath sourcePath e err := by
  cases hbelow : e.path.below? sourcePath with
  | none =>
    refine .inl fun rest hrest => ?_
    rw [Path.below?_eq_some_iff.2 hrest] at hbelow
    cases hbelow
  | some rest =>
    have hpath := Path.below?_eq_some_iff.1 hbelow
    cases hget : destination.get? (destinationPath ++ rest) with
    | none => exact .inr ⟨_, rest, hpath, .inl ⟨hget, rfl⟩⟩
    | some d =>
      cases halias : d.isAlias with
      | false => exact .inr ⟨_, rest, hpath, .inr ⟨d, hget, halias, rfl⟩⟩
      | true =>
        refine .inl fun other hother => ⟨d, ?_, halias⟩
        rw [List.append_cancel_left (hpath.symm.trans hother)] at hget
        exact hget

theorem Refused.not_served {e : Entry} {err : CounterError}
    (h : destination.Refused destinationPath sourcePath e err) :
    ¬ destination.Served destinationPath sourcePath e := by
  rintro hserved
  obtain ⟨rest, hpath, hcase⟩ := h
  obtain ⟨d, hget, halias⟩ := hserved rest hpath
  rcases hcase with ⟨hnone, -⟩ | ⟨d', hget', halias', -⟩
  · rw [hnone] at hget
    cases hget
  · rw [hget] at hget'
    cases hget'
    rw [halias] at halias'
    cases halias'

/-- An entry is served: its copy comes first. -/
theorem planFrom_cons_of_served {e : Entry} (rest : List Entry)
    (h : destination.Served destinationPath sourcePath e) :
    planFrom destination destinationPath sourcePath (e :: rest) =
      ((destination.copy? destinationPath sourcePath e).toList ++ ·) <$>
        planFrom destination destinationPath sourcePath rest := by
  rw [planFrom, copy?]
  cases hbelow : e.path.below? sourcePath with
  | none => simp
  | some relative =>
    obtain ⟨d, hget, halias⟩ := h relative (Path.below?_eq_some_iff.1 hbelow)
    simp only [hget, halias, if_true, Option.bind_some, Option.map_some, Option.toList_some]
    rfl

/-- An entry is refused: the plan ends with what is reported of it. -/
theorem planFrom_cons_of_refused {e : Entry} {err : CounterError} (rest : List Entry)
    (h : destination.Refused destinationPath sourcePath e err) :
    planFrom destination destinationPath sourcePath (e :: rest) = .error err := by
  obtain ⟨relative, hpath, hcase⟩ := h
  rw [planFrom, Path.below?_eq_some_iff.2 hpath]
  rcases hcase with ⟨hget, rfl⟩ | ⟨d, hget, halias, rfl⟩
  · simp only [hget]
  · simp only [hget, halias]
    rfl

/-- Served entries are planned in turn, and the plan goes on after them. -/
theorem planFrom_append_of_served {before : List Entry} (after : List Entry)
    (h : ∀ e ∈ before, destination.Served destinationPath sourcePath e) :
    planFrom destination destinationPath sourcePath (before ++ after) =
      (before.filterMap (destination.copy? destinationPath sourcePath) ++ ·) <$>
        planFrom destination destinationPath sourcePath after := by
  induction before with
  | nil => simp
  | cons e before ih =>
    rw [List.cons_append, planFrom_cons_of_served _ (h e List.mem_cons_self),
      ih fun e' he' => h e' (List.mem_cons_of_mem e he')]
    cases hcopy : destination.copy? destinationPath sourcePath e <;> simp [hcopy]

/-- All entries are served, or one is the first that is refused. -/
theorem served_or_split (destination : Map) (destinationPath sourcePath : Path)
    (entries : List Entry) :
    (∀ e ∈ entries, destination.Served destinationPath sourcePath e) ∨
      ∃ before e after err, entries = before ++ e :: after ∧
        (∀ e' ∈ before, destination.Served destinationPath sourcePath e') ∧
        destination.Refused destinationPath sourcePath e err := by
  induction entries with
  | nil => exact .inl fun e he => absurd he List.not_mem_nil
  | cons e entries ih =>
    rcases served_or_refused destination destinationPath sourcePath e with hserved | ⟨err, href⟩
    · rcases ih with hall | ⟨before, e', after, err, rfl, hbefore, href⟩
      · exact .inl (List.forall_mem_cons.2 ⟨hserved, hall⟩)
      · exact .inr ⟨e :: before, e', after, err, rfl, List.forall_mem_cons.2 ⟨hserved, hbefore⟩,
          href⟩
    · exact .inr ⟨[], e, entries, err, rfl, fun e' he' => absurd he' List.not_mem_nil, href⟩

/-- An assignment is planned exactly if all entries are served, with one copy for each that is below
the path. -/
theorem planFrom_eq_ok_iff {entries : List Entry} {copies : List Copy} :
    planFrom destination destinationPath sourcePath entries = .ok copies ↔
      (∀ e ∈ entries, destination.Served destinationPath sourcePath e) ∧
      copies = entries.filterMap (destination.copy? destinationPath sourcePath) := by
  rcases served_or_split destination destinationPath sourcePath entries with
    hall | ⟨before, e, after, err, rfl, hbefore, href⟩
  · have hplan := planFrom_append_of_served [] hall
    rw [List.append_nil] at hplan
    rw [hplan, and_iff_right hall, planFrom]
    simp [eq_comm]
  · rw [planFrom_append_of_served _ hbefore, planFrom_cons_of_refused after href]
    constructor
    · rintro ⟨⟩
    · rintro ⟨hall, -⟩
      exact absurd (hall e (by simp)) href.not_served

/-- An assignment is refused for the first entry that is not served. -/
theorem planFrom_eq_error_iff {entries : List Entry} {err : CounterError} :
    planFrom destination destinationPath sourcePath entries = .error err ↔
      ∃ before e after, entries = before ++ e :: after ∧
        (∀ e' ∈ before, destination.Served destinationPath sourcePath e') ∧
        destination.Refused destinationPath sourcePath e err := by
  constructor
  · intro herror
    rcases served_or_split destination destinationPath sourcePath entries with
      hall | ⟨before, e, after, err', rfl, hbefore, href⟩
    · rw [planFrom_eq_ok_iff.2 ⟨hall, rfl⟩] at herror
      cases herror
    · rw [planFrom_append_of_served _ hbefore, planFrom_cons_of_refused after href] at herror
      cases herror
      exact ⟨before, e, after, rfl, hbefore, href⟩
  · rintro ⟨before, e, after, rfl, hbefore, href⟩
    rw [planFrom_append_of_served _ hbefore, planFrom_cons_of_refused after href]
    rfl

/-- Maps that are filled by any insertions, and any assignment between them.

The paths of a map are pairwise different and in the order of first insertion, an entry is the one
that its path has, and a path has the last entry inserted at it; a map that looks its paths up in
an index holds the same entries, never reads a position that is not there, and finds the same.

The assignment is planned exactly if every source entry at `sourcePath` followed by some `rest` has
an entry of the destination at `destinationPath` followed by `rest` that can be rebound.  The plan
then has the copies for these entries and no others, in the order of the source.  Else it is the
first source entry without such a counterpart that decides what is reported: that the path of the
destination is missing, or that its entry cannot be rebound. -/
theorem assignAt_ofList (destinations sources : List Entry) (destinationPath sourcePath : Path) :
    ((ofList destinations).entries.map (·.path)).Nodup ∧
    (ofList destinations).entries.map (·.path) = (destinations.map (·.path)).eraseDups ∧
    (∀ e ∈ (ofList destinations).entries, (ofList destinations).get? e.path = some e) ∧
    (∀ p, (ofList destinations).get? p = (destinations.filter (·.path = p)).getLast?) ∧
    (∃ x, SlotMap.ofList destinations = .ok x ∧ x.entries = (ofList destinations).entries ∧
      (∀ p i, x.slots[p]? = some i ↔ ∃ e : Entry, x.entries[i]? = some e ∧ e.path = p) ∧
      ∀ p, x.get? p = .ok ((ofList destinations).get? p)) ∧
    ((∃ copies, (ofList destinations).assignAt destinationPath (ofList sources) sourcePath =
        .ok copies) ↔
      ∀ e ∈ (ofList sources).entries, ∀ rest, e.path = sourcePath ++ rest →
        ∃ d, (ofList destinations).get? (destinationPath ++ rest) = some d ∧ d.isAlias = true) ∧
    (∀ copies, (ofList destinations).assignAt destinationPath (ofList sources) sourcePath =
        .ok copies →
      copies = (ofList sources).entries.filterMap fun e =>
        (e.path.below? sourcePath).bind fun rest =>
          ((ofList destinations).get? (destinationPath ++ rest)).map fun d =>
            ⟨d.counter, e.counter⟩) ∧
    ∀ err, (ofList destinations).assignAt destinationPath (ofList sources) sourcePath =
        .error err ↔
      ∃ before e after, (ofList sources).entries = before ++ e :: after ∧
        (∀ e' ∈ before, (ofList destinations).Served destinationPath sourcePath e') ∧
        (ofList destinations).Refused destinationPath sourcePath e err := by
  have hnodup := nodup_map_path_ofList destinations
  -- the map with slots stays in step with the list, so it says the same of every path
  obtain ⟨x, hx, hfollows⟩ := SlotMap.ofList_follows destinations
  refine ⟨hnodup, map_path_ofList destinations, fun e he => get?_of_mem hnodup he,
    get?_ofList destinations, ⟨x, hx, hfollows.entries, fun p i => ?_, hfollows.get?⟩, ?_, ?_,
    fun err => planFrom_eq_error_iff⟩
  · rw [hfollows.entries]
    exact hfollows.slots p i
  · constructor
    · rintro ⟨copies, hplan⟩
      exact (planFrom_eq_ok_iff.1 hplan).1
    · intro hall
      exact ⟨_, planFrom_eq_ok_iff.2 ⟨hall, rfl⟩⟩
  · intro copies hplan
    exact (planFrom_eq_ok_iff.1 hplan).2

end Map

end ShaderLowering.Counter
