import Mathlib.Data.List.Nodup
import ShaderLowering.Counter.Map

/-!
# Assignments between counter maps

Entries of different paths are kept as they are (`Map.foldl_insert`) and found where they are
(`Map.get?_of_mem`).  Where the entries below a member of one map are those of another map, path by
path, an assignment between this member and the other declaration makes one copy for each of them,
in either direction (`Map.Matches.assignAt_part`, `Map.Matches.assignAt_whole`).
-/

namespace ShaderLowering.Counter.Map

variable {m whole part : Map} {p : Path} {e : Entry} {pairs : List (Entry × Entry)}

/-! ## Maps of different paths -/

theorem insert_of_not_mem (h : e.path ∉ m.entries.map (·.path)) :
    m.insert e = ⟨m.entries ++ [e]⟩ := by
  have hnone : m.get? e.path = none :=
    get?_eq_none_iff.2 fun old hold heq => h (heq ▸ List.mem_map_of_mem hold)
  rw [insert, hnone]
  rfl

theorem foldl_insert_append (entries : List Entry) (m : Map)
    (h : (m.entries ++ entries).Pairwise (·.path ≠ ·.path)) :
    entries.foldl insert m = ⟨m.entries ++ entries⟩ := by
  induction entries generalizing m with
  | nil => rw [List.foldl_nil, List.append_nil]
  | cons e entries ih =>
    have hnew : e.path ∉ m.entries.map (·.path) := by
      intro hmem
      obtain ⟨old, hold, heq⟩ := List.mem_map.1 hmem
      exact (List.pairwise_append.1 h).2.2 old hold e List.mem_cons_self heq
    rw [List.append_cons] at h ⊢
    rw [List.foldl_cons, insert_of_not_mem hnew, ih _ h]

/-- Entries of different paths are all kept, in their order. -/
theorem foldl_insert (entries : List Entry) (h : (entries.map (·.path)).Nodup) :
    entries.foldl insert {} = ⟨entries⟩ :=
  foldl_insert_append entries {} (List.pairwise_map.1 h)

/-- Where all paths are different, an entry is found at its path. -/
theorem get?_of_mem (h : (m.entries.map (·.path)).Nodup) (he : e ∈ m.entries) :
    m.get? e.path = some e := by
  cases hget : m.get? e.path with
  | none => exact absurd rfl (get?_eq_none_iff.1 hget e he)
  | some old =>
    rw [List.inj_on_of_nodup_map h (List.mem_of_find?_eq_some hget) he (path_of_get? hget)]

/-! ## Plans -/

/-- The entries at a path and below it. -/
def below (m : Map) (p : Path) : List Entry := m.entries.filter fun e => (e.path.below? p).isSome

theorem map_path_below (m : Map) (p : Path) :
    (m.below p).map (·.path) = ((m.entries.map (·.path)).filterMap (·.below? p)).map (p ++ ·) := by
  rw [below, List.filterMap_map]
  induction m.entries with
  | nil => rfl
  | cons e entries ih =>
    rw [List.filterMap_cons, Function.comp_apply]
    cases h : e.path.below? p with
    | none => rw [List.filter_cons_of_neg (by simp [h]), ih]
    | some rest =>
      rw [List.filter_cons_of_pos (by simp [h]), List.map_cons, ih, List.map_cons,
        Path.below?_eq_some_iff.1 h]

/-- Only the entries below the path are planned for. -/
theorem planFrom_below (destination : Map) (destinationPath sourcePath : Path)
    (entries : List Entry) :
    planFrom destination destinationPath sourcePath
        (entries.filter fun e => (e.path.below? sourcePath).isSome) =
      planFrom destination destinationPath sourcePath entries := by
  induction entries with
  | nil => rfl
  | cons e entries ih =>
    cases h : e.path.below? sourcePath with
    | none => rw [List.filter_cons_of_neg (by simp [h]), planFrom, h, ih]
    | some rest => rw [List.filter_cons_of_pos (by simp [h]), planFrom, planFrom, h, ih]

/-- The plan for entries whose counterparts at the destination can be rebound. -/
theorem planFrom_pairs (destination : Map) (destinationPath sourcePath : Path)
    (pairs : List (Entry × Entry))
    (h : ∀ q ∈ pairs, ∃ rest, q.2.path = sourcePath ++ rest ∧
      destination.get? (destinationPath ++ rest) = some q.1 ∧ q.1.isAlias = true) :
    planFrom destination destinationPath sourcePath (pairs.map (·.2)) =
      .ok (pairs.map fun q => ⟨q.1.counter, q.2.counter⟩) := by
  induction pairs with
  | nil => rfl
  | cons q pairs ih =>
    obtain ⟨rest, hpath, hget, halias⟩ := h q List.mem_cons_self
    rw [List.map_cons, planFrom, Path.below?_eq_some_iff.2 hpath]
    dsimp only
    rw [hget]
    dsimp only
    rw [if_pos halias, ih fun q' hq' => h q' (List.mem_cons_of_mem q hq')]
    rfl

/-! ## A member and its own declaration -/

/-- The entries of `whole` below a path and those of `part`, pair by pair. -/
structure Matches (whole part : Map) (p : Path) (pairs : List (Entry × Entry)) : Prop where
  whole : pairs.map (·.1) = whole.below p
  part : pairs.map (·.2) = part.entries
  path : ∀ q ∈ pairs, q.1.path = p ++ q.2.path

/-- All paths are different and all counters can be rebound. -/
structure Rebindable (m : Map) : Prop where
  nodup : (m.entries.map (·.path)).Nodup
  isAlias : ∀ e ∈ m.entries, e.isAlias = true

namespace Matches

theorem left_mem (h : Matches whole part p pairs) {q : Entry × Entry} (hq : q ∈ pairs) :
    q.1 ∈ whole.entries :=
  (List.mem_filter.1 (h.whole ▸ List.mem_map_of_mem hq : q.1 ∈ whole.below p)).1

theorem right_mem (h : Matches whole part p pairs) {q : Entry × Entry} (hq : q ∈ pairs) :
    q.2 ∈ part.entries :=
  h.part ▸ List.mem_map_of_mem hq

/-- The member takes over the counters of the declaration. -/
theorem assignAt_whole (h : Matches whole part p pairs) (hwhole : whole.Rebindable) :
    whole.assignAt p part [] = .ok (pairs.map fun q => ⟨q.1.counter, q.2.counter⟩) := by
  rw [assignAt, ← h.part]
  refine planFrom_pairs whole p [] pairs fun q hq =>
    ⟨q.2.path, rfl, ?_, hwhole.isAlias _ (h.left_mem hq)⟩
  rw [← h.path q hq]
  exact get?_of_mem hwhole.nodup (h.left_mem hq)

/-- The declaration takes over the counters of the member. -/
theorem assignAt_part (h : Matches whole part p pairs) (hpart : part.Rebindable) :
    part.assignAt [] whole p = .ok (pairs.map fun q => ⟨q.2.counter, q.1.counter⟩) := by
  have hplan := planFrom_pairs part [] p (pairs.map Prod.swap) fun q hq => by
    obtain ⟨r, hr, rfl⟩ := List.mem_map.1 hq
    exact ⟨r.2.path, h.path r hr, get?_of_mem hpart.nodup (h.right_mem hr),
      hpart.isAlias _ (h.right_mem hr)⟩
  have hbelow : (pairs.map Prod.swap).map (·.2) = whole.below p := by
    rw [List.map_map, ← h.whole]
    rfl
  -- the source has more entries than those below the path, but they are passed over
  rw [assignAt, ← planFrom_below, ← below, ← hbelow, hplan, List.map_map]
  rfl

end Matches

/-- Entries with the same paths match pair by pair. -/
theorem exists_matches (h : (whole.entries.map (·.path)).filterMap (·.below? p) =
      part.entries.map (·.path)) : ∃ pairs, Matches whole part p pairs := by
  have hpaths : (whole.below p).map (·.path) = part.entries.map (p ++ ·.path) := by
    rw [map_path_below, h, List.map_map]
    rfl
  have hlength : (whole.below p).length = part.entries.length := by
    simpa using congrArg List.length hpaths
  obtain ⟨pairs, hwhole, hpart⟩ : ∃ pairs : List (Entry × Entry),
      pairs.map (·.1) = whole.below p ∧ pairs.map (·.2) = part.entries :=
    ⟨(whole.below p).zip part.entries, List.map_fst_zip (Nat.le_of_eq hlength),
      List.map_snd_zip (Nat.le_of_eq hlength.symm)⟩
  rw [← hwhole, ← hpart, List.map_map, List.map_map] at hpaths
  exact ⟨pairs, hwhole, hpart, List.map_inj_left.1 hpaths⟩

end ShaderLowering.Counter.Map
