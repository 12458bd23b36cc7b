import ShaderLowering.Proofs.Interface.EntryPoint

/-!
# Leaves and distances that agree

An entry point is walked twice: once for the leaves of its interface, which may inherit a semantic
from the structure around them, and once for its distances, which go by the semantics written on
them.  Two things can go wrong.  A leaf can be lost: it is placed in an array of distances but was
never recorded, or it belongs to a parameter that is not lowered.  And an array can be created that
no leaf is placed in.  For a lowered entry point with which nothing is wrong, both are decided on
its declaration (`keepsLeaves_iff`, `arrays_packed_iff`), and both do happen.
-/

namespace ShaderLowering

open Source (Ty Field Param Function EntryPoint)
open Spirv (Builtin)

/-! ## Leaves that are kept -/

/-- Every leaf of an entry point is found again in a session. -/
structure Session.KeepsLeaves (s : Session) (e : EntryPoint) : Prop where
  /-- Every leaf is allowed where it stands. -/
  placed : ∀ l ∈ e.leaves, (l.site? e.stage).isSome
  /-- A leaf at a location has an interface variable of its own. -/
  located : ∃ own : List InterfaceLabel, own.Perm (e.leaves.filterMap (·.located? e.stage)) ∧
    own.Sublist (s.interface.filterMap (·.located?))
  /-- A leaf that is a builtin has a variable in its direction. -/
  builtin : ∀ l ∈ e.leaves, ∀ b, l.site? e.stage = some (.builtin b) → s.HasBuiltin b l.direction
  /-- A packed leaf is accessible, in the number of its components. -/
  packed : ∀ l ∈ e.leaves, l.site? e.stage = some .packed → ∃ semantic kind access,
    l.semantic = some semantic ∧ semantic.kind.distance? = some kind ∧
      (s.distances.get l.direction kind).access? semantic.index none = some access ∧
      distanceCount? l.decl.ty = some access.count

/-- No leaf of an entry point is lost. -/
structure Source.EntryPoint.LosesNoLeaf (e : EntryPoint) : Prop where
  /-- A dropped leaf is at no location, and as a builtin it shares the variable of a lowered one. -/
  dropped : ∀ l ∈ e.droppedLeaves, ∃ site, l.site? e.stage = some site ∧ site ≠ .location ∧
    ∀ b, site = .builtin b →
      ∃ l' ∈ e.loweredLeaves, l'.site? e.stage = some (.builtin b) ∧ l'.direction = l.direction
  /-- A packed leaf is recorded with its own semantic and type. -/
  packed : ∀ l ∈ e.leaves, l.site? e.stage = some .packed → ∃ semantic kind count,
    l.semantic = some semantic ∧ semantic.kind.distance? = some kind ∧
      distanceCount? l.decl.ty = some count ∧ e.Fills l.direction kind ∧
      e.Declares l.direction kind semantic.index count

namespace Session.Represents

variable {s : Session} {e : EntryPoint} {l : InterfaceLeaf}

/-- The variable of a builtin leaf is that of a lowered leaf, never an array of distances. -/
theorem builtin_of_site? (h : s.Represents e) {b : Builtin}
    (hsite : l.site? e.stage = some (.builtin b)) : s.HasBuiltin b l.direction ↔
      ∃ l' ∈ e.loweredLeaves, l'.site? e.stage = some (.builtin b) ∧
        l'.direction = l.direction := by
  rw [h.builtin]
  refine or_iff_right ?_
  rintro ⟨kind, -, hb⟩
  exact l.ne_distance_of_site? hsite kind hb

theorem access_iff (h : s.Represents e) {kind : DistanceKind} {index : Nat} {ty : Ty}
    {direction : Direction} : (∃ access,
      (s.distances.get direction kind).access? index none = some access ∧
        distanceCount? ty = some access.count) ↔
      ∃ count, distanceCount? ty = some count ∧ e.Fills direction kind ∧
        e.Declares direction kind index count := by
  constructor
  · rintro ⟨access, haccess, hcount⟩
    exact ⟨access.count, hcount, (h.access _ _ _ _ _).1 ⟨access, haccess, rfl⟩⟩
  · rintro ⟨count, hcount, hdeclared⟩
    obtain ⟨access, haccess, rfl⟩ := (h.access _ _ _ _ none).2 hdeclared
    exact ⟨access, haccess, hcount⟩

end Session.Represents

namespace Source.EntryPoint

variable {e : EntryPoint}

/-- There is room for all leaves at locations among the lowered ones exactly if none is dropped. -/
theorem located_iff : (∃ own : List InterfaceLabel,
      own.Perm (e.leaves.filterMap (·.located? e.stage)) ∧
        own.Sublist (e.loweredLeaves.filterMap (·.located? e.stage))) ↔
    ∀ l ∈ e.droppedLeaves, l.site? e.stage ≠ some .location := by
  have hperm := e.leaves_perm.filterMap (·.located? e.stage)
  rw [List.filterMap_append] at hperm
  have hnone : e.droppedLeaves.filterMap (·.located? e.stage) = [] ↔
      ∀ l ∈ e.droppedLeaves, l.site? e.stage ≠ some .location := by
    rw [List.filterMap_eq_nil_iff]
    refine forall₂_congr fun l _ => ?_
    simp [InterfaceLeaf.located?]
  rw [← hnone]
  constructor
  · -- the lowered leaves give a place to every leaf only if there are no others
    rintro ⟨own, hown, hsub⟩
    have hle := hsub.length_le
    rw [(hown.trans hperm).length_eq, List.length_append] at hle
    exact List.length_eq_zero_iff.1 (by omega)
  · intro hnil
    rw [hnil, List.append_nil] at hperm
    exact ⟨_, hperm.symm, .refl _⟩

end Source.EntryPoint

/-- **Which entry points lose no leaf.**  After an entry point was lowered with nothing wrong, every
leaf is found again exactly if the dropped leaves need nothing of their own and the packed leaves
are recorded. -/
theorem Lower.keepsLeaves_iff {e : EntryPoint} {stage : Stage} {options : Options} {s : Session}
    (h : (entryPoint e).runOn (.start stage options) = (.ok true, s)) :
    s.KeepsLeaves e ↔ e.LosesNoLeaf := by
  have hs := represents_entryPoint h
  -- located and packed leaves are compared once, for both directions
  have hlocated : (∃ own : List InterfaceLabel,
      own.Perm (e.leaves.filterMap (·.located? e.stage)) ∧
        own.Sublist (s.interface.filterMap (·.located?))) ↔
      ∀ l ∈ e.droppedLeaves, l.site? e.stage ≠ some .location := by
    rw [hs.located]
    exact EntryPoint.located_iff
  have hmem : ∀ l, l ∈ e.leaves ↔ l ∈ e.loweredLeaves ∨ l ∈ e.droppedLeaves := fun l => by
    rw [e.leaves_perm.mem_iff, List.mem_append]
  have hpacked : ∀ l : InterfaceLeaf, (∃ semantic kind access,
      l.semantic = some semantic ∧ semantic.kind.distance? = some kind ∧
        (s.distances.get l.direction kind).access? semantic.index none = some access ∧
        distanceCount? l.decl.ty = some access.count) ↔
      ∃ semantic kind count, l.semantic = some semantic ∧ semantic.kind.distance? = some kind ∧
        distanceCount? l.decl.ty = some count ∧ e.Fills l.direction kind ∧
        e.Declares l.direction kind semantic.index count := by
    intro l
    refine exists_congr fun semantic => exists_congr fun kind => ?_
    simp only [exists_and_left, hs.access_iff]
  constructor
  · intro hkeeps
    refine ⟨fun l hl => ?_, fun l hl hsite => (hpacked l).1 (hkeeps.packed l hl hsite)⟩
    have hleaf : l ∈ e.leaves := (hmem l).2 (.inr hl)
    obtain ⟨site, hsite⟩ := Option.isSome_iff_exists.1 (hkeeps.placed l hleaf)
    refine ⟨site, hsite, ?_, ?_⟩
    · rintro rfl
      exact hlocated.1 hkeeps.located l hl hsite
    · rintro b rfl
      exact (hs.builtin_of_site? hsite).1 (hkeeps.builtin l hleaf b hsite)
  · intro hloses
    refine ⟨fun l hl => ?_, hlocated.2 fun l hl hsite => ?_, fun l hl b hsite => ?_,
      fun l hl hsite => (hpacked l).2 (hloses.packed l hl hsite)⟩
    · rcases (hmem l).1 hl with hl | hl
      · exact hs.placed l hl
      · obtain ⟨site, hsite, -⟩ := hloses.dropped l hl
        rw [hsite]
        rfl
    · obtain ⟨site, hsite', hne, -⟩ := hloses.dropped l hl
      rw [hsite] at hsite'
      exact hne (Option.some.inj hsite').symm
    · refine (hs.builtin_of_site? hsite).2 ?_
      rcases (hmem l).1 hl with hl | hl
      · exact ⟨l, hl, hsite, rfl⟩
      · obtain ⟨site, hsite', -, hshared⟩ := hloses.dropped l hl
        rw [hsite] at hsite'
        exact hshared b (Option.some.inj hsite').symm

/-- A vertex shader whose result has its distances by a semantic on the structure. -/
def inheritedDistances : EntryPoint where
  stage := .vertex
  function := {
    id := 1
    name := "main"
    result := .struct "S" .absent
      (.cons "a" (.scalar .single) {} {} (.cons "b" (.scalar .single) {} {} .nil))
    resultAttributes := { semantic := some "SV_ClipDistance0" } }

/-- The session after it was lowered. -/
def inheritedSession : Session := ((Lower.entryPoint inheritedDistances).runOn (.start .vertex {})).2

theorem runOn_inheritedDistances :
    (Lower.entryPoint inheritedDistances).runOn (.start .vertex {}) = (.ok true, inheritedSession) :=
  Prod.ext (by decide +kernel) rfl

theorem Lower.keepsLeaves_iff_inheritedDistances :
    (entryPoint inheritedDistances).runOn (.start .vertex {}) = (.ok true, inheritedSession) ∧
      (inheritedSession.KeepsLeaves inheritedDistances ↔ inheritedDistances.LosesNoLeaf) :=
  ⟨runOn_inheritedDistances, keepsLeaves_iff runOn_inheritedDistances⟩

/-- Its leaves are packed, but nothing is recorded for them. -/
theorem Lower.not_keepsLeaves :
    (entryPoint inheritedDistances).runOn (.start .vertex {}) = (.ok true, inheritedSession) ∧
      ¬inheritedSession.KeepsLeaves inheritedDistances := by
  refine ⟨runOn_inheritedDistances, fun hkeeps => ?_⟩
  let clip : Semantic := ⟨"SV_ClipDistance0", "SV_ClipDistance", 0, .clipDistance, {}⟩
  let l : InterfaceLeaf := ⟨.vertexOut, ⟨"a", .scalar .single, {}, {}⟩, some clip⟩
  have hmem : l ∈ inheritedDistances.leaves := by
    have hleaves : inheritedDistances.leaves = l :: inheritedDistances.leaves.tail := by
      decide +kernel
    rw [hleaves]
    exact List.mem_cons_self
  obtain ⟨semantic, kind, access, -, -, haccess, -⟩ := hkeeps.packed l hmem rfl
  have hs := represents_entryPoint runOn_inheritedDistances
  obtain ⟨-, part, hpart, hdeclares⟩ := (hs.access _ _ _ _ _).1 ⟨access, haccess, rfl⟩
  -- the record walk meets the fields only, and these have no semantics of their own
  have hnone : inheritedDistances.distanceParts.all fun part => part.2.semantic.isNone := by decide
  have hsemantic := List.all_eq_true.1 hnone _ hpart
  rw [Option.isNone_iff_eq_none] at hsemantic
  rw [DistanceLeaf.declares?, hsemantic] at hdeclares
  cases hdeclares

/-! ## Arrays that are packed -/

namespace Source.EntryPoint

/-- Whether a leaf is placed in the array of a direction and kind. -/
def Packs (e : EntryPoint) (direction : Direction) (kind : DistanceKind) : Prop :=
  ∃ l ∈ e.leaves, l.direction = direction ∧ l.packed? e.stage = some kind

/-- Whether a leaf is placed there with a semantic index. -/
def PacksAt (e : EntryPoint) (direction : Direction) (kind : DistanceKind) (index : Nat) : Prop :=
  ∃ l ∈ e.leaves, l.direction = direction ∧ l.packed? e.stage = some kind ∧
    l.semantic.map (·.index) = some index

end Source.EntryPoint

/-- There is an array exactly where a component is recorded. -/
theorem Session.Represents.hasArray_iff {s : Session} {e : EntryPoint} (h : s.Represents e)
    {direction : Direction} {kind : DistanceKind} :
    s.HasBuiltin kind.builtin direction ↔ e.Fills direction kind := by
  rw [h.builtin]
  constructor
  · rintro (⟨kind', hfills, hkind⟩ | ⟨l, -, hsite, -⟩)
    · rw [DistanceKind.builtin_inj.1 hkind]
      exact hfills
    · exact absurd rfl (l.ne_distance_of_site? hsite kind)
  · intro hfills
    exact .inl ⟨kind, hfills, rfl⟩

theorem Session.Represents.isSome_access?_iff {s : Session} {e : EntryPoint} (h : s.Represents e)
    {direction : Direction} {kind : DistanceKind} {index : Nat} :
    ((s.distances.get direction kind).access? index none).isSome ↔
      e.Fills direction kind ∧ ∃ count, e.Declares direction kind index count := by
  rw [Option.isSome_iff_exists]
  constructor
  · rintro ⟨access, haccess⟩
    obtain ⟨hfills, hdeclares⟩ := (h.access _ _ _ _ _).1 ⟨access, haccess, rfl⟩
    exact ⟨hfills, access.count, hdeclares⟩
  · rintro ⟨hfills, count, hdeclares⟩
    obtain ⟨access, haccess, -⟩ := (h.access _ _ _ _ none).2 ⟨hfills, hdeclares⟩
    exact ⟨access, haccess⟩

/-- **Which arrays belong to a leaf.**  After an entry point was lowered with nothing wrong, every
array of distances has a leaf that is placed in it exactly if something is recorded only for
directions and kinds that have one, and every part of an array is that of such a leaf exactly if
every index that is recorded has one. -/
theorem Lower.arrays_packed_iff {e : EntryPoint} {stage : Stage} {options : Options} {s : Session}
    (h : (entryPoint e).runOn (.start stage options) = (.ok true, s)) :
    ((∀ direction kind, s.HasBuiltin kind.builtin direction → e.Packs direction kind) ↔
      ∀ direction kind, e.Fills direction kind → e.Packs direction kind) ∧
    ((∀ direction kind index, ((s.distances.get direction kind).access? index none).isSome →
        e.PacksAt direction kind index) ↔
      ∀ direction kind index count, e.Fills direction kind →
        e.Declares direction kind index count → e.PacksAt direction kind index) := by
  have hs := represents_entryPoint h
  constructor
  · simp only [hs.hasArray_iff]
  · simp only [hs.isSome_access?_iff]
    constructor
    · intro hpacks direction kind index count hfills hdeclares
      exact hpacks direction kind index ⟨hfills, count, hdeclares⟩
    · rintro hpacks direction kind index ⟨hfills, count, hdeclares⟩
      exact hpacks direction kind index count hfills hdeclares

/-- A vertex shader whose parameter is at a location, with the semantic of a distance. -/
def locatedDistance : EntryPoint where
  stage := .vertex
  function := {
    id := 1
    name := "main"
    params := [{
      id := 2
      name := "a"
      ty := .vector .single 2
      attributes := { semantic := some "SV_ClipDistance0" } }] }

/-- The session after it was lowered. -/
def locatedSession : Session := ((Lower.entryPoint locatedDistance).runOn (.start .vertex {})).2

theorem runOn_locatedDistance :
    (Lower.entryPoint locatedDistance).runOn (.start .vertex {}) = (.ok true, locatedSession) :=
  Prod.ext (by decide +kernel) rfl

theorem Lower.arrays_packed_iff_locatedDistance :
    (entryPoint locatedDistance).runOn (.start .vertex {}) = (.ok true, locatedSession) ∧
    ((∀ direction kind, locatedSession.HasBuiltin kind.builtin direction →
        locatedDistance.Packs direction kind) ↔
      ∀ direction kind, locatedDistance.Fills direction kind →
        locatedDistance.Packs direction kind) ∧
    ((∀ direction kind index,
        ((locatedSession.distances.get direction kind).access? index none).isSome →
          locatedDistance.PacksAt direction kind index) ↔
      ∀ direction kind index count, locatedDistance.Fills direction kind →
        locatedDistance.Declares direction kind index count →
          locatedDistance.PacksAt direction kind index) :=
  ⟨runOn_locatedDistance, arrays_packed_iff runOn_locatedDistance⟩

/-- It has an array of inputs, although its leaf is at a location. -/
theorem Lower.array_not_packed :
    (entryPoint locatedDistance).runOn (.start .vertex {}) = (.ok true, locatedSession) ∧
      locatedSession.HasBuiltin DistanceKind.clip.builtin .input ∧
      ¬locatedDistance.Packs .input .clip := by
  refine ⟨runOn_locatedDistance, ?_, ?_⟩
  · have hs := represents_entryPoint runOn_locatedDistance
    let part : DistanceLeaf := ⟨.vector .single 2, some "SV_ClipDistance0", {}⟩
    have hdeclares : part.declares? = some (.clip, 0, 2) := by decide +kernel
    exact hs.hasArray_iff.2 ⟨0, 2, ⟨part, List.mem_cons_self, hdeclares⟩, by decide⟩
  · rintro ⟨l, hl, -, hpacked⟩
    have hleaves : locatedDistance.leaves.all fun l =>
        l.packed? locatedDistance.stage = none := by decide +kernel
    have hnone := List.all_eq_true.1 hleaves l hl
    rw [decide_eq_true_eq] at hnone
    rw [hnone] at hpacked
    cases hpacked

end ShaderLowering
