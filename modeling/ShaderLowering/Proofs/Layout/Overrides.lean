import ShaderLowering.Proofs.Action
import ShaderLowering.Proofs.Layout.Places

/-!
# Explicit offsets of members

A member that asks for an offset gets it if everything before it has ended there.  One that asks for
less is placed as if it had not asked: the layout without its annotation is the same one, but for
the overlap that it is recorded with.  The order of the members, the room of the whole and what is
reported follow from what one member's place is (`place_eq_ok`), by induction on the members.
-/

namespace ShaderLowering

open Source (Attributes Field Position)

namespace Source.Attributes

/-- The byte offset that is asked for: one in bytes comes first, one in registers counts sixteen for
each register and four for each component. -/
def requestedOffset? (a : Attributes) : Option Nat :=
  a.offset.or (a.packOffset.map fun p => 16 * p.register + 4 * p.component)

/-- The annotations without those about the offset. -/
def withoutOffset (a : Attributes) : Attributes := { a with offset := none, packOffset := none }

end Source.Attributes

/-- The part of a structure, asking for no offset. -/
def Source.Field.withoutOffset (f : Field) : Field :=
  { f with attributes := f.attributes.withoutOffset }

namespace Layout

variable {options : Options} {rule : Rule}

/-! ## One member -/

theorem explicitOffset_eq_ok {a : Attributes} {explicit : Option (Nat × Bool)}
    (h : explicitOffset a = .ok explicit) :
    explicit = a.requestedOffset?.map (·, a.offset.isNone) := by
  rw [explicitOffset] at h
  rw [Attributes.requestedOffset?]
  split at h
  · rename_i bytes hoffset
    cases h
    rw [hoffset]
    rfl
  · rename_i pack hoffset hpack
    obtain ⟨bytes, hbytes, h⟩ := bind_eq_ok_iff.1 h
    obtain ⟨registers, hregisters, hbytes⟩ := bind_eq_ok_iff.1 hbytes
    obtain ⟨components, hcomponents, hbytes⟩ := bind_eq_ok_iff.1 hbytes
    cases h
    rw [Word.mul_eq_ok_iff] at hregisters hcomponents
    rw [Word.add_eq_ok_iff, hregisters.1, hcomponents.1, Nat.mul_comm, Nat.mul_comm pack.component]
      at hbytes
    rw [hoffset, hpack, hbytes.1]
    rfl
  · rename_i hoffset hpack
    cases h
    rw [hoffset, hpack]
    rfl

/-- The overlap of a member that asks for an offset where something stands already. -/
def overlapOf (name : String) (attributes : Attributes) (position : Position) (nextFree : Nat) :
    Option Overlap :=
  attributes.requestedOffset?.bind fun requested =>
    if requested < nextFree then
      some ⟨name, requested, nextFree, attributes.offset.isNone, position⟩
    else none

/-- The place of a member: where it asks to be, if that is free, else the first one that the rule
allows. -/
theorem place_eq_ok {nextFree : Nat} {m : Unplaced} {p : Placed}
    (h : place rule nextFree m = .ok p) :
    ∃ natural, naturalOffset rule m nextFree = .ok natural ∧
      p = ⟨(m.attributes.requestedOffset?.filter (nextFree ≤ ·)).getD natural, m.extent,
        overlapOf m.name m.attributes m.position nextFree⟩ := by
  obtain ⟨natural, hnatural, h⟩ := bind_eq_ok_iff.1 h
  obtain ⟨explicit, hexplicit, h⟩ := bind_eq_ok_iff.1 h
  refine ⟨natural, hnatural, ?_⟩
  rw [explicitOffset_eq_ok hexplicit] at h
  rw [overlapOf]
  cases hrequested : m.attributes.requestedOffset? with
  | none =>
    rw [hrequested] at h
    cases h
    rfl
  | some requested =>
    rw [hrequested] at h
    dsimp only [Option.map_some] at h
    split at h
    · rename_i hlt
      cases h
      rw [Option.filter_some_neg (by simpa using hlt), Option.bind_some, if_pos hlt]
      rfl
    · rename_i hle
      cases h
      rw [Option.filter_some_pos (by simpa using hle), Option.bind_some, if_neg hle]
      rfl

/-- A member before its place is known, asking for no offset. -/
def Unplaced.withoutOffset (m : Unplaced) : Unplaced :=
  { m with attributes := m.attributes.withoutOffset }

/-- A member that asks in vain stands where it stands without asking. -/
theorem place_withoutOffset {nextFree requested : Nat} {m : Unplaced} {p : Placed}
    (h : place rule nextFree m = .ok p)
    (hrequested : m.attributes.requestedOffset? = some requested)
    (hlt : requested < nextFree) :
    place rule nextFree m.withoutOffset = .ok { p with overlap := none } := by
  obtain ⟨natural, hnatural, rfl⟩ := place_eq_ok h
  have hsame : naturalOffset rule m.withoutOffset nextFree = .ok natural := hnatural
  rw [place, hsame, hrequested, Option.filter_some_neg (by simpa using hlt)]
  rfl

/-! ## Members one behind the other -/

/-- Where a member ends. -/
def Placed.stop (p : Placed) : Nat := p.offset + p.extent.size

/-- Where the first members end, of members that are placed from `start` on. -/
def endOf (start : Nat) (placed : List Placed) (count : Nat) : Nat :=
  ((placed.take count).map Placed.stop).getLastD start

theorem endOf_cons (start : Nat) (p : Placed) (placed : List Placed) (count : Nat) :
    endOf start (p :: placed) (count + 1) = endOf p.stop placed count := by
  rw [endOf, List.take_succ_cons, List.map_cons, List.getLastD_cons, endOf]

theorem placeFrom_cons_eq_ok {nextFree stop : Nat} {m : Unplaced} {rest : List Unplaced}
    {placed : List Placed} (h : placeFrom rule nextFree (m :: rest) = .ok (placed, stop)) :
    ∃ p others, placed = p :: others ∧ place rule nextFree m = .ok p ∧
      Word.add p.offset m.extent.size = .ok p.stop ∧
      placeFrom rule p.stop rest = .ok (others, stop) := by
  obtain ⟨p, hp, h⟩ := bind_eq_ok_iff.1 h
  obtain ⟨next, hnext, h⟩ := bind_eq_ok_iff.1 h
  obtain ⟨⟨others, stop'⟩, hothers, h⟩ := bind_eq_ok_iff.1 h
  cases h
  have hstop : next = p.stop := by
    rw [(Word.add_eq_ok_iff.1 hnext).1, Placed.stop, (place_spec hp).2]
  rw [hstop] at hnext hothers
  exact ⟨p, others, rfl, hp, hnext, hothers⟩

/-- Every member is placed behind the end of those before it. -/
theorem exists_place_of_placeFrom {ms : List Unplaced} {nextFree stop i : Nat}
    {placed : List Placed} {p : Placed} (h : placeFrom rule nextFree ms = .ok (placed, stop))
    (hi : placed[i]? = some p) :
    ∃ m, ms[i]? = some m ∧ place rule (endOf nextFree placed i) m = .ok p := by
  induction ms generalizing nextFree placed i with
  | nil =>
    cases h
    cases hi
  | cons m rest ih =>
    obtain ⟨first, others, rfl, hfirst, -, hothers⟩ := placeFrom_cons_eq_ok h
    cases i with
    | zero =>
      cases hi
      exact ⟨m, rfl, hfirst⟩
    | succ i =>
      rw [endOf_cons]
      exact ih hothers hi

/-- A member may be replaced by one that takes the same room. -/
theorem placeFrom_set {ms : List Unplaced} {nextFree stop i : Nat} {placed : List Placed}
    {p p' : Placed} {m' : Unplaced} (h : placeFrom rule nextFree ms = .ok (placed, stop))
    (hi : placed[i]? = some p) (hplace : place rule (endOf nextFree placed i) m' = .ok p')
    (hoffset : p'.offset = p.offset) (hextent : p'.extent = p.extent) :
    placeFrom rule nextFree (ms.set i m') = .ok (placed.set i p', stop) := by
  induction ms generalizing nextFree placed i with
  | nil =>
    cases h
    cases hi
  | cons m rest ih =>
    obtain ⟨first, others, rfl, hfirst, hnext, hothers⟩ := placeFrom_cons_eq_ok h
    cases i with
    | zero =>
      cases hi
      have hsame : m'.extent = m.extent := by
        rw [← (place_spec hplace).2, hextent, (place_spec hfirst).2]
      rw [← hoffset, ← hsame] at hnext
      refine bind_eq_ok_iff.2 ⟨p', hplace, bind_eq_ok_iff.2 ⟨_, hnext, ?_⟩⟩
      exact bind_eq_ok_iff.2 ⟨_, hothers, rfl⟩
    | succ i =>
      rw [endOf_cons] at hplace
      refine bind_eq_ok_iff.2 ⟨first, hfirst, bind_eq_ok_iff.2 ⟨_, hnext, ?_⟩⟩
      exact bind_eq_ok_iff.2 ⟨_, ih hothers hi hplace, rfl⟩

/-- Every member ends before the whole does. -/
theorem stop_le_of_placeFrom {ms : List Unplaced} {nextFree stop : Nat} {placed : List Placed}
    (h : placeFrom rule nextFree ms = .ok (placed, stop)) : ∀ p ∈ placed, p.stop ≤ stop := by
  induction ms generalizing nextFree placed with
  | nil =>
    cases h
    exact List.forall_mem_nil _
  | cons m rest ih =>
    obtain ⟨first, others, rfl, -, -, hothers⟩ := placeFrom_cons_eq_ok h
    exact List.forall_mem_cons.2 ⟨le_stop_of_placeFrom hothers, ih hothers⟩

theorem length_of_placeFrom {ms : List Unplaced} {nextFree stop : Nat} {placed : List Placed}
    (h : placeFrom rule nextFree ms = .ok (placed, stop)) : placed.length = ms.length := by
  induction ms generalizing nextFree placed with
  | nil =>
    cases h
    rfl
  | cons m rest ih =>
    obtain ⟨first, others, rfl, -, -, hothers⟩ := placeFrom_cons_eq_ok h
    exact congrArg Nat.succ (ih hothers)

/-! ## The whole structure -/

/-- The extent of a structure whose members have the given alignment and end at `stop`. -/
def enclosing (rule : Rule) (alignment stop : Nat) : Checked Extent :=
  if rule = .scalar then .ok (.solid alignment stop)
  else do
    let alignment ← Extent.aggregateAlignment rule alignment
    let size ← if rule.padsTail then Word.roundUp stop alignment else .ok stop
    return .solid alignment size

theorem RecordLayout.of_eq_ok_iff {ms : List Unplaced} {r : RecordLayout} (hne : ms ≠ []) :
    of rule ms = .ok r ↔ ∃ stop, placeFrom rule 0 ms = .ok (r.members, stop) ∧
      enclosing rule (maxAlignment ms) stop = .ok r.extent := by
  have heq : of rule ms = do
      let placed ← placeFrom rule 0 ms
      return ⟨placed.1, ← enclosing rule (maxAlignment ms) placed.2⟩ := by
    rw [of, if_neg (by simpa using hne)]
    refine bind_congr fun placed => ?_
    obtain ⟨members, stop⟩ := placed
    dsimp only
    rw [enclosing]
    split
    · rfl
    · rw [bind_assoc]
      refine bind_congr fun alignment => ?_
      split <;> simp only [bind_assoc, pure_bind]
  rw [heq, bind_eq_ok_iff]
  constructor
  · rintro ⟨⟨placed, stop⟩, hplaced, h⟩
    obtain ⟨x, hx, h⟩ := bind_eq_ok_iff.1 h
    cases h
    exact ⟨stop, hplaced, hx⟩
  · rintro ⟨stop, hplaced, hx⟩
    exact ⟨_, hplaced, bind_eq_ok_iff.2 ⟨_, hx, rfl⟩⟩

theorem Rule.padsTail_of_ne (rule : Rule) (hconstant : rule ≠ .registerConstant)
    (hstructured : rule ≠ .registerStructured) : rule.padsTail = true := by
  revert hconstant hstructured
  cases rule <;> decide

theorem Extent.le_aggregateAlignment {alignment a : Nat}
    (h : aggregateAlignment rule alignment = .ok a) : alignment ≤ a := by
  rw [aggregateAlignment] at h
  split at h
  · exact Word.le_of_roundUp h
  · cases h
    exact Nat.le_refl _

/-- The whole has room up to where its members end, and is aligned to them; where the rule pads it,
its size is a multiple of its alignment. -/
theorem enclosing_spec {alignment stop : Nat} {x : Extent}
    (h : enclosing rule alignment stop = .ok x) :
    stop ≤ x.size ∧ alignment ≤ x.alignment ∧
      (rule ≠ .scalar → rule.padsTail = true → x.alignment ≠ 0 → x.alignment ∣ x.size) := by
  rw [enclosing] at h
  split at h
  · rename_i hscalar
    cases h
    exact ⟨Nat.le_refl _, Nat.le_refl _, fun hne => absurd hscalar hne⟩
  obtain ⟨a, ha, h⟩ := bind_eq_ok_iff.1 h
  have hle := Extent.le_aggregateAlignment ha
  split at h
  · obtain ⟨size, hsize, h⟩ := bind_eq_ok_iff.1 h
    cases h
    refine ⟨Word.le_of_roundUp hsize, hle, fun _ _ (hpos : a ≠ 0) => ?_⟩
    exact ((Word.roundUp_eq_ok_iff (Nat.pos_of_ne_zero hpos)).1 hsize).1
  · rename_i hpads
    cases h
    exact ⟨Nat.le_refl _, hle, fun _ h => absurd h hpads⟩

/-- Annotations do not change the alignment of the whole. -/
theorem maxAlignment_withoutOffset {ms : List Unplaced} {i : Nat} {m : Unplaced}
    (hm : ms[i]? = some m) : maxAlignment (ms.set i m.withoutOffset) = maxAlignment ms := by
  induction ms generalizing i with
  | nil => rfl
  | cons first rest ih =>
    cases i with
    | zero =>
      cases hm
      rw [List.set_cons_zero, maxAlignment_cons, maxAlignment_cons]
      rfl
    | succ i => rw [List.set_cons_succ, maxAlignment_cons, maxAlignment_cons, ih hm]

/-- The layout of a structure with the given parts. -/
def membersLayout (options : Options) (rule : Rule) (parts : List Field) :
    Checked RecordLayout := do
  RecordLayout.of rule (← unplacedParts options rule parts)

/-- Where the members before the one with a number end. -/
def RecordLayout.nextFree (r : RecordLayout) : Nat → Nat
  | 0 => 0
  | i + 1 => (r.members[i]?).elim 0 Placed.stop

theorem RecordLayout.nextFree_eq {r : RecordLayout} {i : Nat} {p : Placed}
    (hi : r.members[i]? = some p) : r.nextFree i = endOf 0 r.members i := by
  cases i with
  | zero => rfl
  | succ i =>
    obtain ⟨hlt, -⟩ := List.getElem?_eq_some_iff.1 hi
    have hbefore := List.getElem?_eq_getElem (Nat.lt_of_succ_lt hlt)
    rw [nextFree, endOf, List.take_add_one, hbefore, Option.toList_some, List.map_append,
      List.map_singleton, List.getLastD_concat, Option.elim_some]

/-- What a layout is to be of given parts.  Members stand one behind the other, with the extents of
their types.  One that asks for an offset stands there if that is behind the others; one that asks
in vain is recorded, and for the rest leaves the layout as it is without its annotation. -/
structure PlacesAsAsked (options : Options) (rule : Rule) (parts : List Field)
    (r : RecordLayout) : Prop where
  length : r.members.length = parts.length
  extent : ∀ (i : Nat) (f : Field) (p : Placed), parts[i]? = some f → r.members[i]? = some p →
    Layout.extent options rule f.ty = .ok p.extent
  inOrder : ∀ (i : Nat) (p : Placed), r.members[i]? = some p → r.nextFree i ≤ p.offset
  granted : ∀ (i : Nat) (f : Field) (p : Placed) (requested : Nat), parts[i]? = some f →
    r.members[i]? = some p → f.attributes.requestedOffset? = some requested →
    r.nextFree i ≤ requested → p.offset = requested
  refused : ∀ (i : Nat) (f : Field) (p : Placed) (requested : Nat), parts[i]? = some f →
    r.members[i]? = some p → f.attributes.requestedOffset? = some requested →
    requested < r.nextFree i →
    membersLayout options rule (parts.set i f.withoutOffset)
      = .ok ⟨r.members.set i { p with overlap := none }, r.extent⟩
  overlaps : r.overlaps = parts.zipIdx.filterMap fun f =>
    overlapOf f.1.name f.1.attributes f.1.position (r.nextFree f.2)
  room : ∀ p ∈ r.members, p.stop ≤ r.extent.size
  alignment : ∀ p ∈ r.members, p.extent.alignment ≤ r.extent.alignment
  padded : rule ≠ .scalar → rule ≠ .registerConstant → rule ≠ .registerStructured →
    r.extent.alignment ≠ 0 → r.extent.alignment ∣ r.extent.size

theorem unplacedParts_set {parts : List Field} {ms : List Unplaced} {i : Nat} {f : Field}
    {m : Unplaced} (h : unplacedParts options rule parts = .ok ms) (hf : parts[i]? = some f)
    (hm : ms[i]? = some m) :
    unplacedParts options rule (parts.set i f.withoutOffset) = .ok (ms.set i m.withoutOffset) := by
  induction parts generalizing ms i with
  | nil => cases hf
  | cons part parts ih =>
    rw [unplacedParts, List.mapM_cons] at h
    obtain ⟨first, hfirst, h⟩ := bind_eq_ok_iff.1 h
    obtain ⟨rest, hrest, h⟩ := bind_eq_ok_iff.1 h
    obtain ⟨x, hx, hpart⟩ := bind_eq_ok_iff.1 hfirst
    cases h
    cases i with
    | zero =>
      cases hf
      cases hm
      cases hpart
      rw [List.set_cons_zero, unplacedParts, List.mapM_cons]
      refine bind_eq_ok_iff.2 ⟨_, bind_eq_ok_iff.2 ⟨x, hx, rfl⟩, ?_⟩
      exact bind_eq_ok_iff.2 ⟨rest, hrest, rfl⟩
    | succ i =>
      have hset := ih hrest hf hm
      rw [List.set_cons_succ, unplacedParts, List.mapM_cons]
      exact bind_eq_ok_iff.2 ⟨_, hfirst, bind_eq_ok_iff.2 ⟨_, hset, rfl⟩⟩

/-- Every member comes from its part, with the extent of its type. -/
theorem exists_part_of_placeFrom {parts : List Field} {ms : List Unplaced} {i stop : Nat}
    {placed : List Placed} {p : Placed} (hms : unplacedParts options rule parts = .ok ms)
    (h : placeFrom rule 0 ms = .ok (placed, stop)) (hi : placed[i]? = some p) :
    ∃ f x, parts[i]? = some f ∧ extent options rule f.ty = .ok x ∧
      ms[i]? = some (.ofTy options f.name f.ty f.attributes f.position x) ∧
      place rule (endOf 0 placed i) (.ofTy options f.name f.ty f.attributes f.position x) =
        .ok p := by
  obtain ⟨m, hm, hp⟩ := exists_place_of_placeFrom h hi
  have hlt : i < parts.length :=
    length_of_unplacedParts hms ▸ (List.getElem?_eq_some_iff.1 hm).1
  obtain ⟨x, hx, hm'⟩ := getElem?_unplacedParts hms (List.getElem?_eq_getElem hlt)
  cases hm.symm.trans hm'
  exact ⟨parts[i], x, List.getElem?_eq_getElem hlt, hx, hm', hp⟩

/-- The overlaps are those of the parts that ask in vain, in declaration order. -/
theorem overlaps_of_placeFrom {parts : List Field} {ms : List Unplaced} {r : RecordLayout}
    {stop : Nat} (hms : unplacedParts options rule parts = .ok ms)
    (h : placeFrom rule 0 ms = .ok (r.members, stop)) :
    r.overlaps = parts.zipIdx.filterMap fun f =>
      overlapOf f.1.name f.1.attributes f.1.position (r.nextFree f.2) := by
  have hmap : r.members.map (·.overlap) = parts.zipIdx.map fun f =>
      overlapOf f.1.name f.1.attributes f.1.position (r.nextFree f.2) := by
    refine List.ext_getElem? fun i => ?_
    rw [List.getElem?_map, List.getElem?_map, List.getElem?_zipIdx, Nat.zero_add]
    cases hi : r.members[i]? with
    | none =>
      have hlength := (length_of_placeFrom h).trans (length_of_unplacedParts hms)
      have hnone : parts[i]? = none := by
        rw [List.getElem?_eq_none_iff] at hi ⊢
        omega
      rw [hnone]
      rfl
    | some p =>
      obtain ⟨f, x, hf, -, -, hp⟩ := exists_part_of_placeFrom hms h hi
      obtain ⟨natural, -, rfl⟩ := place_eq_ok hp
      rw [hf, Option.map_some, Option.map_some, Option.map_some, RecordLayout.nextFree_eq hi]
      rfl
  have hoverlaps := congrArg (List.filterMap id) hmap
  rw [List.filterMap_map, List.filterMap_map] at hoverlaps
  exact hoverlaps

theorem placesAsAsked_of_placeFrom {parts : List Field} {ms : List Unplaced} {r : RecordLayout}
    {stop : Nat} (hms : unplacedParts options rule parts = .ok ms)
    (h : placeFrom rule 0 ms = .ok (r.members, stop))
    (hx : enclosing rule (maxAlignment ms) stop = .ok r.extent) (hne : ms ≠ []) :
    PlacesAsAsked options rule parts r where
  length := (length_of_placeFrom h).trans (length_of_unplacedParts hms)
  extent i f p hf hp := by
    obtain ⟨f', x, hf', hx, -, hplace⟩ := exists_part_of_placeFrom hms h hp
    cases hf.symm.trans hf'
    rw [(place_spec hplace).2]
    exact hx
  inOrder i p hp := by
    obtain ⟨m, -, hplace⟩ := exists_place_of_placeFrom h hp
    rw [RecordLayout.nextFree_eq hp]
    exact (place_spec hplace).1
  granted i f p requested hf hp hrequested hle := by
    obtain ⟨f', x, hf', -, -, hplace⟩ := exists_part_of_placeFrom hms h hp
    cases hf.symm.trans hf'
    obtain ⟨natural, -, rfl⟩ := place_eq_ok hplace
    rw [RecordLayout.nextFree_eq hp] at hle
    show (f.attributes.requestedOffset?.filter _).getD natural = requested
    rw [hrequested, Option.filter_some_pos (by simpa using hle)]
    rfl
  refused i f p requested hf hp hrequested hlt := by
    obtain ⟨f', x, hf', -, hm, hplace⟩ := exists_part_of_placeFrom hms h hp
    cases hf.symm.trans hf'
    rw [RecordLayout.nextFree_eq hp] at hlt
    -- without the request the same places are computed, to the last member
    have hplaces := placeFrom_set h hp (place_withoutOffset hplace hrequested hlt) rfl rfl
    refine bind_eq_ok_iff.2 ⟨_, unplacedParts_set hms hf hm, ?_⟩
    refine (RecordLayout.of_eq_ok_iff ?_).2 ⟨stop, hplaces, ?_⟩
    · rwa [Ne, List.set_eq_nil_iff]
    · rw [maxAlignment_withoutOffset hm]
      exact hx
  overlaps := overlaps_of_placeFrom hms h
  room p hp := Nat.le_trans (stop_le_of_placeFrom h p hp) (enclosing_spec hx).1
  alignment p hp := by
    obtain ⟨i, hi⟩ := List.mem_iff_getElem?.1 hp
    obtain ⟨m, hm, hplace⟩ := exists_place_of_placeFrom h hi
    rw [(place_spec hplace).2]
    exact Nat.le_trans (le_maxAlignment (List.mem_of_getElem? hm)) (enclosing_spec hx).2.1
  padded hscalar hconstant hstructured :=
    (enclosing_spec hx).2.2 hscalar (rule.padsTail_of_ne hconstant hstructured)

theorem placesAsAsked_nil : PlacesAsAsked options rule [] ⟨[], .empty⟩ where
  length := rfl
  extent _ _ _ h := by cases h
  inOrder _ _ h := by cases h
  granted _ _ _ _ h := by cases h
  refused _ _ _ _ h := by cases h
  overlaps := rfl
  room := List.forall_mem_nil _
  alignment := List.forall_mem_nil _
  padded _ _ _ _ := Nat.dvd_zero _

end Layout

/-- Overlaps are reported one after the other. -/
theorem Emit.runOn_reportOverlaps : (overlaps : List Layout.Overlap) → (e : Emitter) →
    (overlaps.forM fun o => report (.overlap o) o.position).runOn e = (.ok (), { e with
      log := ⟨e.log.entries ++ overlaps.map fun o => (Finding.overlap o).diagnostic o.position⟩ })
  | [], e => by simp
  | o :: rest, e => by
    have hrest := Emit.runOn_reportOverlaps rest
      { e with log := e.log.push ((Finding.overlap o).diagnostic o.position) }
    refine (Action.runOn_bind_of_ok rfl).trans (hrest.trans ?_)
    simp [DiagnosticLog.push]

namespace Layout

variable {options : Options} {rule : Rule}

/-- **Members stand in order, and where they ask to.**  Whatever parts have a layout, each stands
behind the ones before it and within the whole, which is aligned to all of them and, where the rule
pads it, a multiple of its alignment.  An offset that is asked for is given if everything before it
has ended there; if not, the part stands where it would without asking, the rest of the layout does
not change, and emission reports one overlap for it, in declaration order. -/
theorem placed_where_asked {parts : List Field} {r : RecordLayout}
    (h : membersLayout options rule parts = .ok r) :
    PlacesAsAsked options rule parts r ∧ (rule ≠ .unlaid → ∀ e : Emitter, e.options = options →
      ((Emit.layoutDecorations rule parts).runOn e).2 = { e with
        log := ⟨e.log.entries ++ r.overlaps.map fun o =>
          (Finding.overlap o).diagnostic o.position⟩ }) := by
  obtain ⟨ms, hms, hr⟩ := bind_eq_ok_iff.1 h
  constructor
  · by_cases hne : ms = []
    · subst hne
      have hparts := length_of_unplacedParts hms
      cases hr
      rw [List.length_nil, eq_comm, List.length_eq_zero_iff] at hparts
      subst hparts
      exact placesAsAsked_nil
    · obtain ⟨stop, hplaced, hx⟩ := (RecordLayout.of_eq_ok_iff hne).1 hr
      exact placesAsAsked_of_placeFrom hms hplaced hx hne
  · rintro hrule e rfl
    have hlayout : (Action.ofChecked (do
        RecordLayout.of rule (← unplacedParts e.options rule parts)) : Emit RecordLayout).runOn e
          = (.ok r, e) := by
      rw [show (do RecordLayout.of rule (← unplacedParts e.options rule parts)) = Except.ok r
        from h]
      rfl
    rw [Emit.layoutDecorations, if_neg hrule, Action.runOn_bind_of_ok (Action.runOn_get _)]
    dsimp only
    rw [Action.runOn_bind_of_ok hlayout, Action.runOn_bind_of_ok (Emit.runOn_reportOverlaps _ _)]
    cases partDecorations e.options rule 0 parts r.members <;> rfl

/-- Four parts, of which the second one asks for bytes that are taken, and the third one for the
second component of the third register. -/
def offsetParts : List Field :=
  [{ name := "a", ty := .vector .single 4 },
    { name := "b", ty := .scalar .single, attributes := { offset := some 4 } },
    { name := "c", ty := .scalar .single, attributes := { packOffset := some ⟨2, 1⟩ } },
    { name := "d", ty := .vector .single 2 }]

/-- The layout of these parts. -/
def offsetLayout : RecordLayout where
  members := [⟨0, ⟨16, 16, 16⟩, none⟩, ⟨16, ⟨4, 4, 4⟩, some ⟨"b", 4, 16, false, {}⟩⟩,
    ⟨36, ⟨4, 4, 4⟩, none⟩, ⟨40, ⟨8, 8, 8⟩, none⟩]
  extent := ⟨16, 48, 48⟩

theorem placed_where_asked_offsetParts :
    membersLayout {} .std430 offsetParts = .ok offsetLayout ∧
    PlacesAsAsked {} .std430 offsetParts offsetLayout ∧
      (Rule.std430 ≠ .unlaid → ∀ e : Emitter, e.options = {} →
        ((Emit.layoutDecorations .std430 offsetParts).runOn e).2 = { e with
          log := ⟨e.log.entries ++ offsetLayout.overlaps.map fun o =>
            (Finding.overlap o).diagnostic o.position⟩ }) := by
  have hlayout : membersLayout {} .std430 offsetParts = .ok offsetLayout := by decide
  exact ⟨hlayout, placed_where_asked hlayout⟩

end Layout

end ShaderLowering
