import ShaderLowering.Proofs.Session.Locations

/-!
# Slots of a session's interface

A variable at a location occupies the slots from there on, of its own blend source.  Giving out
locations leaves every variable with one location and one decoration for it (`Session.Locates`).
Whether slots stay apart is another matter: automatic locations are looked for among the slots of
blend source 0 only, so an automatically placed variable of another blend source may meet an
explicit one.
-/

namespace ShaderLowering

open Source (Position)

namespace InterfaceVariable

variable {v u : InterfaceVariable}

/-- A variable with a location occupies a slot. -/
def Occupies (v : InterfaceVariable) (location index : Nat) : Prop :=
  ∃ r, v.slots? = some r ∧ r.Holds location index

/-- Two variables at locations are on the same side of the interface. -/
def Competes (v u : InterfaceVariable) : Prop :=
  v.isLocated = true ∧ u.isLocated = true ∧ v.direction = u.direction

/-- Two variables have a slot in common. -/
def SharesSlot (v u : InterfaceVariable) : Prop :=
  ∃ location index, v.Occupies location index ∧ u.Occupies location index

theorem not_sharesSlot_iff : ¬v.SharesSlot u ↔
    ∀ t, v.slots? = some t → ∀ r, u.slots? = some r → t.isApart r = true := by
  constructor
  · intro h t ht r hr
    rw [SlotRange.isApart_iff]
    rintro location index ⟨hholds, hholds'⟩
    exact h ⟨location, index, ⟨t, ht, hholds⟩, r, hr, hholds'⟩
  · rintro h ⟨location, index, ⟨t, ht, hholds⟩, r, hr, hholds'⟩
    exact SlotRange.isApart_iff.1 (h t ht r hr) location index ⟨hholds, hholds'⟩

theorem not_sharesSlot_placedAt_iff {location location' : Nat} :
    ¬(v.placedAt location).SharesSlot (u.placedAt location') ↔
      (v.slotsAt location).isApart (u.slotsAt location') = true := by
  rw [not_sharesSlot_iff, slots?_placedAt, slots?_placedAt]
  constructor
  · exact fun h => h _ rfl _ rfl
  · rintro h _ ⟨⟩ _ ⟨⟩
    exact h

/-- Slots of one blend source that are apart lie one behind the other. -/
theorem stop_le_of_isApart {location location' : Nat}
    (h : (v.slotsAt location).isApart (u.slotsAt location') = true)
    (hindex : u.index.getD 0 = v.index.getD 0) :
    location + v.room ≤ location' ∨ location' + u.room ≤ location := by
  have hroom := v.room_pos
  have hroom' := u.room_pos
  by_contra hmeet
  refine SlotRange.isApart_iff.1 h (max location location') (v.index.getD 0)
    ⟨⟨rfl, ?_⟩, hindex, ?_⟩ <;> simp only [slotsAt] <;> omega

end InterfaceVariable

namespace Session

variable {s s' : Session}

/-- No two variables of one direction have a slot in common. -/
def SlotsApart (s : Session) : Prop :=
  s.interface.Pairwise fun v u => v.Competes u → ¬v.SharesSlot u

/-- Different variables at locations are different variables of the module. -/
theorem Sound.var_ne (hs : s.Sound) {i j : Nat} {v u : InterfaceVariable}
    (hv : s.interface[i]? = some v) (hu : s.interface[j]? = some u) (hvl : v.isLocated = true)
    (hul : u.isLocated = true) (hne : i ≠ j) : v.var ≠ u.var := by
  have hpairwise := List.pairwise_iff_getElem.1 (List.pairwise_filterMap.1 hs.located)
  obtain ⟨hi, rfl⟩ := List.getElem?_eq_some_iff.1 hv
  obtain ⟨hj, rfl⟩ := List.getElem?_eq_some_iff.1 hu
  have hv' := InterfaceVariable.locatedVar?_eq_some_iff.2 ⟨hvl, rfl⟩
  have hu' := InterfaceVariable.locatedVar?_eq_some_iff.2 ⟨hul, rfl⟩
  rcases Nat.lt_or_gt_of_ne hne with hlt | hlt
  · exact Nat.ne_of_lt (hpairwise i j hi hj hlt _ hv' _ hu')
  · exact Nat.ne_of_gt (hpairwise j i hj hi hlt _ hu' _ hv')

/-! ## One location for every variable -/

/-- All variables at locations, each with its location. -/
structure PlacesAll (s : Session) (ps : List Placing) : Prop where
  nodup : (ps.map (·.1.2)).Nodup
  getElem? : ∀ p ∈ ps, s.interface[p.1.2]? = some p.1.1 ∧ p.1.1.isLocated = true
  exists_mem : ∀ (i : Nat) (v : InterfaceVariable), s.interface[i]? = some v →
    v.isLocated = true → ∃ location, ((v, i), location) ∈ ps
  explicit : ∀ p ∈ ps, ∀ location, p.1.1.location = some location → location = p.2

theorem placesAll_of_serves {inputs outputs : LocationPlan} {ps qs : List Placing}
    (hps : inputs.Serves .input s.interface ps) (hqs : outputs.Serves .output s.interface qs) :
    s.PlacesAll (ps ++ qs) where
  nodup := by
    rw [List.map_append, List.nodup_append]
    -- no variable flows in both directions
    refine ⟨hps.nodup, hqs.nodup, fun a ha b hb heq => ?_⟩
    obtain ⟨p, hp, rfl⟩ := List.mem_map.1 ha
    obtain ⟨q, hq, rfl⟩ := List.mem_map.1 hb
    obtain ⟨hp', hinput, -⟩ := hps.getElem?_of_mem hp
    obtain ⟨hq', houtput, -⟩ := hqs.getElem?_of_mem hq
    have hsame : p.1.1 = q.1.1 := Option.some.inj (hp'.symm.trans ((congrArg _ heq).trans hq'))
    cases hinput.symm.trans ((congrArg _ hsame).trans houtput)
  getElem? p hp := by
    rcases List.mem_append.1 hp with hp | hp
    · obtain ⟨hv, -, hlocated⟩ := hps.getElem?_of_mem hp
      exact ⟨hv, hlocated⟩
    · obtain ⟨hv, -, hlocated⟩ := hqs.getElem?_of_mem hp
      exact ⟨hv, hlocated⟩
  exists_mem i v hv hlocated := by
    cases hdirection : v.direction with
    | input =>
      obtain ⟨location, hp⟩ := hps.exists_mem hv hdirection hlocated
      exact ⟨location, List.mem_append_left qs hp⟩
    | output =>
      obtain ⟨location, hq⟩ := hqs.exists_mem hv hdirection hlocated
      exact ⟨location, List.mem_append_right ps hq⟩
  explicit p hp location hlocation := by
    rcases List.mem_append.1 hp with hp | hp
    · exact (hps.explicit p hp location hlocation).symm
    · exact (hqs.explicit p hp location hlocation).symm

/-- The second session is the first one with a location for every variable that needs one.
Semantics that are used twice are reported, and so are explicit locations that are taken. -/
structure Locates (s s' : Session) (taken : List (Finding × Position)) : Prop where
  frame : s' = { s with emitter := s'.emitter, interface := s'.interface }
  log : s'.emitter.log.entries = s.emitter.log.entries ++
    (Lower.repeatedIn .input s ++ Lower.repeatedIn .output s ++ taken).map
      fun f => f.1.diagnostic f.2
  reported : ∀ f ∈ taken, ∃ location, f.1 = .locationTaken location
  verdict : taken = [] ↔ s.SlotsApart
  length : s'.interface.length = s.interface.length
  located : ∀ (i : Nat) (v : InterfaceVariable), s.interface[i]? = some v → v.isLocated = true →
    ∃ location w, s'.interface[i]? = some (v.placedAt location) ∧
      (∀ explicit, v.location = some explicit → explicit = location) ∧
      s.var? v.var = some w ∧ s'.var? v.var = some (w.gaining [.location location])
  builtins : ∀ (i : Nat) (v : InterfaceVariable), s.interface[i]? = some v → v.isLocated = false →
    s'.interface[i]? = some v
  others : ∀ id, (∀ v ∈ s.interface, v.isLocated = true → v.var ≠ id) → s'.var? id = s.var? id

theorem length_interface_settled_foldl (ps : List Placing) (s : Session) :
    (ps.foldl settled s).interface.length = s.interface.length := by
  induction ps generalizing s with
  | nil => rfl
  | cons p rest ih => exact (ih (s.settled p)).trans (List.length_modify _ _ _)

/-- Carrying out a plan for all variables gives each its location. -/
theorem PlacesAll.locates (hs : s.Sound) {ps : List Placing} (h : s.PlacesAll ps)
    {taken : List (Finding × Position)}
    (htaken : ∀ f ∈ taken, ∃ location, f.1 = .locationTaken location)
    (hverdict : taken = [] ↔ s.SlotsApart) :
    s.Locates ((ps.foldl settled s).reported
      (Lower.repeatedIn .input s ++ Lower.repeatedIn .output s ++ taken)) taken where
  frame := by
    rw [(settled_foldl_frame ps s).1]
    rfl
  log := by
    show (ps.foldl settled s).emitter.log.entries ++ _ = _
    rw [(settled_foldl_frame ps s).2]
  reported := htaken
  verdict := hverdict
  length := length_interface_settled_foldl ps s
  located i v hv hlocated := by
    obtain ⟨location, hp⟩ := h.exists_mem i v hv hlocated
    -- no entry is placed twice, and different entries have different variables
    have hids : (ps.map (·.1.1.var)).Nodup := by
      refine List.pairwise_map.2 ((List.pairwise_map.1 h.nodup).imp_of_mem ?_)
      intro p q hp hq hne
      obtain ⟨hp', hpl⟩ := h.getElem? p hp
      obtain ⟨hq', hql⟩ := h.getElem? q hq
      exact hs.var_ne hp' hq' hpl hql hne
    have hvar : s.var? v.var = some _ :=
      List.getElem?_eq_getElem (hs.held.interface v (List.mem_of_getElem? hv))
    refine ⟨location, _, ?_, h.explicit _ hp, hvar, ?_⟩
    · exact (interface_settled_foldl_of_mem h.nodup hp s).trans (congrArg _ hv)
    · exact (var?_foldl_of_mem var?_settled hids hp s).trans (congrArg _ hvar)
  builtins i v hv hbuiltin := by
    refine (interface_settled_foldl_of_not_mem (fun p hp hi => ?_) s).trans hv
    obtain ⟨hp', hlocated⟩ := h.getElem? p hp
    cases Option.some.inj (hv.symm.trans (hi ▸ hp'))
    cases hbuiltin.symm.trans hlocated
  others id hid := by
    refine var?_foldl_of_not_mem var?_settled (fun p hp => ?_) s
    obtain ⟨hp', hlocated⟩ := h.getElem? p hp
    exact hid p.1.1 (List.mem_of_getElem? hp') hlocated

/-! ## Slots that keep apart -/

/-- Explicit locations keep apart in both directions exactly if no two variables share a slot. -/
theorem findings_eq_nil_iff {inputs outputs : LocationPlan} {ps qs : List Placing}
    (hps : inputs.Serves .input s.interface ps) (hqs : outputs.Serves .output s.interface qs) :
    inputs.findings ++ outputs.findings = [] ↔ s.SlotsApart := by
  rw [List.append_eq_nil_iff, hps.findings, hqs.findings, pairwise_slots?_iff, pairwise_slots?_iff,
    ← List.pairwise_and_iff, SlotsApart]
  refine List.Pairwise.iff fun v u => ?_
  simp only [InterfaceVariable.not_sharesSlot_iff, InterfaceVariable.Competes]
  constructor
  · rintro ⟨hinput, houtput⟩ ⟨hv, hu, hdirection⟩
    cases hv' : v.direction with
    | input => exact hinput ⟨hv', hv⟩ ⟨hdirection ▸ hv', hu⟩
    | output => exact houtput ⟨hv', hv⟩ ⟨hdirection ▸ hv', hu⟩
  · intro h
    exact ⟨fun hv hu => h ⟨hv.2, hu.2, hv.1.trans hu.1.symm⟩,
      fun hv hu => h ⟨hv.2, hu.2, hv.1.trans hu.1.symm⟩⟩

/-- What is set aside for different variables of one direction keeps apart if nothing is
reported. -/
theorem isApart_reserved {inputs outputs : LocationPlan} {ps qs : List Placing}
    (hps : inputs.Serves .input s.interface ps) (hqs : outputs.Serves .output s.interface qs)
    (hnil : inputs.findings ++ outputs.findings = []) {p q : Placing} (hp : p ∈ ps ++ qs)
    (hq : q ∈ ps ++ qs) (hne : p.1.2 ≠ q.1.2) (hdirection : p.1.1.direction = q.1.1.direction) :
    (p.1.1.reserved p.2).isApart (q.1.1.reserved q.2) = true := by
  obtain ⟨hinputs, houtputs⟩ := List.append_eq_nil_iff.1 hnil
  rcases List.mem_append.1 hp with hp | hp <;> rcases List.mem_append.1 hq with hq | hq
  · exact hps.isApart hinputs hp hq hne
  · cases (hps.getElem?_of_mem hp).2.1.symm.trans
      (hdirection.trans (hqs.getElem?_of_mem hq).2.1)
  · cases (hqs.getElem?_of_mem hp).2.1.symm.trans
      (hdirection.trans (hps.getElem?_of_mem hq).2.1)
  · exact hqs.isApart houtputs hp hq hne

/-- A variable of the first session is at a location in the second one. -/
structure Puts (s s' : Session) (i : Nat) (v : InterfaceVariable) (location : Nat) : Prop where
  before : s.interface[i]? = some v
  isLocated : v.isLocated = true
  after : s'.interface[i]? = some (v.placedAt location)

/-- A variable without an explicit location is another one than a variable that has one. -/
theorem Puts.ne_of_isSome {i j location location' : Nat} {v u : InterfaceVariable}
    (hv : s.Puts s' i v location) (hu : s.Puts s' j u location') (hnone : v.location = none)
    (hsome : u.location.isSome = true) : i ≠ j := by
  rintro rfl
  cases hv.before.symm.trans hu.before
  rw [hnone] at hsome
  cases hsome

/-- What was set aside for different variables of one direction keeps apart. -/
def ReservesApart (s s' : Session) : Prop :=
  ∀ ⦃i j : Nat⦄ ⦃v u : InterfaceVariable⦄ ⦃location location' : Nat⦄, i ≠ j →
    s.Puts s' i v location → s.Puts s' j u location' → v.direction = u.direction →
    (v.reserved location).isApart (u.reserved location') = true

/-- The locations of the second session are those that were given out. -/
theorem PlacesAll.mem_of_puts {ps : List Placing} (h : s.PlacesAll ps)
    {findings : List (Finding × Position)} {i location : Nat} {v : InterfaceVariable}
    (hputs : s.Puts ((ps.foldl settled s).reported findings) i v location) :
    ((v, i), location) ∈ ps := by
  obtain ⟨location', hp⟩ := h.exists_mem i v hputs.before hputs.isLocated
  have hplaced := (interface_settled_foldl_of_mem h.nodup hp s).trans (congrArg _ hputs.before)
  cases congrArg InterfaceVariable.location (Option.some.inj (hputs.after.symm.trans hplaced))
  exact hp

/-- A variable at a location is one of the first session, and was put there. -/
theorem Locates.exists_puts {taken : List (Finding × Position)} (h : s.Locates s' taken)
    {i : Nat} {w : InterfaceVariable} (hw : s'.interface[i]? = some w)
    (hlocated : w.isLocated = true) :
    ∃ v location, s.Puts s' i v location ∧ w = v.placedAt location := by
  have hi : i < s.interface.length := h.length ▸ (List.getElem?_eq_some_iff.1 hw).1
  have hv := List.getElem?_eq_getElem hi
  cases hlocated' : s.interface[i].isLocated with
  | true =>
    obtain ⟨location, -, hplaced, -⟩ := h.located i _ hv hlocated'
    exact ⟨_, location, ⟨hv, hlocated', hplaced⟩, Option.some.inj (hw.symm.trans hplaced)⟩
  | false =>
    cases Option.some.inj (hw.symm.trans (h.builtins i _ hv hlocated'))
    cases hlocated.symm.trans hlocated'

/-- A variable of a blend source other than 0 has an explicit location, perhaps as a render
target. -/
def SourcesExplicit (s : Session) : Prop :=
  ∀ v ∈ s.interface, v.isLocated = true → v.index.getD 0 ≠ 0 →
    v.location.isSome = true ∨ v.semantic.map (·.kind) = some .target

/-- Then the slots of each variable are what is set aside for it. -/
theorem SourcesExplicit.reserved_eq (h : s.SourcesExplicit) (hs : s.Sound) {i location : Nat}
    {v : InterfaceVariable} (hputs : s.Puts s' i v location) :
    v.reserved location = v.slotsAt location := by
  have hv := List.mem_of_getElem? hputs.before
  refine v.reserved_eq_slotsAt location ?_
  by_cases hindex : v.index.getD 0 = 0
  · exact .inr hindex
  · exact .inl ((h v hv hputs.isLocated hindex).elim id (hs.targets v hv hputs.isLocated))

theorem ReservesApart.slotsApart (h : s.ReservesApart s') (hs : s.Sound)
    (hsources : s.SourcesExplicit) {taken : List (Finding × Position)}
    (hlocates : s.Locates s' taken) : s'.SlotsApart := by
  refine List.pairwise_iff_getElem.2 fun i j hi hj hlt hcompetes => ?_
  obtain ⟨v, location, hv, hvw⟩ :=
    hlocates.exists_puts (List.getElem?_eq_getElem hi) hcompetes.1
  obtain ⟨u, location', hu, huw⟩ :=
    hlocates.exists_puts (List.getElem?_eq_getElem hj) hcompetes.2.1
  rw [hvw, huw] at hcompetes ⊢
  have hapart := h (Nat.ne_of_lt hlt) hv hu hcompetes.2.2
  rw [hsources.reserved_eq hs hv, hsources.reserved_eq hs hu] at hapart
  exact InterfaceVariable.not_sharesSlot_placedAt_iff.2 hapart

/-- A variable that was placed automatically has no slot in common with another one. -/
def AutomaticApart (s s' : Session) : Prop :=
  ∀ ⦃i j : Nat⦄ ⦃v u : InterfaceVariable⦄ ⦃location location' : Nat⦄, i ≠ j →
    s.Puts s' i v location → s.Puts s' j u location' → v.direction = u.direction →
    v.location = none → ¬(v.placedAt location).SharesSlot (u.placedAt location')

/-- A variable that was placed automatically, at a blend source other than 0, keeps apart from the
explicit locations of that source. -/
def SourcesApart (s s' : Session) : Prop :=
  ∀ ⦃i j : Nat⦄ ⦃v u : InterfaceVariable⦄ ⦃location location' : Nat⦄,
    s.Puts s' i v location → s.Puts s' j u location' → v.direction = u.direction →
    v.location = none → u.location.isSome = true → v.index.getD 0 ≠ 0 →
    u.index.getD 0 = v.index.getD 0 →
    location + v.room ≤ location' ∨ location' + u.room ≤ location

/-- If what is set aside keeps apart, an automatically placed variable can meet no other than an
explicit one of the same blend source, which is not source 0. -/
theorem ReservesApart.automaticApart_iff_sourcesApart (h : s.ReservesApart s') :
    s.AutomaticApart s' ↔ s.SourcesApart s' := by
  constructor
  · intro hauto i j v u location location' hv hu hdirection hnone hsome hindex hsame
    have hapart := hauto (hv.ne_of_isSome hu hnone hsome) hv hu hdirection hnone
    exact InterfaceVariable.stop_le_of_isApart
      (InterfaceVariable.not_sharesSlot_placedAt_iff.1 hapart) hsame
  · intro hsources i j v u location location' hne hv hu hdirection hnone
    rw [InterfaceVariable.not_sharesSlot_placedAt_iff]
    have hapart := h hne hv hu hdirection
    cases hexplicit : u.location with
    | none =>
      rw [InterfaceVariable.reserved, InterfaceVariable.reserved, hnone, hexplicit] at hapart
      exact SlotRange.isApart_of_starts hapart
    | some explicit =>
      have hsome : u.location.isSome = true := hexplicit ▸ rfl
      by_cases hsame : u.index.getD 0 = v.index.getD 0
      · by_cases hindex : v.index.getD 0 = 0
        · rwa [v.reserved_eq_slotsAt _ (.inr hindex), u.reserved_eq_slotsAt _ (.inl hsome)]
            at hapart
        · rcases hsources hv hu hdirection hnone hsome hindex hsame with hle | hle
          · rw [SlotRange.isApart_comm]
            exact SlotRange.isApart_of_stop_le hle
          · exact SlotRange.isApart_of_stop_le hle
      · exact SlotRange.isApart_of_index_ne (Ne.symm hsame)

end Session

namespace Lower

variable {stage : Stage} {options : Options} {s : Session}

/-- Giving out locations answers unless a location is no word, and without a finding about explicit
locations everything that is set aside keeps apart. -/
theorem locates_decorateLocations (hs : s.Sound)
    (hrun : (decorateLocations.runOn s).1 ≠ .error (.fault .overflow)) :
    ∃ s' taken, decorateLocations.runOn s = (.ok ((repeatedIn .input s).isEmpty &&
        (repeatedIn .output s).isEmpty && taken.isEmpty), s') ∧
      s.Locates s' taken ∧ (taken = [] → s.ReservesApart s') := by
  obtain ⟨inputs, outputs, ps, qs, hps, hqs, hrun⟩ := runOn_decorateLocations hs hrun
  have hall := Session.placesAll_of_serves hps hqs
  have hempty : (inputs.findings ++ outputs.findings).isEmpty =
      (inputs.findings.isEmpty && outputs.findings.isEmpty) := by
    cases inputs.findings <;> rfl
  rw [Bool.and_assoc, ← hempty, List.append_assoc] at hrun
  refine ⟨_, inputs.findings ++ outputs.findings, hrun,
    hall.locates hs (fun f hf => ?_) (Session.findings_eq_nil_iff hps hqs), ?_⟩
  · exact (List.mem_append.1 hf).elim (hps.taken f) (hqs.taken f)
  · intro hnil i j v u location location' hne hv hu hdirection
    exact Session.isApart_reserved hps hqs hnil (hall.mem_of_puts hv) (hall.mem_of_puts hu) hne
      hdirection

/-- **Locations.**  If every blend source other than 0 comes with an explicit location, giving out
locations leaves each variable with one location, an explicit one as it was, and with one decoration
for it.  Explicit locations are reported exactly if two variables of one direction share a slot, and
after the answer `true` no two variables of one direction do. -/
theorem slotsApart_decorateLocations (h : Session.Reachable stage options s)
    (hsources : s.SourcesExplicit)
    (hrun : (decorateLocations.runOn s).1 ≠ .error (.fault .overflow)) :
    ∃ b s' taken, decorateLocations.runOn s = (.ok b, s') ∧ s.Locates s' taken ∧
      b = ((repeatedIn .input s).isEmpty && (repeatedIn .output s).isEmpty && taken.isEmpty) ∧
      (b = true → s'.SlotsApart) := by
  obtain ⟨s', taken, hrun, hlocates, hreserves⟩ := locates_decorateLocations h.sound hrun
  refine ⟨_, s', taken, hrun, hlocates, rfl, fun hb => ?_⟩
  rw [Bool.and_eq_true, List.isEmpty_iff] at hb
  exact (hreserves hb.2).slotsApart h.sound hsources hlocates

end Lower

/-- An input of a vertex shader, with four components. -/
def vertexInput (id : Nat) (name : String) (attributes : Source.Attributes) : Source.Param where
  id := id
  name := name
  ty := .vector .single 4
  attributes := attributes

/-- A session with an input at location 0 of blend source 1, and one that takes a location itself,
of a given blend source. -/
def sourceInputs (index : Option Nat) : Session :=
  let first := vertexInput 1 "a" { semantic := some "A", location := some 0, index := some 1 }
  let second := vertexInput 2 "b" { semantic := some "B", index }
  ((Lower.createInput second false).runOn
    ((Lower.createInput first false).runOn (.start .vertex {})).2).2

theorem reachable_sourceInputs (index : Option Nat) :
    Session.Reachable .vertex {} (sourceInputs index) :=
  .step (.input _ _) (.step (.input _ _) .start)

/-- The interface of that session, with the second variable at some location. -/
def sourceVariables (index location : Option Nat) : List InterfaceVariable :=
  let first := {
    point := .vertexIn, semantic := some ⟨"A", "A", 0, .arbitrary, {}⟩, builtin := none,
    location := some 0, index := some 1, locationCount := 1, invocation := none, var := 0,
    position := {} }
  let second := {
    point := .vertexIn, semantic := some ⟨"B", "B", 0, .arbitrary, {}⟩, builtin := none,
    location, index, locationCount := 1, invocation := none, var := 1, position := {} }
  [first, second]

theorem Lower.slotsApart_decorateLocations_sourceInputs :
    Session.Reachable .vertex {} (sourceInputs none) ∧ (sourceInputs none).SourcesExplicit ∧
    (decorateLocations.runOn (sourceInputs none)).1 ≠ .error (.fault .overflow) ∧
    ∃ s', decorateLocations.runOn (sourceInputs none) = (.ok true, s') ∧
      (sourceInputs none).Locates s' [] ∧ s'.SlotsApart := by
  have hanswer : (decorateLocations.runOn (sourceInputs none)).1 = .ok true := by decide +kernel
  have hinterface : (sourceInputs none).interface = sourceVariables none none := by decide +kernel
  have hsources : (sourceInputs none).SourcesExplicit := by
    rw [Session.SourcesExplicit, hinterface]
    decide
  have hfault : (decorateLocations.runOn (sourceInputs none)).1 ≠ .error (.fault .overflow) := by
    simp [hanswer]
  obtain ⟨b, s', taken, hrun, hlocates, hb, hapart⟩ :=
    slotsApart_decorateLocations (reachable_sourceInputs none) hsources hfault
  rw [hrun] at hanswer
  cases hanswer
  rw [Eq.comm, Bool.and_eq_true, List.isEmpty_iff] at hb
  cases hb.2
  exact ⟨reachable_sourceInputs none, hsources, hfault, s', hrun, hlocates, hapart rfl⟩

namespace Lower

variable {stage : Stage} {options : Options} {s s' : Session}

/-- **Automatic locations.**  After the answer `true`, variables that were placed automatically have
their slots for themselves exactly if they keep apart from the explicit locations of their own blend
sources other than 0: those of source 0 and those of each other are looked at. -/
theorem automaticApart_iff (h : Session.Reachable stage options s)
    (hrun : decorateLocations.runOn s = (.ok true, s')) :
    s.AutomaticApart s' ↔ s.SourcesApart s' := by
  have hfault : (decorateLocations.runOn s).1 ≠ .error (.fault .overflow) := by simp [hrun]
  obtain ⟨s₁, taken, hrun', -, hreserves⟩ := locates_decorateLocations h.sound hfault
  obtain ⟨hanswer, rfl⟩ := Prod.mk.inj (hrun.symm.trans hrun')
  have hnil := Except.ok.inj hanswer
  rw [Eq.comm, Bool.and_eq_true, List.isEmpty_iff] at hnil
  exact (hreserves hnil.2).automaticApart_iff_sourcesApart

/-- The session with the second input of blend source 1 as well, after locations were given out. -/
theorem runOn_decorateLocations_sourceInputs :
    decorateLocations.runOn (sourceInputs (some 1)) =
      (.ok true, (decorateLocations.runOn (sourceInputs (some 1))).2) :=
  Prod.ext (by decide +kernel) rfl

theorem automaticApart_iff_sourceInputs :
    Session.Reachable .vertex {} (sourceInputs (some 1)) ∧
    decorateLocations.runOn (sourceInputs (some 1)) =
      (.ok true, (decorateLocations.runOn (sourceInputs (some 1))).2) ∧
    ((sourceInputs (some 1)).AutomaticApart (decorateLocations.runOn (sourceInputs (some 1))).2 ↔
      (sourceInputs (some 1)).SourcesApart (decorateLocations.runOn (sourceInputs (some 1))).2) :=
  ⟨reachable_sourceInputs _, runOn_decorateLocations_sourceInputs,
    automaticApart_iff (reachable_sourceInputs _) runOn_decorateLocations_sourceInputs⟩

/-- Both inputs are then at location 0 of blend source 1. -/
theorem not_automaticApart_sourceInputs :
    Session.Reachable .vertex {} (sourceInputs (some 1)) ∧
    ∃ s', decorateLocations.runOn (sourceInputs (some 1)) = (.ok true, s') ∧
      ¬(sourceInputs (some 1)).AutomaticApart s' := by
  refine ⟨reachable_sourceInputs _, _, runOn_decorateLocations_sourceInputs, fun hauto => ?_⟩
  have hbefore : (sourceInputs (some 1)).interface = sourceVariables (some 1) none := by
    decide +kernel
  have hafter : (decorateLocations.runOn (sourceInputs (some 1))).2.interface =
      sourceVariables (some 1) (some 0) := by decide +kernel
  have hputs : ∀ (i : Nat) (v : InterfaceVariable),
      (sourceVariables (some 1) none)[i]? = some v →
      (sourceVariables (some 1) (some 0))[i]? = some (v.placedAt 0) → v.isLocated = true →
      (sourceInputs (some 1)).Puts (decorateLocations.runOn (sourceInputs (some 1))).2 i v 0 :=
    fun i v hv hplaced hlocated => ⟨hbefore ▸ hv, hlocated, hafter ▸ hplaced⟩
  refine hauto (i := 1) (j := 0) (by decide) (hputs 1 _ rfl rfl rfl) (hputs 0 _ rfl rfl rfl) rfl rfl
    ⟨0, 1, ⟨_, rfl, ?_⟩, _, rfl, ?_⟩ <;> decide

end Lower

end ShaderLowering
