import Mathlib.Order.Bounds.Defs
import ShaderLowering.Proofs.Interface.Filling
import ShaderLowering.Proofs.Session.Slots

/-!
# Automatic locations

A variable without an explicit location takes a free range behind the variables that had their turns
before.  It is the lowest one that nothing explicit and none of those variables holds, unless a
wider variable passed over a gap that would have been wide enough (`Session.FillsLowest`).
-/

namespace ShaderLowering

namespace Session

variable {s s' : Session}

/-! ## Locations held before a turn -/

/-- When a numbered variable has its turn, a location is held by a variable of its direction that
has an explicit location or had its turn before. -/
def LocationHeld (s s' : Session) (v : InterfaceVariable × Nat) (location : Nat) : Prop :=
  ∃ j u start, s.Puts s' j u start ∧ u.direction = v.1.direction ∧
    (u.location.isSome = true ∨ s.emitter.options.order.TurnBefore (u, j) v) ∧
    start ≤ location ∧ location < start + u.room

/-- When a numbered variable has its turn, there is room for it from a location on. -/
def HasRoom (s s' : Session) (v : InterfaceVariable × Nat) (location : Nat) : Prop :=
  ∀ l, location ≤ l → l < location + v.1.room → ¬s.LocationHeld s' v l

/-- Automatic locations are the lowest ones where there is room. -/
def FillsLowest (s s' : Session) : Prop :=
  ∀ ⦃i : Nat⦄ ⦃v : InterfaceVariable⦄ ⦃location : Nat⦄, s.Puts s' i v location →
    v.location = none → IsLeast {k | s.HasRoom s' (v, i) k} location

/-- A variable that was placed automatically meets no explicit location. -/
def AvoidsExplicit (s s' : Session) : Prop :=
  ∀ ⦃i j : Nat⦄ ⦃v u : InterfaceVariable⦄ ⦃location location' : Nat⦄,
    s.Puts s' i v location → s.Puts s' j u location' → u.direction = v.direction →
    v.location = none → u.location.isSome = true →
    location' + u.room ≤ location ∨ location + v.room ≤ location'

/-- Where a wider variable had its turn before, it was put before every place with room for the
narrower one. -/
def SkipsNoGap (s s' : Session) : Prop :=
  ∀ ⦃i j : Nat⦄ ⦃v u : InterfaceVariable⦄ ⦃location location' : Nat⦄,
    s.Puts s' i v location → s.Puts s' j u location' → u.direction = v.direction →
    v.location = none → u.location = none →
    s.emitter.options.order.TurnBefore (u, j) (v, i) → v.room < u.room →
    ∀ k, k + v.room ≤ location' → ¬s.HasRoom s' (v, i) k

/-- No variable at a location has a blend source other than 0. -/
def NoSources (s : Session) : Prop :=
  ∀ v ∈ s.interface, v.isLocated = true → v.index.getD 0 = 0

/-- There is room exactly where nothing that is held before the turn is met. -/
theorem hasRoom_iff {v : InterfaceVariable × Nat} {k : Nat} :
    s.HasRoom s' v k ↔ ∀ j u start, s.Puts s' j u start → u.direction = v.1.direction →
      u.location.isSome = true ∨ s.emitter.options.order.TurnBefore (u, j) v →
      start + u.room ≤ k ∨ k + v.1.room ≤ start := by
  constructor
  · intro h j u start hputs hdirection hbefore
    by_contra hmeets
    have hroom := v.1.room_pos
    have hroom' := u.room_pos
    exact h (max k start) (by omega) (by omega)
      ⟨j, u, start, hputs, hdirection, hbefore, by omega, by omega⟩
  · rintro h l hl hlt ⟨j, u, start, hputs, hdirection, hbefore, hstart, hstop⟩
    have := h j u start hputs hdirection hbefore
    omega

/-! ## Directions -/

/-- The placings of one direction, filled in. -/
structure FillsDirection (s s' : Session) (direction : Direction) (ps : List Placing) : Prop where
  mem_iff : ∀ p, p ∈ ps ↔ s.Puts s' p.1.2 p.1.1 p.2 ∧ p.1.1.direction = direction
  filled : ∃ taken pending starts,
    FillsInTurn s.emitter.options.order ps taken pending starts

/-- Everything that is given a location is put there. -/
theorem PlacesAll.puts_of_mem {ps : List Placing} (h : s.PlacesAll ps)
    {findings : List (Finding × Source.Position)} {p : Placing} (hp : p ∈ ps) :
    s.Puts ((ps.foldl settled s).reported findings) p.1.2 p.1.1 p.2 where
  before := (h.getElem? p hp).1
  isLocated := (h.getElem? p hp).2
  after := (interface_settled_foldl_of_mem h.nodup hp s).trans
    (congrArg _ (h.getElem? p hp).1)

end Session

namespace Lower

variable {stage : Stage} {options : Options} {s s' : Session} {b : Bool}

/-- Giving out locations fills in both directions. -/
theorem exists_fillsDirection (hs : s.Sound) (hrun : decorateLocations.runOn s = (.ok b, s'))
    (direction : Direction) : ∃ ps, s.FillsDirection s' direction ps := by
  have hfault : (decorateLocations.runOn s).1 ≠ .error (.fault .overflow) := by simp [hrun]
  obtain ⟨inputs, outputs, hinputs, houtputs⟩ := exists_plans hs hfault
  obtain ⟨ps, taken, pending, starts, hps, hfilled⟩ := LocationPlan.exists_fillsInTurn hinputs
  obtain ⟨qs, taken', pending', starts', hqs, hfilled'⟩ :=
    LocationPlan.exists_fillsInTurn houtputs
  have hall := Session.placesAll_of_serves hps hqs
  obtain ⟨-, rfl⟩ :=
    Prod.mk.inj (hrun.symm.trans (runOn_decorateLocations_of_plans hs hinputs houtputs hps hqs))
  cases direction with
  | input =>
    refine ⟨ps, fun p => ⟨fun hp => ?_, fun ⟨hputs, hdirection⟩ => ?_⟩, _, _, _, hfilled⟩
    · exact ⟨hall.puts_of_mem (List.mem_append_left _ hp), (hps.getElem?_of_mem hp).2.1⟩
    · refine (List.mem_append.1 (hall.mem_of_puts hputs)).resolve_right fun hq => ?_
      cases hdirection.symm.trans (hqs.getElem?_of_mem hq).2.1
  | output =>
    refine ⟨qs, fun p => ⟨fun hp => ?_, fun ⟨hputs, hdirection⟩ => ?_⟩, _, _, _, hfilled'⟩
    · exact ⟨hall.puts_of_mem (List.mem_append_right _ hp), (hqs.getElem?_of_mem hp).2.1⟩
    · refine (List.mem_append.1 (hall.mem_of_puts hputs)).resolve_left fun hp => ?_
      cases hdirection.symm.trans (hps.getElem?_of_mem hp).2.1

end Lower

namespace Session

variable {s s' : Session}

/-- Automatic locations are the lowest ones exactly if they keep clear of explicit locations and no
wider variable passes over a gap. -/
theorem fillsLowest_iff (h : ∀ direction, ∃ ps, s.FillsDirection s' direction ps) :
    s.FillsLowest s' ↔ s.AvoidsExplicit s' ∧ s.SkipsNoGap s' := by
  constructor
  · intro hlowest
    refine ⟨fun i j v u location location' hv hu hdirection hnone hsome => ?_,
      fun i j v u location location' hv hu hdirection hnone hnone' hturn hwider k hk hroom => ?_⟩
    · exact hasRoom_iff.1 (hlowest hv hnone).1 j u location' hu hdirection (.inl hsome)
    · -- the gap is in front of the wider variable, behind which the narrower one is
      obtain ⟨ps, hps⟩ := h v.direction
      obtain ⟨taken, pending, starts, hfilled⟩ := hps.filled
      have hbehind : location' + u.room ≤ location :=
        hfilled.behind ((hps.mem_iff ((u, j), location')).2 ⟨hu, hdirection⟩) hnone'
          ((hps.mem_iff ((v, i), location)).2 ⟨hv, rfl⟩) hnone hturn
      have hleast : location ≤ k := (hlowest hv hnone).2 hroom
      have := v.room_pos
      omega
  · rintro ⟨hexplicit, hgap⟩ i v location hv hnone
    obtain ⟨ps, hps⟩ := h v.direction
    obtain ⟨taken, pending, starts, hfilled⟩ := hps.filled
    have hp := (hps.mem_iff ((v, i), location)).2 ⟨hv, rfl⟩
    refine ⟨hasRoom_iff.2 fun j u location' hu hdirection hbefore => ?_, fun k hk => ?_⟩
    · cases hlocation : u.location with
      | some explicit => exact hexplicit hv hu hdirection hnone (hlocation ▸ rfl)
      | none =>
        rw [hlocation] at hbefore
        exact .inl (hfilled.behind ((hps.mem_iff ((u, j), location')).2 ⟨hu, hdirection⟩) hlocation
          hp hnone (hbefore.resolve_left (by simp)))
    · have hclear : ∀ q ∈ ps, q.1.1.location.isSome = true ∨
          s.emitter.options.order.TurnBefore q.1 (v, i) →
          q.2 + q.1.1.room ≤ k ∨ k + v.room ≤ q.2 := fun q hq =>
        hasRoom_iff.1 hk q.1.2 q.1.1 q.2 ((hps.mem_iff q).1 hq).1 ((hps.mem_iff q).1 hq).2
      rcases hfilled.exists_wider hp hnone hclear with hle | ⟨q, hq, hnone', hturn, hwider, hfront⟩
      · exact hle
      · obtain ⟨hu, hdirection⟩ := (hps.mem_iff q).1 hq
        exact absurd hk (hgap hv hu hdirection hnone hnone' hturn hwider k hfront)

/-- Without blend sources, what keeps apart from explicit locations meets none of them. -/
theorem ReservesApart.avoidsExplicit (h : s.ReservesApart s') (hsources : s.NoSources) :
    s.AvoidsExplicit s' := by
  intro i j v u location location' hv hu hdirection hnone hsome
  have hindex := hsources v (List.mem_of_getElem? hv.before) hv.isLocated
  have hindex' := hsources u (List.mem_of_getElem? hu.before) hu.isLocated
  have hapart := h (hv.ne_of_isSome hu hnone hsome) hv hu hdirection.symm
  rw [v.reserved_eq_slotsAt _ (.inr hindex), u.reserved_eq_slotsAt _ (.inl hsome)] at hapart
  exact (InterfaceVariable.stop_le_of_isApart hapart (hindex'.trans hindex.symm)).symm

end Session

namespace Lower

variable {stage : Stage} {options : Options} {s s' : Session} {b : Bool}

/-- **Filling in.**  When locations are given out, each automatic one is the lowest with room for
its variable exactly if automatic locations meet no explicit ones and no gap is passed over: a
variable must not come after a wider one that was put behind a gap with room for it.  The former is
the case if there are no blend sources and explicit locations keep apart. -/
theorem fillsLowest_decorateLocations (h : Session.Reachable stage options s)
    (hrun : decorateLocations.runOn s = (.ok b, s')) :
    (s.FillsLowest s' ↔ s.AvoidsExplicit s' ∧ s.SkipsNoGap s') ∧
      (s.NoSources → s.SlotsApart → s.AvoidsExplicit s') := by
  refine ⟨Session.fillsLowest_iff (exists_fillsDirection h.sound hrun), fun hsources hapart => ?_⟩
  have hfault : (decorateLocations.runOn s).1 ≠ .error (.fault .overflow) := by simp [hrun]
  obtain ⟨s₁, taken, hrun', hlocates, hreserves⟩ := locates_decorateLocations h.sound hfault
  obtain ⟨-, rfl⟩ := Prod.mk.inj (hrun.symm.trans hrun')
  exact (hreserves (hlocates.verdict.2 hapart)).avoidsExplicit hsources

end Lower

/-- A session with an input at location 1, behind it a matrix of two rows and then a vector of its
width. -/
def passedGap : Session :=
  let first := vertexInput 1 "a" { semantic := some "A", location := some 1 }
  let second : Source.Param :=
    { vertexInput 2 "b" { semantic := some "B" } with ty := .matrix .single 2 4 }
  let third := vertexInput 3 "c" { semantic := some "C" }
  ((Lower.createInput third false).runOn ((Lower.createInput second false).runOn
    ((Lower.createInput first false).runOn (.start .vertex {})).2).2).2

theorem reachable_passedGap : Session.Reachable .vertex {} passedGap :=
  .step (.input _ _) (.step (.input _ _) (.step (.input _ _) .start))

namespace Lower

theorem runOn_decorateLocations_passedGap :
    decorateLocations.runOn passedGap = (.ok true, (decorateLocations.runOn passedGap).2) :=
  Prod.ext (by decide +kernel) rfl

theorem fillsLowest_decorateLocations_passedGap :
    Session.Reachable .vertex {} passedGap ∧
    decorateLocations.runOn passedGap = (.ok true, (decorateLocations.runOn passedGap).2) ∧
    (passedGap.FillsLowest (decorateLocations.runOn passedGap).2 ↔
      passedGap.AvoidsExplicit (decorateLocations.runOn passedGap).2 ∧
        passedGap.SkipsNoGap (decorateLocations.runOn passedGap).2) ∧
    (passedGap.NoSources → passedGap.SlotsApart →
      passedGap.AvoidsExplicit (decorateLocations.runOn passedGap).2) :=
  ⟨reachable_passedGap, runOn_decorateLocations_passedGap,
    fillsLowest_decorateLocations reachable_passedGap runOn_decorateLocations_passedGap⟩

/-- The matrix is put behind the explicit location, and the vector behind the matrix: location 0
stays free. -/
theorem not_fillsLowest_passedGap :
    Session.Reachable .vertex {} passedGap ∧ (∀ v ∈ passedGap.interface, v.index = none) ∧
    ∃ s', decorateLocations.runOn passedGap = (.ok true, s') ∧ ¬passedGap.FillsLowest s' := by
  refine ⟨reachable_passedGap, ?_, _, runOn_decorateLocations_passedGap, fun hlowest => ?_⟩
  · have hindices : passedGap.interface.map (·.index) = [none, none, none] := by decide +kernel
    intro v hv
    have hindex := List.mem_map_of_mem (f := InterfaceVariable.index) hv
    rw [hindices] at hindex
    simpa using hindex
  · have hlocations : (decorateLocations.runOn passedGap).2.interface.map (·.location) =
        [some 1, some 2, some 4] := by decide +kernel
    have hthird : (passedGap.interface[2]?).map (fun v => (v.isLocated, v.location, v.room)) =
        some (true, none, 1) := by decide +kernel
    obtain ⟨v, hv, hfields⟩ := Option.map_eq_some_iff.1 hthird
    simp only [Prod.mk.injEq] at hfields
    obtain ⟨hlocated, hnone, hroom⟩ := hfields
    have hbehind : ∀ j u start,
        passedGap.Puts (decorateLocations.runOn passedGap).2 j u start → 1 ≤ start := by
      intro j u start hputs
      have hstart := List.mem_map_of_mem (f := InterfaceVariable.location)
        (List.mem_of_getElem? hputs.after)
      rw [hlocations] at hstart
      simp [InterfaceVariable.placedAt] at hstart
      omega
    have hanswer : (decorateLocations.runOn passedGap).1 = .ok true :=
      congrArg Prod.fst runOn_decorateLocations_passedGap
    obtain ⟨s', taken, hrun, hlocates, -⟩ :=
      locates_decorateLocations reachable_passedGap.sound (by simp [hanswer])
    rw [hrun] at hlowest hbehind
    obtain ⟨location, -, hafter, -⟩ := hlocates.located 2 v hv hlocated
    have hputs : passedGap.Puts s' 2 v location := ⟨hv, hlocated, hafter⟩
    have hleast : location ≤ 0 := (hlowest hputs hnone).2 <| Session.hasRoom_iff.2
      fun j u start hu _ _ => .inr (by simpa [hroom] using hbehind j u start hu)
    have := hbehind 2 v location hputs
    omega

end Lower

end ShaderLowering
