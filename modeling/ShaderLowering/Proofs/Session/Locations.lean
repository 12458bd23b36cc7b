import ShaderLowering.Proofs.Session.Decoration
import ShaderLowering.Proofs.Session.Reachable

/-!
# Locations of a session

Giving out locations is run on one direction after the other.  Each time a plan is made from the
interface and carried out, variable by variable; what both runs do together is one loop over all
variables at locations, since a plan depends on nothing but the variables of its direction.
-/

namespace ShaderLowering

open Source (Position)
open Spirv (VariableId)

namespace Session

variable {s s' : Session}

/-- The session with an interface variable at its location. -/
def settled (s : Session) (p : Placing) : Session :=
  { s with interface := s.interface.modify p.1.2 (.placedAt p.2) }.decorated p.1.1.var
    [.location p.2]

theorem reported_settled_foldl (ps : List Placing) (s : Session)
    (findings : List (Finding × Position)) :
    ps.foldl settled (s.reported findings) = (ps.foldl settled s).reported findings := by
  induction ps generalizing s with
  | nil => rfl
  | cons p rest ih => exact ih (s.settled p)

theorem settled_foldl_frame (ps : List Placing) (s : Session) :
    ps.foldl settled s = { s with
      emitter := (ps.foldl settled s).emitter
      interface := (ps.foldl settled s).interface } ∧
    (ps.foldl settled s).emitter.log = s.emitter.log := by
  induction ps generalizing s with
  | nil => exact ⟨rfl, rfl⟩
  | cons p rest ih =>
    obtain ⟨hframe, hlog⟩ := ih (s.settled p)
    rw [List.foldl_cons]
    exact ⟨hframe, hlog⟩

theorem options_settled_foldl (ps : List Placing) (s : Session) :
    (ps.foldl settled s).emitter.options = s.emitter.options := by
  induction ps generalizing s with
  | nil => rfl
  | cons p rest ih => exact ih (s.settled p)

theorem interface_settled (s : Session) (p : Placing) (i : Nat) :
    (s.settled p).interface[i]? =
      if p.1.2 = i then (s.interface[i]?).map (.placedAt p.2) else s.interface[i]? := by
  show (s.interface.modify p.1.2 (.placedAt p.2))[i]? = _
  rw [List.getElem?_modify]
  split
  · rfl
  · exact Option.map_id'

theorem var?_settled (s : Session) (p : Placing) (j : VariableId) : (s.settled p).var? j =
    (s.var? j).map (·.gaining (if p.1.1.var = j then [.location p.2] else [])) :=
  var?_decorated _ _ _ _

/-- A variable that has no turn stays as it is. -/
theorem interface_settled_foldl_of_not_mem {ps : List Placing} {i : Nat}
    (h : ∀ p ∈ ps, p.1.2 ≠ i) (s : Session) :
    (ps.foldl settled s).interface[i]? = s.interface[i]? := by
  induction ps generalizing s with
  | nil => rfl
  | cons p rest ih =>
    rw [List.foldl_cons, ih fun q hq => h q (List.mem_cons_of_mem p hq), interface_settled,
      if_neg (h p List.mem_cons_self)]

/-- A variable that has one turn gets that location. -/
theorem interface_settled_foldl_of_mem {ps : List Placing} (hnodup : (ps.map (·.1.2)).Nodup)
    {p : Placing} (hp : p ∈ ps) (s : Session) :
    (ps.foldl settled s).interface[p.1.2]? = (s.interface[p.1.2]?).map (.placedAt p.2) := by
  induction ps generalizing s with
  | nil => cases hp
  | cons q rest ih =>
    rw [List.map_cons, List.nodup_cons] at hnodup
    rw [List.foldl_cons]
    rcases List.mem_cons.1 hp with rfl | hp
    · have hrest : ∀ q ∈ rest, q.1.2 ≠ p.1.2 := fun q hq heq =>
        hnodup.1 (heq ▸ List.mem_map_of_mem (f := fun q : Placing => q.1.2) hq)
      rw [interface_settled_foldl_of_not_mem hrest, interface_settled, if_pos rfl]
    · have hne : q.1.2 ≠ p.1.2 := fun heq =>
        hnodup.1 (heq ▸ List.mem_map_of_mem (f := fun q : Placing => q.1.2) hp)
      rw [ih hnodup.2 hp, interface_settled, if_neg hne]

/-- Locations of one direction leave the other direction alone. -/
theorem locatedVariables_settled_foldl {direction : Direction} {ps : List Placing}
    (h : ∀ p ∈ ps, p.1.1.direction ≠ direction)
    (hps : ∀ p ∈ ps, (s.interface[p.1.2]?).map (·.direction) = some p.1.1.direction) :
    locatedVariables direction (ps.foldl settled s).interface =
      locatedVariables direction s.interface := by
  induction ps generalizing s with
  | nil => rfl
  | cons p rest ih =>
    have hp := hps p List.mem_cons_self
    rw [List.foldl_cons, ih (fun q hq => h q (List.mem_cons_of_mem p hq)) fun q hq => ?_]
    · refine locatedVariables_modify (fun _ => rfl) fun v hv hdirection => ?_
      rw [hv, Option.map_some, Option.some.injEq] at hp
      exact h p List.mem_cons_self (hp.symm.trans hdirection)
    · rw [interface_settled]
      split
      · rw [Option.map_map]
        exact hps q (List.mem_cons_of_mem p hq)
      · exact hps q (List.mem_cons_of_mem p hq)

end Session

namespace Lower

variable {s s' : Session}

/-- A variable that exists gets its location. -/
theorem runOn_setLocation {p : Placing} (hvar : (s.interface[p.1.2]?).map (·.var) = some p.1.1.var)
    (hlt : p.1.1.var < s.size) : (setLocation p.1.2 p.2).runOn s = (.ok (), s.settled p) := by
  obtain ⟨v, hv, hid⟩ := Option.map_eq_some_iff.1 hvar
  have hplaced : (s.interface.modify p.1.2 fun v => { v with location := some p.2 })[p.1.2]? =
      some (v.placedAt p.2) := by
    rw [List.getElem?_modify_eq, hv]
    rfl
  rw [setLocation, Action.runOn_bind_of_ok (Action.runOn_modify _ _),
    Action.runOn_bind_of_ok (Action.runOn_get _)]
  dsimp only
  rw [hplaced]
  show (emit (.decorate v.var _)).runOn _ = _
  rw [hid]
  exact runOn_decorate (s := { s with interface := s.interface.modify p.1.2 (.placedAt p.2) }) hlt _

/-- All variables of a plan get their locations. -/
theorem runOn_setLocations {ps : List Placing}
    (h : ∀ p ∈ ps, (s.interface[p.1.2]?).map (·.var) = some p.1.1.var ∧ p.1.1.var < s.size) :
    ((ps.map fun p : Placing => (p.1.2, p.2)).forM fun (i, location) =>
      setLocation i location).runOn s = (.ok (), ps.foldl Session.settled s) := by
  rw [List.forM_eq_forM, List.forM_map, ← List.forM_eq_forM]
  refine Action.runOn_forM (f := fun p : Placing => setLocation p.1.2 p.2)
    (P := fun (p : Placing) (s : Session) =>
      (s.interface[p.1.2]?).map (·.var) = some p.1.1.var ∧ p.1.1.var < s.size)
    (fun p s hp => runOn_setLocation hp.1 hp.2) (fun p q s _ hq => ⟨?_, ?_⟩) ps h
  · rw [Session.interface_settled]
    split
    · rw [Option.map_map]
      exact hq.1
    · exact hq.1
  · rw [Session.settled, Session.size_decorated]
    exact hq.2

/-- The findings about semantics that are used twice in one direction. -/
def repeatedIn (direction : Direction) (s : Session) : List (Finding × Position) :=
  repeatedSemantics direction [] (s.interface.filter (·.direction = direction))

theorem runOn_checkSemantics (direction : Direction) (s : Session) :
    (checkSemantics direction).runOn s =
      (.ok (repeatedIn direction s).isEmpty, s.reported (repeatedIn direction s)) := by
  rw [checkSemantics, Action.runOn_bind_of_ok (Action.runOn_get _)]
  dsimp only
  rw [Action.runOn_bind_of_ok (runOn_reportAll _ _)]
  rfl

/-- Without a plan nothing is done. -/
theorem runOn_assignLocations_of_error {direction : Direction} {f : Fault}
    (h : LocationPlan.of s.emitter.options.order direction s.interface = .error f) :
    (assignLocations direction).runOn s = (.error (.fault f), s) := by
  have hoptions : options.runOn s = (.ok s.emitter.options, s) := rfl
  rw [assignLocations, Action.runOn_bind_of_ok hoptions,
    Action.runOn_bind_of_ok (Action.runOn_get _), h]
  exact Action.runOn_bind_of_error (Action.runOn_ofChecked_error _ _)

/-- A plan is carried out. -/
theorem runOn_assignLocations (hs : s.Sound) {direction : Direction} {plan : LocationPlan}
    (h : LocationPlan.of s.emitter.options.order direction s.interface = .ok plan)
    {ps : List Placing} (hps : plan.Serves direction s.interface ps) :
    (assignLocations direction).runOn s =
      (.ok plan.findings.isEmpty, (ps.foldl Session.settled s).reported plan.findings) := by
  have hoptions : options.runOn s = (.ok s.emitter.options, s) := rfl
  have hheld : ∀ p ∈ ps,
      (s.interface[p.1.2]?).map (·.var) = some p.1.1.var ∧ p.1.1.var < s.size := by
    intro p hp
    obtain ⟨hv, -, -⟩ := hps.getElem?_of_mem hp
    exact ⟨congrArg (Option.map _) hv, hs.held.interface _ (List.mem_of_getElem? hv)⟩
  have hloop := runOn_setLocations (s := s.reported plan.findings) hheld
  rw [assignLocations, Action.runOn_bind_of_ok hoptions,
    Action.runOn_bind_of_ok (Action.runOn_get _), h,
    Action.runOn_bind_of_ok (Action.runOn_ofChecked_ok _ _),
    Action.runOn_bind_of_ok (runOn_reportAll _ _), hps.placed, Action.runOn_bind_of_ok hloop,
    Session.reported_settled_foldl]
  rfl

/-- The semantics are checked first, which leaves nothing but findings behind. -/
theorem runOn_decorateLocations_eq (s : Session) :
    decorateLocations.runOn s =
      (do
        let inputsPlaced ← assignLocations .input
        let outputsPlaced ← assignLocations .output
        return (repeatedIn .input s).isEmpty && (repeatedIn .output s).isEmpty && inputsPlaced &&
          outputsPlaced).runOn (s.reported (repeatedIn .input s ++ repeatedIn .output s)) := by
  have hinputs := runOn_checkSemantics .input s
  have houtputs : (checkSemantics .output).runOn (s.reported (repeatedIn .input s)) =
      (.ok (repeatedIn .output s).isEmpty,
        (s.reported (repeatedIn .input s)).reported (repeatedIn .output s)) :=
    runOn_checkSemantics .output _
  rw [decorateLocations, Action.runOn_bind_of_ok hinputs, Action.runOn_bind_of_ok houtputs,
    Session.reported_reported]

/-- With a plan for the inputs these get their locations, and the outputs are planned as before. -/
theorem runOn_decorateLocations_of_inputs (hs : s.Sound) {inputs : LocationPlan} {ps : List Placing}
    (hinputs : LocationPlan.of s.emitter.options.order .input s.interface = .ok inputs)
    (hps : inputs.Serves .input s.interface ps) :
    ∃ s₁ : Session, s₁ = (ps.foldl Session.settled s).reported
        (repeatedIn .input s ++ repeatedIn .output s ++ inputs.findings) ∧ s₁.Sound ∧
      locatedVariables .output s₁.interface = locatedVariables .output s.interface ∧
      s₁.emitter.options = s.emitter.options ∧
      decorateLocations.runOn s =
        (do
          let outputsPlaced ← assignLocations .output
          return (repeatedIn .input s).isEmpty && (repeatedIn .output s).isEmpty &&
            inputs.findings.isEmpty && outputsPlaced).runOn s₁ := by
  rw [runOn_decorateLocations_eq]
  generalize repeatedIn .input s ++ repeatedIn .output s = repeated
  have hs₁ : (s.reported repeated).Sound := ((keeps_reportAll hs repeated).of_run
    (runOn_reportAll repeated s)).1
  have hfirst := runOn_assignLocations hs₁ hinputs hps
  obtain ⟨hs₂, -⟩ := (keeps_assignLocations hs₁ .input).of_run hfirst
  rw [Session.reported_settled_foldl, Session.reported_reported] at hfirst hs₂
  refine ⟨_, rfl, hs₂, ?_, Session.options_settled_foldl ps s, Action.runOn_bind_of_ok hfirst⟩
  -- the outputs are still what they were before the inputs got their locations
  refine Session.locatedVariables_settled_foldl (fun p hp => ?_) fun p hp => ?_
  · rw [(hps.getElem?_of_mem hp).2.1]
    decide
  · rw [(hps.getElem?_of_mem hp).1]
    rfl

/-- With a plan for both directions locations are given out. -/
theorem runOn_decorateLocations_of_plans (hs : s.Sound) {inputs outputs : LocationPlan}
    {ps qs : List Placing}
    (hinputs : LocationPlan.of s.emitter.options.order .input s.interface = .ok inputs)
    (houtputs : LocationPlan.of s.emitter.options.order .output s.interface = .ok outputs)
    (hps : inputs.Serves .input s.interface ps) (hqs : outputs.Serves .output s.interface qs) :
    decorateLocations.runOn s =
      (.ok ((repeatedIn .input s).isEmpty && (repeatedIn .output s).isEmpty &&
          inputs.findings.isEmpty && outputs.findings.isEmpty),
        ((ps ++ qs).foldl Session.settled s).reported
          (repeatedIn .input s ++ repeatedIn .output s ++ inputs.findings ++
            outputs.findings)) := by
  obtain ⟨s₁, hs₁, hsound, hsame, hoptions, hrun⟩ := runOn_decorateLocations_of_inputs hs hinputs hps
  rw [← hoptions, ← LocationPlan.of_congr hsame] at houtputs
  have hsecond := runOn_assignLocations hsound houtputs (hqs.congr hsame.symm)
  rw [hrun, Action.runOn_bind_of_ok hsecond, hs₁, Session.reported_settled_foldl,
    Session.reported_reported, List.foldl_append]
  rfl

/-- Unless a location is no word there is a plan for both directions. -/
theorem exists_plans (hs : s.Sound)
    (hrun : (decorateLocations.runOn s).1 ≠ .error (.fault .overflow)) :
    ∃ inputs outputs,
      LocationPlan.of s.emitter.options.order .input s.interface = .ok inputs ∧
      LocationPlan.of s.emitter.options.order .output s.interface = .ok outputs := by
  cases hinputs : LocationPlan.of s.emitter.options.order .input s.interface with
  | error f =>
    have hfirst := runOn_assignLocations_of_error
      (s := s.reported (repeatedIn .input s ++ repeatedIn .output s)) hinputs
    rw [runOn_decorateLocations_eq, Action.runOn_bind_of_error hfirst,
      LocationPlan.eq_overflow_of hinputs] at hrun
    exact absurd rfl hrun
  | ok inputs =>
    obtain ⟨ps, hps⟩ := LocationPlan.serves_of hinputs
    obtain ⟨s₁, -, -, hsame, hoptions, hrun'⟩ := runOn_decorateLocations_of_inputs hs hinputs hps
    cases houtputs : LocationPlan.of s.emitter.options.order .output s.interface with
    | error f =>
      rw [hrun'] at hrun
      rw [← hoptions, ← LocationPlan.of_congr hsame] at houtputs
      rw [Action.runOn_bind_of_error (runOn_assignLocations_of_error houtputs),
        LocationPlan.eq_overflow_of houtputs] at hrun
      exact absurd rfl hrun
    | ok outputs => exact ⟨inputs, outputs, rfl, rfl⟩

/-- What giving out locations answers and leaves behind, unless a location is no word. -/
theorem runOn_decorateLocations (hs : s.Sound)
    (hrun : (decorateLocations.runOn s).1 ≠ .error (.fault .overflow)) :
    ∃ inputs outputs ps qs, LocationPlan.Serves inputs .input s.interface ps ∧
      LocationPlan.Serves outputs .output s.interface qs ∧
      decorateLocations.runOn s =
        (.ok ((repeatedIn .input s).isEmpty && (repeatedIn .output s).isEmpty &&
            inputs.findings.isEmpty && outputs.findings.isEmpty),
          ((ps ++ qs).foldl Session.settled s).reported
            (repeatedIn .input s ++ repeatedIn .output s ++ inputs.findings ++
              outputs.findings)) := by
  obtain ⟨inputs, outputs, hinputs, houtputs⟩ := exists_plans hs hrun
  obtain ⟨ps, hps⟩ := LocationPlan.serves_of hinputs
  obtain ⟨qs, hqs⟩ := LocationPlan.serves_of houtputs
  exact ⟨inputs, outputs, ps, qs, hps, hqs,
    runOn_decorateLocations_of_plans hs hinputs houtputs hps hqs⟩

end Lower

end ShaderLowering
