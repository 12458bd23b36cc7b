import ShaderLowering.Proofs.Interface.Directions
import ShaderLowering.Proofs.Session.ResourcePairing
import ShaderLowering.Proofs.Session.Slots

/-!
# Stages and resources do not interfere

All operations share one emitter, so what is created in between changes the numbers of types and
variables.  What a client sees does not depend on them: the interface is what the interface
operations alone make of it, the descriptor bindings are what the resource operations alone make of
them, and the locations of one direction are given out as if there were no other.

A run of all operations is compared with a run of one kind of them.  An operation of this kind does
the same on both sides, and every other one leaves the compared part of the longer run alone.
-/

namespace ShaderLowering

open Source (Position)

/-- Whether an operation is one on the interface of a stage. -/
def Operation.isInterface (op : Operation) : Bool := op.interface?.isSome

/-- Whether an operation is one on resources. -/
def Operation.isResource (op : Operation) : Bool := op.resource?.isSome

namespace Session

variable {s s' t : Session}

/-! ## What is seen of a session -/

/-- The semantic and the location of every interface variable. -/
def signature (s : Session) : List (Option Semantic × Option Nat) :=
  s.interface.map fun v => (v.semantic, v.location)

/-- The name, the descriptor set and the binding of every resource variable. -/
def bindings (s : Session) : List (Option (Option String × Option Nat × Option Nat)) :=
  s.resources.map fun r => (s.var? r.var).map (·.slot)

/-- The interface variables of one direction, without their numbers in the module. -/
def flowing (s : Session) (direction : Direction) : List InterfaceVariable :=
  (s.interface.filter (·.direction = direction)).map (·.unnumbered)

/-- The semantic and the location of every interface variable of one direction. -/
def signatureIn (s : Session) (direction : Direction) : List (Option Semantic × Option Nat) :=
  (s.interface.filter (·.direction = direction)).map fun v => (v.semantic, v.location)

theorem InterfaceAlike.signature (h : s.InterfaceAlike t) : s.signature = t.signature := by
  have hsame := congrArg (List.map fun v => (v.semantic, v.location)) h.interface
  rw [List.map_map, List.map_map] at hsame
  exact hsame

theorem ResourceAlike.bindings (h : s.ResourceAlike t) : s.bindings = t.bindings := by
  have hsame := congrArg (List.map Prod.snd) h.resources
  rw [List.map_map, List.map_map] at hsame
  exact hsame

theorem signatureIn_eq_of_flowing {direction : Direction}
    (h : s.flowing direction = t.flowing direction) :
    s.signatureIn direction = t.signatureIn direction := by
  have hsame := congrArg (List.map fun v => (v.semantic, v.location)) h
  rw [flowing, flowing, List.map_map, List.map_map] at hsame
  exact hsame

/-! ## One operation -/

theorem InterfaceAlike.refl (hs : s.Sound) : s.InterfaceAlike s where
  emitter := ⟨hs.emitter, hs.emitter, rfl⟩
  stage := rfl
  outputPoints := rfl
  interface := rfl
  builtins := rfl
  distances := rfl
  left := hs.holdsInterface
  right := hs.holdsInterface

/-- What leaves the interface alone leaves sessions alike. -/
theorem InterfaceAlike.of_keepsInterface (h : s.InterfaceAlike t) (hs' : s'.Sound)
    (hstep : s.KeepsInterface s') : s'.InterfaceAlike t where
  emitter := ⟨hs'.emitter, h.emitter.right, hstep.options.trans h.emitter.options⟩
  stage := hstep.stage.trans h.stage
  outputPoints := hstep.outputPoints.trans h.outputPoints
  interface := by rw [hstep.interface, h.interface]
  builtins := by rw [builtinPoints, hstep.builtins]; exact h.builtins
  distances := by rw [hstep.distances, h.distances]
  left := hs'.holdsInterface
  right := h.right

/-- An operation on the interface leaves sessions with the same interface alike, and answers or
fails alike. -/
theorem InterfaceAlike.after (h : s.InterfaceAlike t) (op : InterfaceOperation) :
    (s.after (.interface op)).InterfaceAlike (t.after (.interface op)) ∧
    Action.Agree (fun _ _ => True) ((Operation.interface op).action.runOn s).1
      ((Operation.interface op).action.runOn t).1 := by
  have hforget := Lower.pair_forget (h.pair_action op)
  exact ⟨hforget.alike, hforget.agree⟩

/-- An operation on the interface leaves resources and counters alone. -/
theorem keepsResources_after (hs : s.Sound) (op : InterfaceOperation) :
    s.InterfaceStep (s.after (.interface op)) := by
  have hstep := ((InterfaceAlike.refl hs).pair_action op).left
  show s.InterfaceStep ((Lower.forget op.action).runOn s).2
  rw [Lower.runOn_forget]
  exact hstep

/-- An operation that is not one on the interface leaves the interface alone. -/
theorem keepsInterface_of_not_isInterface (hs : s.Sound) {op : Operation}
    (h : op.isInterface = false) : s.KeepsInterface (s.after op) := by
  cases op with
  | interface op => cases h
  | resource op => exact (keepsInterface_after hs op).1
  | _ => exact (keepsRest_after hs.emitter ⟨rfl, rfl⟩).toKeepsInterface

/-- An operation that is not one on resources leaves the resources alone. -/
theorem keepsResources_of_not_isResource (hs : s.Sound) {op : Operation}
    (h : op.isResource = false) : s.KeepsResources (s.after op) := by
  cases op with
  | interface op => exact (keepsResources_after hs op).toKeepsResources
  | resource op => cases h
  | _ => exact (keepsRest_after hs.emitter ⟨rfl, rfl⟩).toKeepsResources

/-- An operation leaves the counters of all declarations alone but its own. -/
theorem keepsCounters_after (hs : s.Sound) (op : Operation) :
    s.KeepsCounters op.id? (s.after op) := by
  cases op with
  | interface op =>
    intro id _
    rw [counterMap?, (keepsResources_after hs op).counters]
    rfl
  | resource op => exact (keepsInterface_after hs op).2
  | _ => exact (keepsRest_after hs.emitter ⟨rfl, rfl⟩).counters

end Session

/-- What answers like something that has no fault of its arithmetic has none. -/
theorem Action.Agree.faultless {α β : Type} {Q : α → β → Prop} {r : Except Failure α}
    {r' : Except Failure β} (h : Agree Q r r') (hr : ∀ f, r ≠ .error (.fault f)) (f : Fault) :
    r' ≠ .error (.fault f) := by
  rintro rfl
  cases r with
  | ok a => exact h
  | error g =>
    cases g with
    | fault g => exact hr g rfl
    | error e => cases e <;> cases h

/-! ## Runs -/

namespace Session

variable {s t : Session}

/-- The interface of a run is what its interface operations alone make of it. -/
theorem InterfaceAlike.run (h : s.InterfaceAlike t) (hs : s.Sound) (ops : List Operation) :
    (s.run ops).InterfaceAlike (t.run (ops.filter (·.isInterface))) ∧
    (s.RunsThrough ops → t.RunsThrough (ops.filter (·.isInterface))) := by
  induction ops generalizing s t with
  | nil => exact ⟨h, id⟩
  | cons op rest ih =>
    have hs' := hs.after op
    cases hop : op.isInterface with
    | false =>
      rw [List.filter_cons_of_neg (by simp [hop])]
      obtain ⟨halike, hruns⟩ :=
        ih (h.of_keepsInterface hs' (keepsInterface_of_not_isInterface hs hop)) hs'
      exact ⟨halike, fun hrun => hruns hrun.2⟩
    | true =>
      rw [List.filter_cons_of_pos hop]
      obtain ⟨op, rfl⟩ : ∃ i, op = .interface i := by
        cases op <;> first | exact ⟨_, rfl⟩ | cases hop
      obtain ⟨hafter, hagree⟩ := h.after op
      obtain ⟨halike, hruns⟩ := ih hafter hs'
      exact ⟨halike, fun hrun => ⟨hagree.faultless hrun.1, hruns hrun.2⟩⟩

/-- The resources of a run are what its resource operations alone make of them. -/
theorem ResourceAlike.run (h : s.ResourceAlike t) (hs : s.Sound) (ht : t.Sound)
    (ops : List Operation) :
    (s.run ops).ResourceAlike (t.run (ops.filter (·.isResource))) ∧
    (s.RunsThrough ops → t.RunsThrough (ops.filter (·.isResource))) := by
  induction ops generalizing s t with
  | nil => exact ⟨h, id⟩
  | cons op rest ih =>
    have hs' := hs.after op
    cases hop : op.isResource with
    | false =>
      rw [List.filter_cons_of_neg (by simp [hop])]
      obtain ⟨halike, hruns⟩ :=
        ih (h.of_keepsResources hs' (keepsResources_of_not_isResource hs hop)) hs' ht
      exact ⟨halike, fun hrun => hruns hrun.2⟩
    | true =>
      rw [List.filter_cons_of_pos hop]
      obtain ⟨op, rfl⟩ : ∃ r, op = .resource r := by
        cases op <;> first | exact ⟨_, rfl⟩ | cases hop
      obtain ⟨hafter, hagree⟩ := h.after hs ht op
      obtain ⟨halike, hruns⟩ := ih hafter hs' (ht.after _)
      exact ⟨halike, fun hrun => ⟨hagree.faultless hrun.1, hruns hrun.2⟩⟩

theorem runsThrough_append {ops ops' : List Operation} :
    s.RunsThrough (ops ++ ops') ↔ s.RunsThrough ops ∧ (s.run ops).RunsThrough ops' := by
  induction ops generalizing s with
  | nil => exact (and_iff_right trivial).symm
  | cons op rest ih => exact (and_congr_right fun _ => ih).trans and_assoc.symm

/-! ## Locations of one direction -/

/-- Elements that are picked out of a changed list are those that are picked out before the change,
each changed for itself. -/
theorem filter_eq_map_filter_zipIdx {α : Type} {p : α → Bool} {g : α × Nat → α} :
    (l l' : List α) → (k : Nat) → l'.length = l.length →
    (∀ i a a', l[i]? = some a → l'[i]? = some a' →
      p a' = p a ∧ (p a = true → a' = g (a, k + i))) →
    l'.filter p = ((l.zipIdx k).filter (p ·.1)).map g
  | [], [], _, _, _ => rfl
  | a :: rest, a' :: rest', k, hlength, h => by
    obtain ⟨hp, hg⟩ := h 0 a a' rfl rfl
    have hrest := filter_eq_map_filter_zipIdx (p := p) (g := g) rest rest' (k + 1)
      (Nat.succ.inj hlength) fun i b b' hb hb' => by
        have hi := h (i + 1) b b' hb hb'
        rwa [Nat.add_assoc, Nat.add_comm 1]
    rw [List.zipIdx_cons, List.filter_cons, List.filter_cons, hp, hrest]
    split
    · rename_i hpa
      rw [List.map_cons, hg hpa, Nat.add_zero]
    · rfl

/-- What is carried out is where the plan puts a variable. -/
theorem place_of_serves {plan : LocationPlan} {direction : Direction}
    {vs : List InterfaceVariable} {ps : List Placing} (hps : plan.Serves direction vs ps)
    {p : Placing} (hp : p ∈ ps) : plan.place p.1 = p.1.1.placedAt p.2 := by
  have hlookup : plan.placed.lookup p.1.2 = some p.2 := by
    rw [hps.placed]
    have hnodup := hps.nodup
    obtain ⟨before, after, rfl⟩ := List.append_of_mem hp
    refine List.lookup_eq_some_iff.2 ⟨before.map fun p => (p.1.2, p.2),
      after.map fun p => (p.1.2, p.2), by rw [List.map_append, List.map_cons], ?_⟩
    intro q hq
    obtain ⟨r, hr, rfl⟩ := List.mem_map.1 hq
    rw [List.map_append, List.map_cons] at hnodup
    have hne : r.1.2 ≠ p.1.2 := (List.nodup_append.1 hnodup).2.2 _
      (List.mem_map_of_mem hr) _ List.mem_cons_self
    simpa using hne.symm
  rw [LocationPlan.place, hlookup]

theorem place_of_not_mem {plan : LocationPlan} {p : InterfaceVariable × Nat}
    (h : ∀ q ∈ plan.placed, q.1 ≠ p.2) : plan.place p = p.1 := by
  have hlookup : plan.placed.lookup p.2 = none := by
    rw [List.lookup_eq_none_iff]
    exact fun q hq => bne_iff_ne.2 (h q hq).symm
  rw [LocationPlan.place, hlookup]

/-- After locations were given out, the variables of a direction are where the plan for it puts
them. -/
theorem exists_plan_decorateLocations (hs : s.Sound)
    (hrun : (Lower.decorateLocations.runOn s).1 ≠ .error (.fault .overflow))
    (direction : Direction) :
    ∃ plan, LocationPlan.of s.emitter.options.order direction s.interface = .ok plan ∧
      (Lower.decorateLocations.runOn s).2.interface.filter (·.direction = direction) =
        (variablesIn direction s.interface).map plan.place := by
  obtain ⟨inputs, outputs, hinputs, houtputs⟩ := Lower.exists_plans hs hrun
  obtain ⟨ps, hps⟩ := LocationPlan.serves_of hinputs
  obtain ⟨qs, hqs⟩ := LocationPlan.serves_of houtputs
  have hall := placesAll_of_serves hps hqs
  obtain ⟨plan, rs, hplan, hrs, hsub⟩ : ∃ plan rs,
      LocationPlan.of s.emitter.options.order direction s.interface = .ok plan ∧
      plan.Serves direction s.interface rs ∧ ∀ r ∈ rs, r ∈ ps ++ qs := by
    cases direction with
    | input => exact ⟨inputs, ps, hinputs, hps, fun r hr => List.mem_append_left qs hr⟩
    | output => exact ⟨outputs, qs, houtputs, hqs, fun r hr => List.mem_append_right ps hr⟩
  refine ⟨plan, hplan, ?_⟩
  rw [Lower.runOn_decorateLocations_of_plans hs hinputs houtputs hps hqs]
  show ((ps ++ qs).foldl settled s).interface.filter _ = _
  refine filter_eq_map_filter_zipIdx _ _ 0 (length_interface_settled_foldl _ s) ?_
  intro i v v' hv hv'
  rw [Nat.zero_add]
  by_cases hi : ∃ p ∈ ps ++ qs, p.1.2 = i
  · obtain ⟨p, hp, rfl⟩ := hi
    rw [interface_settled_foldl_of_mem hall.nodup hp, hv] at hv'
    cases hv'
    refine ⟨rfl, fun hdirection => ?_⟩
    -- the variable is at a location, so it has its turn in the plan for its direction
    obtain ⟨hvar, hlocated⟩ := hall.getElem? p hp
    cases Option.some.inj (hv.symm.trans hvar)
    obtain ⟨location, hr⟩ := hrs.exists_mem hv (of_decide_eq_true hdirection) hlocated
    have hsame := interface_settled_foldl_of_mem hall.nodup (hsub _ hr) s
    rw [interface_settled_foldl_of_mem hall.nodup hp, hv] at hsame
    exact (Option.some.inj hsame).trans (place_of_serves hrs hr).symm
  · rw [interface_settled_foldl_of_not_mem fun p hp heq => hi ⟨p, hp, heq⟩, hv] at hv'
    cases hv'
    refine ⟨rfl, fun _ => (place_of_not_mem (p := (v, i)) fun q hq heq => ?_).symm⟩
    rw [hrs.placed] at hq
    obtain ⟨r, hr, rfl⟩ := List.mem_map.1 hq
    exact hi ⟨r, hsub r hr, heq⟩

/-- The locations of one direction depend on the variables of this direction only. -/
theorem flowing_decorateLocations (hs : s.Sound) (ht : t.Sound)
    (hoptions : s.emitter.options = t.emitter.options)
    (hrun : (Lower.decorateLocations.runOn s).1 ≠ .error (.fault .overflow))
    (hrun' : (Lower.decorateLocations.runOn t).1 ≠ .error (.fault .overflow))
    {direction : Direction} (h : s.flowing direction = t.flowing direction) :
    (Lower.decorateLocations.runOn s).2.flowing direction =
      (Lower.decorateLocations.runOn t).2.flowing direction := by
  obtain ⟨plan, hplan, hplaced⟩ := exists_plan_decorateLocations hs hrun direction
  obtain ⟨plan', hplan', hplaced'⟩ := exists_plan_decorateLocations ht hrun' direction
  rw [flowing, flowing, hplaced, hplaced']
  rw [hoptions] at hplan
  exact LocationPlan.map_place_congr h hplan hplan'

/-! ## No interference -/

theorem sound_run (stage : Stage) (options : Options) (ops : List Operation) :
    ((start stage options).run ops).Sound := (sound_start stage options).run ops

theorem options_run (stage : Stage) (options : Options) (ops : List Operation) :
    ((start stage options).run ops).emitter.options = options :=
  (Reachable.start.run ops).options_eq

/-- Where locations were given out without a fault, this was no overflow. -/
theorem ne_overflow_of_runsThrough {ops : List Operation}
    (h : s.RunsThrough (ops ++ [.interface .locations])) :
    (Lower.decorateLocations.runOn (s.run ops)).1 ≠ .error (.fault .overflow) := by
  intro hfault
  have hlast := (runsThrough_append.1 h).2.1 .overflow
  refine hlast ?_
  show ((Lower.forget Lower.decorateLocations).runOn (s.run ops)).1 = _
  rw [Lower.runOn_forget, hfault]
  rfl

/-- **Stages and resources do not interfere.**  Whatever operations are run, if none breaks off for
a fault of its arithmetic, then the interface variables have the semantics and locations that the
operations on the interface alone would give them, which break off for no fault either, and the
resource variables have the names, sets and bindings that the operations on resources alone would
give them.

Moreover, let a session with the same options come from any operations at all, on whatever stage,
and have the same variables of one direction, up to their numbers in the module.  Then giving out
locations gives these variables the same locations in both, whatever else is on the interface. -/
theorem noninterference_run (stage : Stage) (options : Options) (ops : List Operation)
    (h : (start stage options).RunsThrough ops) :
    ((start stage options).RunsThrough (ops.filter (·.isInterface)) ∧
      ((start stage options).run ops).signature =
        ((start stage options).run (ops.filter (·.isInterface))).signature) ∧
    ((start stage options).RunsThrough (ops.filter (·.isResource)) ∧
      ((start stage options).run ops).bindings =
        ((start stage options).run (ops.filter (·.isResource))).bindings) ∧
    ∀ (direction : Direction) (stage' : Stage) (ops' : List Operation),
      (start stage options).RunsThrough (ops ++ [.interface .locations]) →
      (start stage' options).RunsThrough (ops' ++ [.interface .locations]) →
      ((start stage options).run ops).flowing direction =
        ((start stage' options).run ops').flowing direction →
      ((start stage options).run (ops ++ [.interface .locations])).signatureIn direction =
        ((start stage' options).run (ops' ++ [.interface .locations])).signatureIn direction := by
  have hs := sound_start stage options
  -- each kind of operations is run beside all of them
  obtain ⟨hinterface, hruns⟩ := (InterfaceAlike.refl hs).run hs ops
  obtain ⟨hresources, hruns'⟩ := (ResourceAlike.refl hs).run hs hs ops
  refine ⟨⟨hruns h, hinterface.signature⟩, ⟨hruns' h, hresources.bindings⟩, ?_⟩
  intro direction stage' ops' hleft hright hsame
  have hafter : ∀ s : Session, s.after (.interface .locations) =
      (Lower.decorateLocations.runOn s).2 := fun s => congrArg Prod.snd (Lower.runOn_forget _ s)
  -- what flows in the direction says more than its signature
  refine signatureIn_eq_of_flowing ?_
  rw [run_append, run_append]
  show ((run _ ops).after _).flowing direction = ((run _ ops').after _).flowing direction
  rw [hafter, hafter]
  exact flowing_decorateLocations (sound_run _ _ _) (sound_run _ _ _)
    ((options_run _ _ _).trans (options_run _ _ _).symm) (ne_overflow_of_runsThrough hleft)
    (ne_overflow_of_runsThrough hright) hsame

/-- The answers of operations in order. -/
def answers : Session → List Operation → List (Except Failure Unit)
  | _, [] => []
  | s, op :: rest => (op.action.runOn s).1 :: answers (s.after op) rest

theorem runsThrough_of_answers {ops : List Operation}
    (h : s.answers ops = ops.map fun _ => .ok ()) : s.RunsThrough ops := by
  induction ops generalizing s with
  | nil => trivial
  | cons op rest ih =>
    obtain ⟨hanswer, hrest⟩ := List.cons.inj h
    refine ⟨fun f hf => ?_, ih hrest⟩
    cases hanswer.symm.trans hf

end Session

/-- An input of a vertex shader. -/
def readPosition : Operation :=
  .interface (.input (vertexInput 1 "a" { semantic := some "A" }) false)

/-- An input, an output and two resources of a vertex shader, created in turn with a parameter of
a function. -/
def interleaved : List Operation :=
  [.resource (.block (emptyBlock 2 "globals" { register := some ⟨"b", 3, 1⟩ })),
    readPosition,
    .declaration (.param (vertexInput 3 "p" {})),
    .resource (.block (emptyBlock 4 "others" {})),
    .interface (.output (vertexInput 5 "b" { semantic := some "B" }) false),
    .resource .bindings,
    .interface .locations]

namespace Session

/-- The input is where it would be without all the rest. -/
theorem noninterference_run_interleaved :
    let s := start .vertex {}
    let again : Operation := .interface .locations
    s.RunsThrough interleaved ∧ s.RunsThrough (interleaved ++ [again]) ∧
    s.RunsThrough ([readPosition, again] ++ [again]) ∧
    (s.run interleaved).flowing .input = (s.run [readPosition, again]).flowing .input ∧
    (s.run interleaved).signature = (s.run (interleaved.filter (·.isInterface))).signature ∧
    (s.run interleaved).bindings = (s.run (interleaved.filter (·.isResource))).bindings ∧
    (s.run interleaved).bindings =
      [some (some "globals", some 1, some 3), some (some "others", some 0, some 0)] ∧
    (s.run (interleaved ++ [again])).signatureIn .input =
      (s.run ([readPosition, again] ++ [again])).signatureIn .input ∧
    ((s.run (interleaved ++ [again])).signatureIn .input).map (·.2) = [some 0] := by
  intro s again
  have hagain : s.RunsThrough (interleaved ++ [again]) :=
    runsThrough_of_answers (by decide +kernel)
  have halone : s.RunsThrough ([readPosition, again] ++ [again]) :=
    runsThrough_of_answers (by decide +kernel)
  have hinputs : (s.run interleaved).flowing .input =
      (s.run [readPosition, again]).flowing .input := by decide +kernel
  have hruns := (runsThrough_append.1 hagain).1
  obtain ⟨⟨-, hsignature⟩, ⟨-, hbindings⟩, hlocations⟩ :=
    noninterference_run .vertex {} interleaved hruns
  exact ⟨hruns, hagain, halone, hinputs, hsignature, hbindings, by decide +kernel,
    hlocations .input .vertex _ hagain halone hinputs, by decide +kernel⟩

end Session

end ShaderLowering
