import ShaderLowering.Proofs.Interface.Creation

/-!
# Lowered entry points

What a session has after it lowered an entry point and found nothing wrong (`Session.Represents`):
a label for every lowered leaf at a location, a variable for every builtin among the lowered leaves
and for every array of distances with a component, and access to every distance that the record
walk found.  It is put together from the four phases of lowering: distances are recorded, their
arrays are created, the leaves are created, and locations are given out.
-/

namespace ShaderLowering

open Source (Ty Field Param Function EntryPoint)
open Spirv (Builtin StorageClass TypeId VariableId)

/-! ## Recording -/

/-- The second session differs in the distances of some parts, which are recorded. -/
structure Session.Records (s s' : Session) (parts : List (Direction × DistanceLeaf)) : Prop where
  frame : s' = { s with distances := s'.distances }
  distances : s.distances.Records s'.distances parts

namespace Session.Records

variable {s s' s'' : Session} {parts parts' : List (Direction × DistanceLeaf)}

theorem refl (hs : s.distances.WellFormed) : s.Records s [] := ⟨rfl, .refl hs⟩

theorem trans (h : s.Records s' parts) (h' : s'.Records s'' parts') :
    s.Records s'' (parts ++ parts') where
  frame := by
    rw [h'.frame, h.frame]
  distances := h.distances.trans h'.distances

theorem stage (h : s.Records s' parts) : s'.stage = s.stage := by
  rw [h.frame]

end Session.Records

namespace Lower

variable {s s' : Session} {p : Param} {perPatch : Bool}

theorem records_recordIn (hs : s.distances.WellFormed) {direction : Direction} {ty : Ty}
    (h : (recordIn direction ty p).runOn s = (.ok true, s')) :
    s.Records s' ((distanceLeaves ty p.attributes.semantic p.position ty).map (direction, ·)) := by
  obtain ⟨_, _, h₀, h⟩ := Action.runOn_bind_eq_ok_iff.1 h
  cases h₀
  rcases hrecord : s.distances.record ty p.attributes.semantic direction p.position with
    ⟨_ | ⟨finding, findings⟩, distances⟩ <;> rw [hrecord] at h
  · cases h
    exact ⟨rfl, DistanceArrays.records_of_record hs hrecord⟩
  · -- with a finding the answer is `false`
    obtain ⟨_, _, -, h⟩ := Action.runOn_bind_eq_ok_iff.1 h
    obtain ⟨_, _, -, h⟩ := Action.runOn_bind_eq_ok_iff.1 h
    cases h

/-- Records the distances of a declaration in a direction in which it flows. -/
def recordIf (flows : Bool) (direction : Direction) (ty : Ty) (p : Param) : Lower Bool :=
  if flows then recordIn direction ty p else return true

theorem records_recordIf (hs : s.distances.WellFormed) {flows : Bool} {direction : Direction}
    {ty : Ty} (h : (recordIf flows direction ty p).runOn s = (.ok true, s')) :
    s.Records s' (if flows then (distanceLeaves ty p.attributes.semantic p.position ty).map
      (direction, ·) else []) := by
  rw [recordIf] at h
  split at h
  · rename_i hflows
    rw [if_pos hflows]
    exact records_recordIn hs h
  · rename_i hflows
    rw [if_neg hflows]
    cases h
    exact .refl hs

theorem recordDistances_eq (p : Param) (perPatch : Bool) : recordDistances p perPatch = do
    match (p.perVertex (← get).stage perPatch).1 with
    | none => return true
    | some ty =>
      let inputs ← recordIf (p.isInput && !p.isStream) .input ty p
      let outputs ← recordIf p.isOutput .output ty p
      return inputs && outputs := by
  rw [recordDistances]
  simp only [recordIf]
  congr 1
  funext s
  cases (p.perVertex s.stage perPatch).1 with
  | none => rfl
  | some ty => dsimp only; split <;> split <;> rfl

theorem records_recordDistances (hs : s.distances.WellFormed)
    (h : (recordDistances p perPatch).runOn s = (.ok true, s')) :
    s.Records s' (p.distanceParts s.stage perPatch) := by
  rw [recordDistances_eq] at h
  obtain ⟨_, _, h₀, h⟩ := Action.runOn_bind_eq_ok_iff.1 h
  cases h₀
  rw [Param.distanceParts]
  cases hty : (p.perVertex s.stage perPatch).1 with
  | none =>
    rw [hty] at h
    cases h
    exact .refl hs
  | some ty =>
    rw [hty] at h
    obtain ⟨s₁, hin, hout⟩ := Action.runOn_and_eq_ok_iff.1 h
    have hinputs := records_recordIf hs hin
    exact hinputs.trans (records_recordIf hinputs.distances.wellFormed hout)

theorem records_forAll : {l : List Param} → {s s' : Session} → s.distances.WellFormed →
    (forAll (recordDistances · perPatch) l).runOn s = (.ok true, s') →
    s.Records s' (l.flatMap (·.distanceParts s.stage perPatch))
  | [], s, _, hs, h => by
    cases h
    exact .refl hs
  | p :: rest, s, s', hs, h => by
    obtain ⟨s₁, hfirst, hrest⟩ := Action.runOn_and_eq_ok_iff.1 h
    have hp := records_recordDistances hs hfirst
    have hothers := records_forAll hp.distances.wellFormed hrest
    rw [hp.stage] at hothers
    exact hp.trans hothers

end Lower

/-! ## Locations -/

/-- The second session has the same variables, but for their locations. -/
structure Session.Decorates (s s' : Session) : Prop where
  distances : s'.distances = s.distances
  located : s'.interface.filterMap (·.located?) = s.interface.filterMap (·.located?)
  builtin : ∀ b direction, s'.HasBuiltin b direction ↔ s.HasBuiltin b direction

namespace Session.Decorates

variable {s s' s'' : Session}

theorem refl (s : Session) : s.Decorates s := ⟨rfl, rfl, fun _ _ => .rfl⟩

theorem trans (h : s.Decorates s') (h' : s'.Decorates s'') : s.Decorates s'' where
  distances := h'.distances.trans h.distances
  located := h'.located.trans h.located
  builtin b direction := (h'.builtin b direction).trans (h.builtin b direction)

end Session.Decorates

/-- A change of one element that a filter does not see. -/
theorem filterMap_modify {α β : Type} {f : α → α} {g : α → Option β} (hf : ∀ a, g (f a) = g a) :
    (l : List α) → (i : Nat) → (l.modify i f).filterMap g = l.filterMap g
  | [], i => by rw [List.modify_nil]
  | a :: rest, 0 => by
    rw [List.modify_zero_cons, List.filterMap_cons, List.filterMap_cons, hf]
  | a :: rest, i + 1 => by
    rw [List.modify_succ_cons, List.filterMap_cons, List.filterMap_cons, filterMap_modify hf rest i]

/-- A change of one element that a predicate does not see. -/
theorem exists_mem_modify {α : Type} {f : α → α} {P : α → Prop} (hf : ∀ a, P (f a) ↔ P a) :
    (l : List α) → (i : Nat) → ((∃ a ∈ l.modify i f, P a) ↔ ∃ a ∈ l, P a)
  | [], i => by rw [List.modify_nil]
  | a :: rest, 0 => by simp [hf]
  | a :: rest, i + 1 => by simp [exists_mem_modify hf rest i]

/-- A decoration that is no builtin leaves the builtins of a module as they are. -/
theorem Spirv.Module.hasBuiltin_of_decorate {m m' : Spirv.Module} {id : VariableId}
    {d : Spirv.VariableDecoration} (hd : ∀ b, d ≠ .builtin b) (h : m.decorate id d = .ok m')
    {b : Builtin} {c : StorageClass} : m'.HasBuiltin b c ↔ m.HasBuiltin b c := by
  rw [decorate] at h
  split at h
  · cases h
    refine exists_mem_modify (fun v => ?_) m.variables.entries id
    simp [Spirv.Variable.Provides, (hd b).symm]
  · cases h

namespace Lower

variable {s s' : Session}

theorem decorates_decorate {id : VariableId} {d : Spirv.VariableDecoration}
    (hd : ∀ b, d ≠ .builtin b) (h : (emit (.decorate id d)).runOn s = (.ok (), s')) :
    s.Decorates s' := by
  obtain ⟨e₁, hrun, rfl⟩ := runOn_emit_eq_ok_iff.1 h
  obtain ⟨_, _, h₀, hrun⟩ := Action.runOn_bind_eq_ok_iff.1 hrun
  cases h₀
  split at hrun
  · rename_i target htarget
    cases hrun
    exact ⟨rfl, rfl, fun b direction => Spirv.Module.hasBuiltin_of_decorate hd htarget⟩
  · cases hrun

theorem decorates_setLocation {i location : Nat}
    (h : (setLocation i location).runOn s = (.ok (), s')) : s.Decorates s' := by
  obtain ⟨_, s₁, h₁, h⟩ := Action.runOn_bind_eq_ok_iff.1 h
  obtain ⟨_, _, h₀, h⟩ := Action.runOn_bind_eq_ok_iff.1 h
  cases h₀
  cases h₁
  have hlabel : ∀ v : InterfaceVariable,
      InterfaceVariable.located? { v with location := some location } = v.located? := fun _ => rfl
  have hmodify : s.Decorates { s with interface := s.interface.modify i fun v =>
      { v with location := some location } } :=
    ⟨rfl, filterMap_modify hlabel s.interface i, fun _ _ => .rfl⟩
  split at h
  · exact hmodify.trans (decorates_decorate (by simp) h)
  · cases h
    exact hmodify

theorem decorates_setLocations : {placed : List (Nat × Nat)} → {s s' : Session} →
    (placed.forM fun (i, location) => setLocation i location).runOn s = (.ok (), s') →
    s.Decorates s'
  | [], s, _, h => by
    cases h
    exact .refl s
  | (i, location) :: rest, s, s', h => by
    change (setLocation i location >>= fun _ =>
      rest.forM fun (i, location) => setLocation i location).runOn s = _ at h
    obtain ⟨_, s₁, h₁, h⟩ := Action.runOn_bind_eq_ok_iff.1 h
    exact (decorates_setLocation h₁).trans (decorates_setLocations h)

theorem decorates_checkSemantics {direction : Direction}
    (h : (checkSemantics direction).runOn s = (.ok true, s')) : s.Decorates s' := by
  obtain ⟨_, _, h₀, h⟩ := Action.runOn_bind_eq_ok_iff.1 h
  cases h₀
  dsimp only at h
  generalize repeatedSemantics direction [] _ = findings at h
  cases findings with
  | nil =>
    cases h
    exact .refl s
  | cons finding findings =>
    obtain ⟨_, _, -, h⟩ := Action.runOn_bind_eq_ok_iff.1 h
    cases h

theorem decorates_assignLocations {direction : Direction}
    (h : (assignLocations direction).runOn s = (.ok true, s')) : s.Decorates s' := by
  obtain ⟨options, _, h₁, h⟩ := Action.runOn_bind_eq_ok_iff.1 h
  cases h₁
  obtain ⟨_, _, h₂, h⟩ := Action.runOn_bind_eq_ok_iff.1 h
  cases h₂
  obtain ⟨plan, s₀, h₃, hplan⟩ := Action.runOn_bind_eq_ok_iff.1 h
  obtain ⟨_, s₁, hreport, hrest⟩ := Action.runOn_bind_eq_ok_iff.1 hplan
  obtain ⟨_, s₂, hplaced, hlast⟩ := Action.runOn_bind_eq_ok_iff.1 hrest
  obtain ⟨-, hs₀⟩ := Action.runOn_ofChecked_eq_ok_iff.1 h₃
  -- locations are set in any case, but the answer is `true` for a plan without findings only
  cases hfindings : plan.findings with
  | nil =>
    rw [hfindings, hs₀] at hreport
    rw [hfindings] at hlast
    cases hreport
    cases hlast
    exact decorates_setLocations hplaced
  | cons finding findings =>
    rw [hfindings] at hlast
    cases hlast

theorem decorates_decorateLocations (h : decorateLocations.runOn s = (.ok true, s')) :
    s.Decorates s' := by
  obtain ⟨a, s₁, h₁, h⟩ := Action.runOn_bind_eq_ok_iff.1 h
  obtain ⟨b, s₂, h₂, h⟩ := Action.runOn_bind_eq_ok_iff.1 h
  obtain ⟨c, s₃, h₃, h⟩ := Action.runOn_bind_eq_ok_iff.1 h
  obtain ⟨d, s₄, h₄, h⟩ := Action.runOn_bind_eq_ok_iff.1 h
  simp only [Action.runOn_pure, Prod.mk.injEq, Except.ok.injEq, Bool.and_eq_true] at h
  obtain ⟨⟨⟨⟨rfl, rfl⟩, rfl⟩, rfl⟩, rfl⟩ := h
  exact (((decorates_checkSemantics h₁).trans (decorates_checkSemantics h₂)).trans
    (decorates_assignLocations h₃)).trans (decorates_assignLocations h₄)

end Lower

/-! ## The whole interface -/

/-- The second session has the arrays of the distances recorded in the first. -/
structure Session.CreatesArrays (s s' : Session) : Prop where
  frame : s' = { s with emitter := s'.emitter, distances := s'.distances }
  sound : s'.emitter.Sound
  builtin : ∀ b direction, s'.HasBuiltin b direction ↔ s.HasBuiltin b direction ∨
    ∃ kind, s.distances.Fills direction kind ∧ b = kind.builtin
  access : ∀ direction kind index count invocation,
    (∃ access, (s'.distances.get direction kind).access? index invocation = some access ∧
      access.count = count) ↔
    s.distances.Fills direction kind ∧ (s.distances.get direction kind).Declares index count

theorem Lower.createsArrays_createDistances {s s' : Session}
    {inputVertices outputVertices : Option Nat} (hs : s.emitter.Sound) (hdistances : s.distances.WellFormed)
    (hvar : ∀ direction kind, (s.distances.get direction kind).var = none)
    (h : (createDistances inputVertices outputVertices).runOn s = (.ok (), s')) :
    s.CreatesArrays s' := by
  obtain ⟨_, _, h₀, h⟩ := Action.runOn_bind_eq_ok_iff.1 h
  cases h₀
  obtain ⟨calculated, s₀, h₁, hemit⟩ := Action.runOn_bind_eq_ok_iff.1 h
  obtain ⟨hcalculate, rfl⟩ := Action.runOn_ofChecked_eq_ok_iff.1 h₁
  obtain ⟨⟨vars, created⟩, s₁, h₂, hlast⟩ := Action.runOn_bind_eq_ok_iff.1 hemit
  obtain ⟨e₁, hrun, rfl⟩ := runOn_emit_eq_ok_iff.1 h₂
  cases hlast
  obtain ⟨⟨vs, hadds, hprovides⟩, haccess⟩ :=
    Emit.distanceArrays_spec hs hdistances hvar hcalculate hrun
  refine ⟨rfl, hadds.sound, fun b direction => ?_, haccess⟩
  refine hadds.hasBuiltin_iff.trans (or_congr_right ?_)
  rw [hprovides]
  constructor
  · rintro ⟨direction', kind, hfills, hb, hstorage⟩
    cases Direction.storage_inj.1 hstorage
    exact ⟨kind, hfills, hb⟩
  · rintro ⟨kind, hfills, hb⟩
    exact ⟨direction, kind, hfills, hb, rfl⟩

/-- What a session has after it lowered an entry point with nothing wrong. -/
structure Session.Represents (s : Session) (e : EntryPoint) : Prop where
  placed : ∀ l ∈ e.loweredLeaves, (l.site? e.stage).isSome
  located : s.interface.filterMap (·.located?) = e.loweredLeaves.filterMap (·.located? e.stage)
  builtin : ∀ b direction, s.HasBuiltin b direction ↔
    (∃ kind, e.Fills direction kind ∧ b = kind.builtin) ∨
      ∃ l ∈ e.loweredLeaves, l.site? e.stage = some (.builtin b) ∧ l.direction = direction
  access : ∀ direction kind index count invocation,
    (∃ access, (s.distances.get direction kind).access? index invocation = some access ∧
      access.count = count) ↔
    e.Fills direction kind ∧ e.Declares direction kind index count

namespace Lower

/-- Records the distances of a per-patch function, if there is one. -/
def recordPatch (e : EntryPoint) : Lower Bool :=
  match e.patchFunction with
  | none => return true
  | some f => forAll (recordDistances · true) (f.params ++ [f.returnParam])

/-- Creates the variables of a per-patch function, if there is one. -/
def createPatch (e : EntryPoint) : Lower Bool :=
  match e.patchFunction with
  | none => return true
  | some f => createPatchFunction f

theorem entryPoint_eq (e : EntryPoint) : entryPoint e = do
    modify fun s => { s with stage := e.stage, outputPoints := e.outputPoints }
    let recorded ← forAll (recordDistances · false) (e.function.params ++ [e.function.returnParam])
    let patchRecorded ← recordPatch e
    createDistances e.vertexCounts.1 e.vertexCounts.2
    let params ← forAll createParam e.function.params
    let result ← createReturn e.function false
    let patch ← createPatch e
    let located ← decorateLocations
    return recorded && patchRecorded && params && result && patch && located := by
  rw [entryPoint, recordPatch, createPatch]
  cases e.patchFunction <;> rfl

/-- What is done for an entry point before arrays of distances are created. -/
def recordEntry (e : EntryPoint) : Lower (Bool × Bool) := do
  modify fun s => { s with stage := e.stage, outputPoints := e.outputPoints }
  let recorded ← forAll (recordDistances · false) (e.function.params ++ [e.function.returnParam])
  let patchRecorded ← recordPatch e
  return (recorded, patchRecorded)

/-- What is done for an entry point when there are arrays of distances. -/
def createEntry (e : EntryPoint) (recorded : Bool × Bool) : Lower Bool := do
  let params ← forAll createParam e.function.params
  let result ← createReturn e.function false
  let patch ← createPatch e
  let located ← decorateLocations
  return recorded.1 && recorded.2 && params && result && patch && located

theorem entryPoint_eq_phases (e : EntryPoint) : entryPoint e = (do
    let recorded ← recordEntry e
    createDistances e.vertexCounts.1 e.vertexCounts.2
    createEntry e recorded) := by
  simp only [entryPoint_eq, recordEntry, createEntry, bind_assoc, pure_bind]

theorem records_recordPatch {e : EntryPoint} {s s' : Session} (hs : s.distances.WellFormed)
    (h : (recordPatch e).runOn s = (.ok true, s')) :
    s.Records s' (e.patchFunction.elim [] (·.distanceParts s.stage true)) := by
  rw [recordPatch.eq_def] at h
  cases hf : e.patchFunction with
  | none =>
    rw [hf] at h
    cases h
    exact .refl hs
  | some f =>
    rw [hf] at h
    exact records_forAll hs h

theorem lowers_createPatch {e : EntryPoint} {s s' : Session} (hs : s.Ready)
    (h : (createPatch e).runOn s = (.ok true, s')) :
    s.Lowers (e.patchFunction.elim [] (·.patchLeaves s.stage)) s' := by
  rw [createPatch.eq_def] at h
  cases hf : e.patchFunction with
  | none =>
    rw [hf] at h
    cases h
    exact .nil
  | some f =>
    rw [hf] at h
    exact lowers_createPatchFunction hs h

/-- Both functions of an entry point are recorded. -/
theorem records_functions {e : EntryPoint} {s s₁ s₂ : Session} (hs : s.distances.WellFormed)
    (hstage : s.stage = e.stage)
    (hmain : (forAll (recordDistances · false)
      (e.function.params ++ [e.function.returnParam])).runOn s = (.ok true, s₁))
    (hpatch : (recordPatch e).runOn s₁ = (.ok true, s₂)) : s.Records s₂ e.distanceParts := by
  have hfirst := records_forAll hs hmain
  have hlast := records_recordPatch hfirst.distances.wellFormed hpatch
  rw [hfirst.stage, hstage] at hlast
  rw [hstage] at hfirst
  exact hfirst.trans hlast

/-- The leaves of both functions of an entry point are created. -/
theorem lowers_functions {e : EntryPoint} {s s₁ s₂ s₃ : Session} (hs : s.Ready)
    (hstage : s.stage = e.stage)
    (hparams : (forAll createParam e.function.params).runOn s = (.ok true, s₁))
    (hresult : (createReturn e.function false).runOn s₁ = (.ok true, s₂))
    (hpatch : (createPatch e).runOn s₂ = (.ok true, s₃)) : s.Lowers e.loweredLeaves s₃ := by
  have hfirst := lowers_function hs hparams hresult
  have hlast := lowers_createPatch (hfirst.creates hs).ready hpatch
  rw [hfirst.stage hs, hstage] at hlast
  rw [hstage] at hfirst
  exact hfirst.trans hlast

theorem not_hasBuiltin_start (stage : Stage) (options : Options) {b : Builtin}
    {direction : Direction} : ¬(Session.start stage options).HasBuiltin b direction := by
  rintro ⟨v, hv, -⟩
  cases hv

/-- The phases of lowering an entry point with nothing wrong: distances are recorded, their arrays are
created in a session that has no interface variable yet, then the leaves, and locations are given
out. -/
theorem phases_entryPoint {e : EntryPoint} {stage : Stage} {options : Options} {s : Session}
    (h : (entryPoint e).runOn (.start stage options) = (.ok true, s)) :
    ∃ s₁ s₂ s₃, Session.Records
        { Session.start stage options with stage := e.stage, outputPoints := e.outputPoints } s₁
        e.distanceParts ∧
      s₁.CreatesArrays s₂ ∧ s₂.Blank e.stage ∧ s₂.Lowers e.loweredLeaves s₃ ∧
      decorateLocations.runOn s₃ = (.ok true, s) := by
  rw [entryPoint_eq] at h
  obtain ⟨_, s₀, h₀, h⟩ := Action.runOn_bind_eq_ok_iff.1 h
  obtain ⟨recorded, s₁, h₁, h⟩ := Action.runOn_bind_eq_ok_iff.1 h
  obtain ⟨patchRecorded, s₂, h₂, h⟩ := Action.runOn_bind_eq_ok_iff.1 h
  obtain ⟨_, s₃, h₃, h⟩ := Action.runOn_bind_eq_ok_iff.1 h
  obtain ⟨params, s₄, h₄, h⟩ := Action.runOn_bind_eq_ok_iff.1 h
  obtain ⟨result, s₅, h₅, h⟩ := Action.runOn_bind_eq_ok_iff.1 h
  obtain ⟨patch, s₆, h₆, h⟩ := Action.runOn_bind_eq_ok_iff.1 h
  obtain ⟨located, s₇, h₇, h⟩ := Action.runOn_bind_eq_ok_iff.1 h
  -- the answer is `true` only if every phase answered so
  simp only [Action.runOn_pure, Prod.mk.injEq, Except.ok.injEq, Bool.and_eq_true] at h
  obtain ⟨⟨⟨⟨⟨⟨rfl, rfl⟩, rfl⟩, rfl⟩, rfl⟩, rfl⟩, rfl⟩ := h
  cases h₀
  have hrecords := records_functions DistanceArrays.wellFormed_empty rfl h₁ h₂
  have harrays : s₂.CreatesArrays s₃ := by
    refine createsArrays_createDistances ?_ hrecords.distances.wellFormed
      (fun direction kind => ?_) h₃
    · rw [hrecords.frame]
      exact Emitter.sound_start options
    · rw [hrecords.distances.var]
      exact DistanceArrays.var_empty
  -- the phases so far left the rest of the session as it was at the start
  have hblank : s₃.Blank e.stage := {
    sound := harrays.sound
    stage := by rw [harrays.frame, hrecords.frame]
    interface := by rw [harrays.frame, hrecords.frame]; rfl
    builtins := by rw [harrays.frame, hrecords.frame]; rfl }
  exact ⟨s₂, s₃, s₆, hrecords, harrays, hblank, lowers_functions hblank.ready hblank.stage h₄ h₅ h₆,
    h₇⟩

/-- **A lowered entry point is represented.**  The phases of lowering leave each other's results
alone, so what a session has in the end is what each phase made of the declaration. -/
theorem represents_entryPoint {e : EntryPoint} {stage : Stage} {options : Options} {s : Session}
    (h : (entryPoint e).runOn (.start stage options) = (.ok true, s)) : s.Represents e := by
  obtain ⟨s₁, s₂, s₃, hrecords, harrays, hblank, hlowers, hlocations⟩ := phases_entryPoint h
  -- nothing was recorded before, so what is recorded is what the declaration asks for
  have hdeclares : ∀ direction kind index count,
      (s₁.distances.get direction kind).Declares index count ↔
        e.Declares direction kind index count := by
    intro direction kind index count
    rw [hrecords.distances.declares]
    exact or_iff_right (DistanceArrays.not_declares_empty)
  have hfills : ∀ direction kind, s₁.distances.Fills direction kind ↔ e.Fills direction kind := by
    intro direction kind
    simp only [DistanceArrays.Fills, EntryPoint.Fills, hdeclares]
  have hcreates := hlowers.creates hblank.ready
  have hdecorates := decorates_decorateLocations hlocations
  refine ⟨?_, ?_, fun b direction => ?_, fun direction kind index count invocation => ?_⟩
  · rw [← hblank.stage]
    exact hcreates.placed
  · rw [hdecorates.located, hcreates.located, hblank.interface, hblank.stage]
    rfl
  · have hnone : ¬s₁.HasBuiltin b direction := by
      rw [hrecords.frame]
      exact not_hasBuiltin_start stage options
    rw [hdecorates.builtin, hcreates.builtin, harrays.builtin, hblank.stage]
    simp only [hnone, false_or, hfills]
  · rw [hdecorates.distances, hcreates.distances, harrays.access, hfills, hdeclares]

end Lower

end ShaderLowering
