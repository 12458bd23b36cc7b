import ShaderLowering.Proofs.Descriptor.Plan
import ShaderLowering.Proofs.Distance.Lengths
import ShaderLowering.Proofs.Interface.Leaves
import ShaderLowering.Session.Aliases
import ShaderLowering.Session.EntryPoint

/-!
# The contract of a session

A session holds numbers of variables in many places: of interface variables, builtins, distance
arrays, resources, blocks, counters and declarations.  `Session.Sound` says that all of them exist,
and that every interface variable at a location and every resource variable has a number of its own:
they are numbered in order of creation.  It also says what the variables at locations and the arrays
of distances are: those of leaves, and as long as was calculated.  `Session.Grows` says what an
operation may change: nothing is taken away, and an interface variable changes by no more than its
location.

Both together are the contract of a session.  The steps from which operations are composed are shown
here to keep it.
-/

namespace ShaderLowering

open Source (Position)
open Spirv (VariableId)

/-! ## The invariant -/

namespace InterfaceVariable

/-- The module variable of an interface variable at a location. -/
def locatedVar? (v : InterfaceVariable) : Option VariableId :=
  if v.isLocated then some v.var else none

theorem locatedVar?_eq_some_iff {v : InterfaceVariable} {id : VariableId} :
    v.locatedVar? = some id ↔ v.isLocated = true ∧ v.var = id := by
  rw [locatedVar?]
  split <;> simp_all

@[simp] theorem locatedVar?_placedAt (v : InterfaceVariable) (location : Nat) :
    (v.placedAt location).locatedVar? = v.locatedVar? := rfl

/-- The second variable is the first one, perhaps at a location of its own. -/
def Settles (v v' : InterfaceVariable) : Prop := v' = v ∨ ∃ location, v' = v.placedAt location

theorem Settles.trans {v v' v'' : InterfaceVariable} (h : v.Settles v') (h' : v'.Settles v'') :
    v.Settles v'' := by
  rcases h' with rfl | ⟨location, rfl⟩
  · exact h
  · rcases h with rfl | ⟨-, rfl⟩ <;> exact .inr ⟨location, rfl⟩

end InterfaceVariable

/-- All arrays have numbers below a bound. -/
def DistanceArrays.Below (a : DistanceArrays) (n : Nat) : Prop :=
  ∀ direction kind id, (a.get direction kind).var = some id → id < n

theorem Emitter.PacksBut.below {e : Emitter} {a : DistanceArrays} (h : e.Packs a) :
    a.Below e.target.variables.size :=
  fun direction kind id hid => ((h direction kind).array List.not_mem_nil id hid).lt_size

namespace Session

/-- The number of variables of the module. -/
def size (s : Session) : Nat := s.emitter.target.variables.size

/-- Whether the module has a type with a number. -/
def HasType (s : Session) (id : Spirv.TypeId) : Prop := id < s.emitter.target.types.size

/-- All variables that a session holds have numbers below a bound. -/
structure Below (s : Session) (n : Nat) : Prop where
  interface : ∀ v ∈ s.interface, v.var < n
  builtins : ∀ entry ∈ s.builtins, entry.2.1 < n
  distances : s.distances.Below n
  resources : ∀ r ∈ s.resources, r.var < n
  blocks : ∀ entry ∈ s.blocks, entry.2 < n
  pushConstant : ∀ entry, s.pushConstant = some entry → entry.1 < n
  declared : ∀ entry ∈ s.declared, entry.2 < n
  counters : ∀ entry ∈ s.counters, ∀ c ∈ entry.2.entries, c.counter < n

/-- What holds of a session after any operations. -/
structure Sound (s : Session) : Prop where
  emitter : s.emitter.Sound
  /-- Every variable that the session holds exists. -/
  held : s.Below s.size
  /-- Interface variables at locations are numbered in order of creation. -/
  located : (s.interface.filterMap (·.locatedVar?)).Pairwise (· < ·)
  /-- A render target is at an explicit location. -/
  targets : ∀ v ∈ s.interface, v.isLocated = true →
    v.semantic.map (·.kind) = some .target → v.location.isSome = true
  /-- A variable at a location stands for a leaf. -/
  leaves : ∀ v ∈ s.interface, v.isLocated = true →
    ∃ leaf vertices tree, s.emitter.HoldsLeaf v leaf vertices tree
  /-- Arrays of distances have the calculated lengths. -/
  distances : s.emitter.Packs s.distances
  /-- Resource variables are numbered in order of creation. -/
  resources : (s.resources.map (·.var)).Pairwise (· < ·)
  counters : ∀ r ∈ s.resources, r.WellOwned s.resources

/-- The second session has all that the first one has. -/
structure Grows (s s' : Session) : Prop where
  emitter : s.emitter.Extends s'.emitter
  interface : ∀ (i : Nat) (v : InterfaceVariable), s.interface[i]? = some v →
    ∃ v', s'.interface[i]? = some v' ∧ v.Settles v'
  resources : s.resources <+: s'.resources

variable {s s' s'' : Session}

theorem Below.mono {m n : Nat} (h : s.Below m) (hle : m ≤ n) : s.Below n where
  interface v hv := Nat.lt_of_lt_of_le (h.interface v hv) hle
  builtins entry hentry := Nat.lt_of_lt_of_le (h.builtins entry hentry) hle
  distances direction kind id hid := Nat.lt_of_lt_of_le (h.distances direction kind id hid) hle
  resources r hr := Nat.lt_of_lt_of_le (h.resources r hr) hle
  blocks entry hentry := Nat.lt_of_lt_of_le (h.blocks entry hentry) hle
  pushConstant entry hentry := Nat.lt_of_lt_of_le (h.pushConstant entry hentry) hle
  declared entry hentry := Nat.lt_of_lt_of_le (h.declared entry hentry) hle
  counters entry hentry c hc := Nat.lt_of_lt_of_le (h.counters entry hentry c hc) hle

theorem Grows.refl (s : Session) : s.Grows s :=
  ⟨.refl _, fun _ v hv => ⟨v, hv, .inl rfl⟩, List.prefix_refl _⟩

theorem Grows.trans (h : s.Grows s') (h' : s'.Grows s'') : s.Grows s'' where
  emitter := h.emitter.trans h'.emitter
  interface i v hv := by
    obtain ⟨v', hv', hsettles⟩ := h.interface i v hv
    obtain ⟨v'', hv'', hsettles'⟩ := h'.interface i v' hv'
    exact ⟨v'', hv'', hsettles.trans hsettles'⟩
  resources := h.resources.trans h'.resources

theorem Grows.size_le (h : s.Grows s') : s.size ≤ s'.size := h.emitter.target.size_le

theorem Grows.hasType (h : s.Grows s') {id : Spirv.TypeId} (hid : s.HasType id) : s'.HasType id :=
  h.emitter.target.lt_types hid

/-- The contract of a session. -/
def contract : Action.Contract Session where
  invariant := Sound
  step := Grows
  refl := .refl
  trans := .trans

theorem sound_start (stage : Stage) (options : Options) : (Session.start stage options).Sound where
  emitter := Emitter.sound_start options
  held := by
    refine ⟨?_, ?_, ?_, ?_, ?_, ?_, ?_, ?_⟩
    case refine_3 =>
      intro direction kind id hid
      cases direction <;> cases kind <;> cases hid
    all_goals simp [start]
  located := .nil
  targets := by simp [start]
  leaves := by simp [start]
  distances := Emitter.packs_empty _
  resources := .nil
  counters := by simp [start]

/-! ## Changes of the emitter -/

/-- The session with another emitter, which has all that the old one has. -/
theorem Sound.withEmitter (hs : s.Sound) {e : Emitter} (he : e.Sound) (h : s.emitter.Extends e) :
    Sound { s with emitter := e } where
  emitter := he
  held := { hs.held.mono h.target.size_le with }
  located := hs.located
  targets := hs.targets
  leaves v hv hlocated :=
    have ⟨leaf, vertices, tree, hleaf⟩ := hs.leaves v hv hlocated
    ⟨leaf, vertices, tree, hleaf.extends h⟩
  distances := hs.distances.extends h
  resources := hs.resources
  counters := hs.counters

theorem grows_withEmitter {e : Emitter} (h : s.emitter.Extends e) :
    s.Grows { s with emitter := e } :=
  { Grows.refl s with emitter := h }

/-- A variable that exists and has a greater number than all that the session holds. -/
structure Fresh (s : Session) (id : VariableId) : Prop where
  lt_size : id < s.size
  above : s.Below id

end Session

namespace Lower

open Session (contract)

variable {α : Type} {s s' : Session}

theorem runOn_emit (x : Emit α) (s : Session) :
    (emit x).runOn s = ((x.runOn s.emitter).1, { s with emitter := (x.runOn s.emitter).2 }) := rfl

theorem keeps_emit (hs : s.Sound) {x : Emit α} (hx : Emitter.contract.Keeps x s.emitter) :
    contract.Keeps (emit x) s :=
  .of_runOn (runOn_emit x s) (hs.withEmitter hx.invariant hx.step)
    (Session.grows_withEmitter hx.step)

theorem keeps_options (hs : s.Sound) : contract.Keeps options s :=
  Action.Contract.keeps_get_bind (Action.Contract.keeps_pure hs _)

theorem keeps_report (hs : s.Sound) (f : Finding) (position : Position) :
    contract.Keeps (report f position) s :=
  keeps_emit hs (Emit.realizes_report hs.emitter f position).keeps

theorem keeps_reportAll (hs : s.Sound) (findings : List (Finding × Position)) :
    contract.Keeps (reportAll findings) s :=
  Action.Contract.keeps_forM findings (fun f _ hs => keeps_report hs f.1 f.2) hs

theorem keeps_refuse (hs : s.Sound) (f : Finding) (position : Position) :
    contract.Keeps (refuse f position : Lower α) s :=
  (keeps_report hs f position).bind fun _ _ hs' _ _ => Action.Contract.keeps_throw hs' _

theorem keeps_moveTo (hs : s.Sound) (position : Position) :
    contract.Keeps (emit (.moveTo position)) s :=
  keeps_emit hs (Emit.keeps_moveTo hs.emitter position)

theorem keeps_addVariable (hs : s.Sound) {v : Spirv.Variable} (hv : s.HasType v.ty) :
    contract.Keeps (emit (.addVariable v)) s :=
  keeps_emit hs (Emit.keeps_addVariable hs.emitter hv)

/-- A type that the emitter answered with just now is in the module. -/
theorem hasType_of_emit {x : Emit Spirv.TypeId} {d : Written Spirv.TypeTree} {id : Spirv.TypeId}
    (hx : Emit.Realizes x s.emitter d Emit.IsTree) (h : (emit x).runOn s = (.ok id, s')) :
    s'.HasType id := by
  obtain ⟨e', hrun, rfl⟩ := runOn_emit_eq_ok_iff.1 h
  exact hx.lt_types hrun

/-- A variable that the emitter made just now is fresh. -/
theorem fresh_of_emit (hs : s.Sound) {x : Emit α} {var : α → VariableId} {a : α}
    (hx : Emit.MakesVariable x var s.emitter) (h : (emit x).runOn s = (.ok a, s')) :
    s'.Fresh (var a) := by
  rw [runOn_emit] at h
  rcases hrun : x.runOn s.emitter with ⟨_ | a', e'⟩ <;> rw [hrun] at h <;> cases h
  obtain ⟨hle, hlt⟩ := hx.fresh a e' hrun
  exact ⟨hlt, { hs.held.mono hle with }⟩

theorem fresh_of_addVariable (hs : s.Sound) {v : Spirv.Variable} (hv : s.HasType v.ty)
    {id : VariableId} (h : (emit (.addVariable v)).runOn s = (.ok id, s')) : s'.Fresh id :=
  fresh_of_emit hs (Emit.makesVariable_addVariable hs.emitter hv) h

/-! ## Changes of the rest -/

theorem keeps_modify (f : Session → Session) (hs : (f s).Sound) (hg : s.Grows (f s)) :
    contract.Keeps (modify f : Lower Unit) s := ⟨hs, hg⟩

theorem keeps_addInterface (hs : s.Sound) {v : InterfaceVariable} (hv : v.var < s.size)
    (hfresh : v.isLocated = true → s.Below v.var)
    (htarget : v.isLocated = true → v.semantic.map (·.kind) = some .target →
      v.location.isSome = true)
    (hleaf : v.isLocated = true →
      ∃ leaf vertices tree, s.emitter.HoldsLeaf v leaf vertices tree) :
    contract.Keeps (addInterface v) s := by
  refine keeps_modify _ ⟨hs.emitter, { hs.held with interface := ?_ }, ?_, ?_,
    List.forall_mem_append.2 ⟨hs.leaves, List.forall_mem_singleton.2 hleaf⟩, hs.distances,
    hs.resources, hs.counters⟩ { Session.Grows.refl s with interface := ?_ }
  · intro u hu
    rcases List.mem_append.1 hu with hu | hu
    · exact hs.held.interface u hu
    · exact List.mem_singleton.1 hu ▸ hv
  · -- a located variable comes after all others
    rw [List.filterMap_append, List.pairwise_append]
    refine ⟨hs.located, List.pairwise_filterMap.2 (List.pairwise_singleton _ _),
      fun a ha b hb => ?_⟩
    obtain ⟨u, hu, ha⟩ := List.mem_filterMap.1 ha
    obtain ⟨w, hw, hb⟩ := List.mem_filterMap.1 hb
    cases List.mem_singleton.1 hw
    obtain ⟨-, rfl⟩ := InterfaceVariable.locatedVar?_eq_some_iff.1 ha
    obtain ⟨hlocated, rfl⟩ := InterfaceVariable.locatedVar?_eq_some_iff.1 hb
    exact (hfresh hlocated).interface u hu
  · intro u hu
    rcases List.mem_append.1 hu with hu | hu
    · exact hs.targets u hu
    · exact List.mem_singleton.1 hu ▸ htarget
  · intro i u hu
    refine ⟨u, ?_, .inl rfl⟩
    rw [List.getElem?_append_left (List.getElem?_eq_some_iff.1 hu).1]
    exact hu

theorem keeps_addResource (hs : s.Sound) {r : ResourceVariable} (hfresh : s.Fresh r.var)
    (howned : r.WellOwned s.resources) : contract.Keeps (addResource r) s := by
  refine keeps_modify _ ⟨hs.emitter, { hs.held with resources := ?_ }, hs.located, hs.targets,
    hs.leaves, hs.distances, ?_, ?_⟩ { Session.Grows.refl s with resources := List.prefix_append _ _ }
  · intro u hu
    rcases List.mem_append.1 hu with hu | hu
    · exact hs.held.resources u hu
    · exact List.mem_singleton.1 hu ▸ hfresh.lt_size
  · rw [List.map_append, List.pairwise_append]
    refine ⟨hs.resources, by simp, fun a ha b hb => ?_⟩
    obtain ⟨u, hu, rfl⟩ := List.mem_map.1 ha
    obtain rfl : b = r.var := by simpa using hb
    exact hfresh.above.resources u hu
  · intro u hu
    rcases List.mem_append.1 hu with hu | hu
    · exact (hs.counters u hu).append _
    · cases List.mem_singleton.1 hu
      exact howned.append _

/-- A change that leaves emitter, interface and resources as they are keeps the contract if all
variables that are held then exist and arrays of distances have the calculated lengths. -/
theorem keeps_modify_rest (hs : s.Sound) {f : Session → Session}
    (hemitter : (f s).emitter = s.emitter) (hinterface : (f s).interface = s.interface)
    (hresources : (f s).resources = s.resources) (hheld : (f s).Below s.size)
    (hdistances : s.emitter.Packs (f s).distances) :
    contract.Keeps (modify f : Lower Unit) s := by
  refine keeps_modify f ⟨?_, ?_, ?_, ?_, ?_, ?_, ?_, ?_⟩ ⟨?_, ?_, ?_⟩
  · rw [hemitter]; exact hs.emitter
  · rw [Session.size, hemitter]; exact hheld
  · rw [hinterface]; exact hs.located
  · rw [hinterface]; exact hs.targets
  · rw [hinterface, hemitter]; exact hs.leaves
  · rw [hemitter]; exact hdistances
  · rw [hresources]; exact hs.resources
  · rw [hresources]; exact hs.counters
  · rw [hemitter]; exact .refl _
  · rw [hinterface]; exact (Session.Grows.refl s).interface
  · exact hresources.symm ▸ List.prefix_refl s.resources

end Lower

end ShaderLowering
