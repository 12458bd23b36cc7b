import Mathlib.Logic.Relation
import ShaderLowering.Proofs.Emission.Evolution
import ShaderLowering.Proofs.Session.Decoration

/-!
# Steps of a session

Every operation changes a session by a sequence of steps, of which there are few kinds: something is
emitted, something is noted, a variable is added together with its entry in the list that it belongs
to, an interface variable gets its location, or a listed variable is decorated.  `Session.Step` says
under which conditions each of them is taken, so what all steps keep is kept by every operation,
answered or failed.  Only entry points pack distances, which is a condition of its own.

`Session.course` is the contract of being such a sequence.  It asks nothing of a session to start
with.
-/

namespace ShaderLowering

open Source (Position)
open Spirv (VariableId VariableDecoration Builtin)

/-! ## Kinds of variables -/

namespace Spirv

/-- Whether variables of the class belong to the interface of a stage. -/
def StorageClass.isInterface : StorageClass → Bool
  | input | output => true
  | _ => false

/-- Whether variables of the class are bound to descriptors. -/
def StorageClass.isDescribed : StorageClass → Bool
  | uniform | uniformConstant => true
  | _ => false

/-- Whether variables of the class cannot be seen from outside the module. -/
def StorageClass.isInternal : StorageClass → Bool
  | function | privateGlobal | workgroup => true
  | _ => false

/-- Whether the decoration is part of a descriptor binding. -/
def VariableDecoration.isDescriptor : VariableDecoration → Bool
  | descriptorSet _ | binding _ => true
  | _ => false

/-- Whether the decoration says where a variable is found from outside the module. -/
def VariableDecoration.isPlace : VariableDecoration → Bool
  | location _ | builtin _ | descriptorSet _ | binding _ => true
  | _ => false

/-- The variable has no place. -/
def Variable.IsUnplaced (v : Variable) : Prop := ∀ d ∈ v.decorations, d.isPlace = false

theorem Variable.isUnplaced_nil {name : Option String} {ty : TypeId} {storage : StorageClass} :
    IsUnplaced ⟨name, ty, storage, []⟩ := List.forall_mem_nil _

theorem Variable.isUnplaced_relaxed {name : Option String} {ty : TypeId} {storage : StorageClass}
    (relaxed : Bool) :
    IsUnplaced ⟨name, ty, storage, if relaxed then [.relaxedPrecision] else []⟩ := by
  cases relaxed with
  | true => exact List.forall_mem_singleton.2 rfl
  | false => exact List.forall_mem_nil _

/-- The place of the variable is a builtin. -/
def Variable.StandsFor (v : Variable) (b : Builtin) : Prop :=
  ∃ ds, v.decorations = .builtin b :: ds ∧ ∀ d ∈ ds, d.isPlace = false

end Spirv

/-! ## Steps -/

namespace Session

/-- The session with one more variable in its module. -/
def adding (s : Session) (v : Spirv.Variable) : Session :=
  { s with emitter := { s.emitter with target := (s.emitter.target.addVariable v).2 } }

/-- One step in an operation.  If `standard` holds, only scalars of standard widths are emitted, and
only if `packing` holds, distances are packed. -/
inductive Step (standard packing : Prop) (s : Session) : Session → Prop
  | emission {e : Emitter} (h : s.emitter.Evolves standard e) :
    Step standard packing s { s with emitter := e }
  /-- Something is noted that is not about variables with a place. -/
  | note {s' : Session} (emitter : s'.emitter = s.emitter) (interface : s'.interface = s.interface)
    (builtins : s'.builtins = s.builtins) (distances : s'.distances = s.distances)
    (resources : s'.resources = s.resources) (pushConstant : s'.pushConstant = s.pushConstant) :
    Step standard packing s s'
  /-- Distances are recorded. -/
  | recorded {a : DistanceArrays} (ha : s.distances.DeclaresMore a) :
    Step standard packing s { s with distances := a }
  /-- A variable that cannot be seen from outside. -/
  | internal {v : Spirv.Variable} (hstorage : v.storage.isInternal = true) (hv : v.IsUnplaced) :
    Step standard packing s (s.adding v)
  /-- A packed array of distances, which is on no list. -/
  | packed {v : Spirv.Variable} {kind : DistanceKind} {direction : Direction} (hpacking : packing)
    (hstorage : v.storage = direction.storage) (hv : v.StandsFor kind.builtin) :
    Step standard packing s (s.adding v)
  /-- The packings get their new ranges and arrays. -/
  | repacked (hpacking : packing) (a : DistanceArrays) :
    Step standard packing s { s with distances := a }
  /-- The variable of a builtin, which is remembered with the signature point of its first use.
  Arrays of distances are not asked for by it. -/
  | builtin {v : Spirv.Variable} {b : Builtin} {point : SignaturePoint}
    (hnew : s.builtins.lookup (b, point.direction) = none)
    (hkind : ∀ kind : DistanceKind, b ≠ kind.builtin)
    (hstorage : v.storage = point.direction.storage) (hv : v.StandsFor b) :
    Step standard packing s { s.adding v with
      builtins := ((b, point.direction), (s.size, point)) :: s.builtins }
  /-- A builtin that is remembered is listed on the interface. -/
  | listed {u : InterfaceVariable} {b : Builtin} {point : SignaturePoint}
    (hbuiltin : u.builtin = some b) (hknown : ((b, u.direction), (u.var, point)) ∈ s.builtins) :
    Step standard packing s { s with interface := s.interface ++ [u] }
  /-- A variable of the interface that is bound to locations. -/
  | located {v : Spirv.Variable} {u : InterfaceVariable} (hvar : u.var = s.size)
    (hbuiltin : u.builtin = none) (hstorage : v.storage = u.direction.storage)
    (hv : v.IsUnplaced) : Step standard packing s { s.adding v with interface := s.interface ++ [u] }
  | resource {v : Spirv.Variable} {r : ResourceVariable} (hvar : r.var = s.size)
    (hstorage : v.storage.isDescribed = true) (hv : v.IsUnplaced) :
    Step standard packing s { s.adding v with resources := s.resources ++ [r] }
  | pushConstant {v : Spirv.Variable} {position : Position} (hnone : s.pushConstant = none)
    (hstorage : v.storage = .pushConstant) (hv : v.IsUnplaced) :
    Step standard packing s { s.adding v with pushConstant := some (s.size, position) }
  /-- An interface variable gets its location, which stays what it is if there is one. -/
  | place {i location : Nat} {u : InterfaceVariable} (hu : s.interface[i]? = some u)
    (hlocation : u.location = none ∨ u.location = some location) :
    Step standard packing s { s with interface := s.interface.modify i (.placedAt location) }
  | locate {u : InterfaceVariable} (hu : u ∈ s.interface) (hbuiltin : u.builtin = none)
    (location : Nat) : Step standard packing s (s.decorated u.var [.location location])
  | bind {r : ResourceVariable} {d : VariableDecoration} (hr : r ∈ s.resources)
    (hd : d.isDescriptor = true) : Step standard packing s (s.decorated r.var [d])

/-- The contract of taking steps only. -/
def course (standard packing : Prop) : Action.Contract Session where
  invariant _ := True
  step := Relation.ReflTransGen (Step standard packing)
  refl _ := .refl
  trans := .trans

end Session

/-! ## Variables that are added last -/

namespace Emit

variable {α β : Type} {standard : Prop} {P : Spirv.Variable → Prop}

/-- The action only emits, wherever it is run, unless it answers: then it has added one variable
after that, with the property in question. -/
def AddsLast (standard : Prop) (x : Emit α) (var : α → VariableId) (P : Spirv.Variable → Prop) :
    Prop :=
  ∀ e, (∀ f e', x.runOn e = (.error f, e') → e.Evolves standard e') ∧
    ∀ a e', x.runOn e = (.ok a, e') → ∃ e₁ v, e.Evolves standard e₁ ∧ P v ∧
      var a = e₁.target.variables.size ∧
      e' = { e₁ with target := (e₁.target.addVariable v).2 }

theorem addsLast_addVariable {v : Spirv.Variable} (hv : P v) :
    AddsLast standard (addVariable v) id P := by
  refine fun e => ⟨fun f e' h => (by cases h), fun a e' h => ?_⟩
  cases h
  exact ⟨e, v, .refl standard e, hv, rfl, rfl⟩

/-- A variable that is added after something was emitted. -/
theorem AddsLast.after {x : Emit α} {f : α → Emit β} {var : β → VariableId}
    (hx : Evolving standard x) (hf : ∀ a, AddsLast standard (f a) var P) :
    AddsLast standard (x >>= f) var P := by
  intro e
  rcases hrun : x.runOn e with ⟨err | a, e₁⟩
  · have hstep := ((hx e).of_run hrun).2
    rw [Action.runOn_bind_of_error hrun]
    exact ⟨fun f e' h => (by cases h; exact hstep), fun b e' h => (by cases h)⟩
  · have hstep := ((hx e).of_run hrun).2
    obtain ⟨hfailed, hadded⟩ := hf a e₁
    rw [Action.runOn_bind_of_ok hrun]
    refine ⟨fun f e' h => hstep.trans (hfailed f e' h), fun b e' h => ?_⟩
    obtain ⟨e₂, v, hstep₂, hrest⟩ := hadded b e' h
    exact ⟨e₂, v, hstep.trans hstep₂, hrest⟩

theorem AddsLast.get_bind {f : Emitter → Emit α} {var : α → VariableId}
    (hf : ∀ e, AddsLast standard (f e) var P) : AddsLast standard (get >>= f) var P := by
  intro e
  rw [Action.runOn_bind_of_ok (Action.runOn_get e)]
  exact hf e e

/-- A variable that is answered with further data. -/
theorem AddsLast.answer {x : Emit α} {var : α → VariableId} (hx : AddsLast standard x var P)
    (g : α → β) {var' : β → VariableId} (hvar : ∀ a, var' (g a) = var a) :
    AddsLast standard (do return g (← x)) var' P := by
  intro e
  obtain ⟨hfailed, hadded⟩ := hx e
  rcases hrun : x.runOn e with ⟨err | a, e₁⟩
  · have hrun' : (do return g (← x) : Emit β).runOn e = (.error err, e₁) :=
      Action.runOn_bind_of_error hrun
    rw [hrun']
    exact ⟨fun f e' h => (by cases h; exact hfailed err e₁ hrun), fun b e' h => (by cases h)⟩
  · have hrun' : (do return g (← x) : Emit β).runOn e = (.ok (g a), e₁) :=
      Action.runOn_bind_of_ok hrun
    rw [hrun']
    refine ⟨fun f e' h => (by cases h), fun b e' h => ?_⟩
    cases h
    rw [hvar]
    exact hadded a e₁ hrun

end Emit

/-! ## Actions that take steps -/

theorem Action.Contract.Keeps.onward {σ α : Type} {C : Action.Contract σ} {x : Action σ α}
    {y : Action σ α} {s s' : σ} (hrun : x.runOn s = y.runOn s') (hstep : C.step s s')
    (hy : C.Keeps y s') : C.Keeps x s :=
  ⟨hrun ▸ hy.invariant, hrun ▸ C.trans hstep hy.step⟩

namespace Lower

open Action.Contract (keeps_pure keeps_throw keeps_get_bind keeps_forM)
open Session (course)

variable {α β : Type} {standard packing : Prop} {s s' : Session}

theorem steps_of_step {x : Lower α} {r : Except Failure α} (h : x.runOn s = (r, s'))
    (hstep : s.Step standard packing s') : (course standard packing).Keeps x s :=
  .of_runOn h trivial (.single hstep)

theorem steps_emit {x : Emit α} (hx : Emit.Evolving standard x) :
    (course standard packing).Keeps (emit x) s :=
  steps_of_step (runOn_emit x s) (.emission (hx s.emitter).step)

theorem steps_options : (course standard packing).Keeps options s :=
  keeps_get_bind (keeps_pure trivial _)

theorem steps_report (f : Finding) (position : Position) :
    (course standard packing).Keeps (report f position) s :=
  steps_emit (Emit.evolving_report f position)

theorem steps_reportAll (findings : List (Finding × Position)) :
    (course standard packing).Keeps (reportAll findings) s :=
  keeps_forM findings (fun f _ _ => steps_report f.1 f.2) trivial

theorem steps_refuse (f : Finding) (position : Position) :
    (course standard packing).Keeps (refuse f position : Lower α) s :=
  (steps_report f position).bind fun _ _ _ _ _ => keeps_throw trivial _

theorem steps_moveTo (position : Position) :
    (course standard packing).Keeps (emit (.moveTo position)) s :=
  steps_emit (Emit.evolving_moveTo position)

/-- Something is noted that is not about variables with a place. -/
theorem steps_note {f : Session → Session} (hemitter : (f s).emitter = s.emitter)
    (hinterface : (f s).interface = s.interface) (hbuiltins : (f s).builtins = s.builtins)
    (hdistances : (f s).distances = s.distances) (hresources : (f s).resources = s.resources)
    (hpushConstant : (f s).pushConstant = s.pushConstant) :
    (course standard packing).Keeps (modify f : Lower Unit) s :=
  steps_of_step (Action.runOn_modify s f)
    (.note hemitter hinterface hbuiltins hdistances hresources hpushConstant)

theorem emit_bind (x : Emit α) (f : α → Emit β) :
    emit (x >>= f) = emit x >>= fun a => emit (f a) := by
  funext s
  show (emit (x >>= f)).runOn s = (emit x >>= fun a => emit (f a)).runOn s
  rcases hrun : x.runOn s.emitter with ⟨err | a, e⟩
  · have hleft : (emit x).runOn s = (.error err, { s with emitter := e }) := by
      rw [runOn_emit, hrun]
    have hright : (emit (x >>= f)).runOn s = (.error err, { s with emitter := e }) := by
      rw [runOn_emit, Action.runOn_bind_of_error hrun]
    rw [hright, Action.runOn_bind_of_error hleft]
  · have hleft : (emit x).runOn s = (.ok a, { s with emitter := e }) := by
      rw [runOn_emit, hrun]
    have hright : (emit (x >>= f)).runOn s = (emit (f a)).runOn { s with emitter := e } := by
      rw [runOn_emit, Action.runOn_bind_of_ok hrun]
      rfl
    rw [hright, Action.runOn_bind_of_ok hleft]

/-- A sequence within the emitter is one of the session. -/
theorem steps_emit_bind {x : Emit α} {f : α → Emit β}
    (hx : (course standard packing).Keeps (emit x) s)
    (hf : ∀ a s', (course standard packing).Keeps (emit (f a)) s') :
    (course standard packing).Keeps (emit (x >>= f)) s := by
  rw [emit_bind]
  exact hx.bind fun a s' _ _ _ => hf a s'

theorem runOn_addVariable (v : Spirv.Variable) (s : Session) :
    (emit (.addVariable v)).runOn s = (.ok s.size, s.adding v) := rfl

/-- A variable that is added last, and what is done with it next. -/
theorem steps_addsLast {x : Emit α} {var : α → VariableId} {P : Spirv.Variable → Prop}
    (hx : Emit.AddsLast standard x var P) {f : α → Lower β}
    (hf : ∀ a e v, P v → var a = Session.size { s with emitter := e } →
      Relation.ReflTransGen (Session.Step standard packing) { s with emitter := e }
        ((f a).runOn (Session.adding { s with emitter := e } v)).2) :
    (course standard packing).Keeps (emit x >>= f) s := by
  obtain ⟨hfailed, hadded⟩ := hx s.emitter
  rcases hrun : x.runOn s.emitter with ⟨err | a, e'⟩
  · have hemit : (emit x).runOn s = (.error err, { s with emitter := e' }) := by
      rw [runOn_emit, hrun]
    exact .of_runOn (Action.runOn_bind_of_error hemit) trivial
      (.single (.emission (hfailed err e' hrun)))
  · have hemit : (emit x).runOn s = (.ok a, { s with emitter := e' }) := by
      rw [runOn_emit, hrun]
    obtain ⟨e₁, v, hstep, hv, hvar, rfl⟩ := hadded a e' hrun
    exact .of_runOn (Action.runOn_bind_of_ok hemit) trivial
      (.head (.emission hstep) (hf a e₁ v hv hvar))

/-- A variable that is on no list. -/
theorem steps_emit_addsLast {x : Emit α} {var : α → VariableId} {P : Spirv.Variable → Prop}
    (hx : Emit.AddsLast standard x var P)
    (hP : ∀ (s : Session) v, P v → s.Step standard packing (s.adding v)) :
    (course standard packing).Keeps (emit x) s := by
  rw [← bind_pure (emit x)]
  exact steps_addsLast hx fun a e v hv _ => .single (hP _ v hv)

/-- A decoration is refused where there is no variable, which changes nothing. -/
theorem steps_decorate {id : VariableId} {d : VariableDecoration}
    (hstep : s.Step standard packing (s.decorated id [d])) :
    (course standard packing).Keeps (emit (.decorate id d)) s := by
  -- nothing is asked of the session, so the number may be that of no variable
  by_cases hid : id < s.size
  · exact steps_of_step (runOn_decorate hid d) hstep
  · have hrun : (Emit.decorate id d).runOn s.emitter =
        (.error (.error (.target (.badHandle id s.size))), s.emitter) := by
      have htarget : s.emitter.target.decorate id d = .error (.badHandle id s.size) := if_neg hid
      rw [Emit.decorate, Action.runOn_bind_of_ok (Action.runOn_get _), htarget]
      rfl
    exact .of_runOn ((runOn_emit _ s).trans (by rw [hrun])) trivial .refl

end Lower

end ShaderLowering
