import ShaderLowering.Proofs.Emission.History
import ShaderLowering.Proofs.Session.InterfaceSteps

/-!
# Growth of a session

Every operation takes steps, so what each step keeps is kept by all of them (`Lower.steps_action`).
The first thing that is kept is all that was there before: types, constants, variables,
requirements, diagnostics and the lists of variables only grow, whether the operation is answered or
fails, and an interface variable changes only in that it gets a location where it had none.
-/

namespace ShaderLowering

open Source (Ty EntryPoint Position)
open Spirv (VariableId VariableDecoration)

/-! ## Operations take steps -/

def InterfaceOperation.types : InterfaceOperation → List Ty
  | input p _ | output p _ | hullOutput p _ _ => [p.ty]
  | locations => []
  | entryPoint e => e.types

def ResourceOperation.types : ResourceOperation → List Ty
  | block b => b.fields.toList.map (·.ty)
  | blockVariable v | pushConstant v | globalVariable v => [v.ty]
  | globalBlock vs => vs.map (·.ty)
  | bindings => []

/-- The types that an operation is asked about, with the one that a hint is taken from. -/
def Operation.types : Operation → List Ty
  | interface op => op.types
  | resource op => op.types
  | declaration d => [d.ty]
  | aliasType ty => [ty]
  | type ty _ expected => ty :: expected.toList
  | counterType | moveTo _ => []

/-- All scalars that an operation is asked about have standard widths. -/
def Operation.IsStandard (op : Operation) : Prop := ∀ ty ∈ op.types, ty.isStandard = true

instance (op : Operation) : Decidable op.IsStandard :=
  inferInstanceAs (Decidable (∀ ty ∈ op.types, ty.isStandard = true))

/-- All scalars that a request is about have standard widths, those of a hint too. -/
def TypeRequest.IsStandard : TypeRequest → Prop
  | type ty _ expected => ∀ t ∈ ty :: expected.toList, t.isStandard = true
  | counter => True

instance : (r : TypeRequest) → Decidable r.IsStandard
  | .type ty _ expected =>
    inferInstanceAs (Decidable (∀ t ∈ ty :: expected.toList, t.isStandard = true))
  | .counter => instDecidableTrue

/-- Every request only emits. -/
theorem TypeRequest.evolving_emit {standard : Prop} {r : TypeRequest}
    (hr : standard → r.IsStandard) : Emit.Evolving standard r.emit := by
  cases r with
  | type ty rule expected =>
    have hexpected : standard → ∀ hint, expected = some hint → hint.isStandard = true := by
      rintro h hint rfl
      exact hr h hint (List.mem_cons_of_mem ty (List.mem_singleton_self hint))
    exact Emit.evolving_typeExpecting (fun h => hr h ty List.mem_cons_self) rule hexpected
  | counter => exact Emit.evolving_counterType

/-- The operation may create arrays of distances. -/
def InterfaceOperation.Packs : InterfaceOperation → Prop
  | entryPoint _ => True
  | input _ _ | output _ _ | hullOutput _ _ _ | locations => False

/-- The operation may create arrays of distances. -/
def Operation.Packs : Operation → Prop
  | interface op => op.Packs
  | resource _ | declaration _ | aliasType _ | type _ _ _ | counterType | moveTo _ => False

namespace Lower

open Session (course)

variable {standard packing : Prop} {s : Session}

theorem steps_forget {α : Type} {x : Lower α} (hx : (course standard packing).Keeps x s) :
    (course standard packing).Keeps (forget x) s :=
  hx.bind fun _ _ _ _ _ => Action.Contract.keeps_pure trivial ()

/-- The only type that an operation is about. -/
theorem isStandard_of_single {ty : Ty} (h : standard → ∀ t ∈ [ty], t.isStandard = true) :
    standard → ty.isStandard = true :=
  fun hstandard => h hstandard ty (List.mem_singleton_self ty)

theorem steps_interface {op : InterfaceOperation} (hpacking : op.Packs → packing)
    (hop : standard → ∀ ty ∈ op.types, ty.isStandard = true) :
    (course standard packing).Keeps op.action s := by
  cases op with
  | input p perPatch => exact steps_createInput (isStandard_of_single hop)
  | output p perPatch => exact steps_createOutput (isStandard_of_single hop)
  | hullOutput p points invocation =>
    exact steps_createHullOutput (isStandard_of_single hop) points invocation
  | locations => exact steps_decorateLocations
  | entryPoint e => exact steps_entryPoint (hpacking trivial) hop

theorem steps_resource {op : ResourceOperation}
    (hop : standard → ∀ ty ∈ op.types, ty.isStandard = true) :
    (course standard packing).Keeps op.action s := by
  cases op with
  | block b =>
    exact steps_forget (steps_block fun h f hf => hop h f.ty (List.mem_map_of_mem hf))
  | blockVariable v => exact steps_forget (steps_blockVariable (isStandard_of_single hop))
  | pushConstant v => exact steps_forget (steps_pushConstant (isStandard_of_single hop))
  | globalBlock vs =>
    exact steps_forget (steps_globalBlock fun h v hv => hop h v.ty (List.mem_map_of_mem hv))
  | globalVariable v => exact steps_forget (steps_globalVariable (isStandard_of_single hop))
  | bindings => exact steps_forget steps_decorateBindings

/-- **Every operation takes steps**, and only such as scalars of standard widths lead to if it is
asked about no others.  Distances are packed by entry points alone. -/
theorem steps_action {op : Operation} (hpacking : op.Packs → packing)
    (hop : standard → op.IsStandard) :
    (course standard packing).Keeps op.action s := by
  cases op with
  | interface op => exact steps_forget (steps_interface hpacking hop)
  | resource op => exact steps_resource hop
  | declaration d => exact steps_forget (steps_create d (isStandard_of_single hop))
  | aliasType ty => exact steps_forget (steps_aliasType (isStandard_of_single hop))
  | type ty rule expected =>
    exact steps_forget (steps_emit (TypeRequest.evolving_emit (r := .type ty rule expected) hop))
  | counterType => exact steps_forget (steps_emit Emit.evolving_counterType)
  | moveTo position => exact steps_moveTo position

end Lower

namespace Session

variable {standard packing : Prop} {s s' s'' : Session}

theorem steps_after (s : Session) {op : Operation} (hpacking : op.Packs → packing)
    (hop : standard → op.IsStandard) :
    Relation.ReflTransGen (Step standard packing) s (s.after op) :=
  (Lower.steps_action hpacking hop).step

/-- What every step keeps is kept by every sequence of steps. -/
theorem of_steps {P : Session → Prop} (hP : ∀ s s', Step standard packing s s' → P s → P s')
    (h : Relation.ReflTransGen (Step standard packing) s s') (hs : P s) : P s' := by
  induction h with
  | refl => exact hs
  | tail _ hstep ih => exact hP _ _ hstep ih

/-- What every step keeps is kept by every sequence of operations. -/
theorem run_of_step {P : Session → Prop} (hP : ∀ s s', Step standard True s s' → P s → P s') :
    (ops : List Operation) → {s : Session} → (∀ op ∈ ops, standard → op.IsStandard) → P s →
    P (s.run ops)
  | [], _, _, hs => hs
  | _ :: rest, s, hops, hs =>
    have hops := List.forall_mem_cons.1 hops
    have hsteps := steps_after s (fun _ => trivial) hops.1
    run_of_step hP rest hops.2 (of_steps hP hsteps hs)

end Session

/-! ## Growth -/

namespace InterfaceVariable

/-- The second variable is the first one, or had no location before and has one now. -/
def Finds (u u' : InterfaceVariable) : Prop :=
  u' = u ∨ u.location = none ∧ ∃ location, u' = u.placedAt location

theorem Finds.trans {u u' u'' : InterfaceVariable} (h : u.Finds u') (h' : u'.Finds u'') :
    u.Finds u'' := by
  rcases h with rfl | ⟨hnone, location, rfl⟩
  · exact h'
  · -- it has a location by now, so it keeps it
    rcases h' with rfl | ⟨⟨⟩, -⟩
    exact .inr ⟨hnone, location, rfl⟩

end InterfaceVariable

/-- The second emitter has all that the first one has. -/
structure Emitter.Continues (e e' : Emitter) : Prop where
  target : e.target.Extends e'.target
  log : e.log.entries <+: e'.log.entries

theorem Emitter.Evolves.continues {standard : Prop} {e e' : Emitter} (h : e.Evolves standard e') :
    e.Continues e' :=
  ⟨h.target.extends, h.log⟩

namespace Session

/-- The second session has all that the first one has. -/
structure Continues (s s' : Session) : Prop where
  emitter : s.emitter.Continues s'.emitter
  interface : ∀ (i : Nat) (u : InterfaceVariable), s.interface[i]? = some u →
    ∃ u', s'.interface[i]? = some u' ∧ u.Finds u'
  resources : s.resources <+: s'.resources

variable {standard packing : Prop} {s s' s'' : Session}

theorem Continues.refl (s : Session) : s.Continues s :=
  ⟨⟨.refl _, List.prefix_refl _⟩, fun _ u hu => ⟨u, hu, .inl rfl⟩, List.prefix_refl _⟩

theorem Continues.trans (h : s.Continues s') (h' : s'.Continues s'') : s.Continues s'' where
  emitter := ⟨h.emitter.target.trans h'.emitter.target, h.emitter.log.trans h'.emitter.log⟩
  interface i u hu := by
    obtain ⟨u', hu', hfinds⟩ := h.interface i u hu
    obtain ⟨u'', hu'', hfinds'⟩ := h'.interface i u' hu'
    exact ⟨u'', hu'', hfinds.trans hfinds'⟩
  resources := h.resources.trans h'.resources

theorem continues_adding (s : Session) (v : Spirv.Variable) : s.Continues (s.adding v) :=
  { Continues.refl s with
    emitter := ⟨s.emitter.target.extends_addVariable v, List.prefix_refl _⟩ }

theorem continues_decorated (s : Session) (id : VariableId) (ds : List VariableDecoration) :
    s.Continues (s.decorated id ds) := by
  refine { Continues.refl s with
    emitter := ⟨{ Spirv.Module.Extends.refl _ with kept := fun j v hv => ?_ },
      List.prefix_refl _⟩ }
  exact ⟨_, (s.var?_decorated id j ds).trans (congrArg (Option.map _) hv), _, rfl⟩

/-- One more interface variable. -/
theorem Continues.listing (h : s.Continues s') (hinterface : s'.interface = s.interface)
    (u : InterfaceVariable) : s.Continues { s' with interface := s.interface ++ [u] } := by
  refine ⟨h.emitter, fun i v hv => ?_, h.resources⟩
  obtain ⟨v', hv', hfinds⟩ := h.interface i v hv
  rw [hinterface] at hv'
  have hi : i < s.interface.length := (List.getElem?_eq_some_iff.1 hv').1
  exact ⟨v', (List.getElem?_append_left hi).trans hv', hfinds⟩

/-- **No step takes anything away.** -/
theorem Step.continues (h : s.Step standard packing s') : s.Continues s' := by
  cases h with
  | emission h => exact { Continues.refl s with emitter := h.continues }
  | note emitter interface builtins distances resources pushConstant =>
    exact ⟨emitter ▸ (Continues.refl s).emitter, fun i u hu => ⟨u, interface ▸ hu, .inl rfl⟩,
      resources ▸ List.prefix_refl _⟩
  | recorded ha => exact { Continues.refl s with }
  | internal hstorage hv => exact s.continues_adding _
  | packed hpacking hstorage hv => exact s.continues_adding _
  | repacked hpacking a => exact { Continues.refl s with }
  | builtin hnew hkind hstorage hv => exact { s.continues_adding _ with }
  | listed hbuiltin hknown => exact (Continues.refl s).listing rfl _
  | located hvar hbuiltin hstorage hv => exact (s.continues_adding _).listing rfl _
  | resource hvar hstorage hv =>
    exact { s.continues_adding _ with resources := List.prefix_append _ _ }
  | pushConstant hnone hstorage hv => exact { s.continues_adding _ with }
  | @place i location u hu hlocation =>
    -- only this variable gets a location, and none that it did not have
    refine { Continues.refl s with interface := fun j v hv => ?_ }
    rw [List.getElem?_modify, hv]
    refine ⟨_, rfl, ?_⟩
    dsimp only
    split
    · rename_i hij
      subst hij
      cases hu.symm.trans hv
      rcases hlocation with hnone | hsome
      · exact .inr ⟨hnone, location, rfl⟩
      · refine .inl ?_
        rw [InterfaceVariable.placedAt, ← hsome]
    · exact .inl rfl
  | locate hu hbuiltin location => exact s.continues_decorated _ _
  | bind hr hd => exact s.continues_decorated _ _

theorem continues_of_steps (h : Relation.ReflTransGen (Step standard packing) s s') :
    s.Continues s' := by
  induction h with
  | refl => exact .refl s
  | tail _ hstep ih => exact ih.trans hstep.continues

end Session

/-- **Nothing is taken away**, whether a request to an emitter or an operation of a session is
answered or fails.  The tables of types and constants are continued, every variable keeps its name,
type and storage class and has at most gained decorations at the end, capabilities and extensions
are still declared, and the diagnostics are continued.  So are the lists of a session, except that
an interface variable that had no location may have one now. -/
theorem continues_requests_and_operations :
    (∀ (e : Emitter) (r : TypeRequest), e.Continues (r.emit.runOn e).2) ∧
      (∀ (e : Emitter) (position : Position),
        e.Continues ((Emit.moveTo position).runOn e).2) ∧
      ∀ (s : Session) (op : Operation), s.Continues (s.after op) := by
  have hmove : ∀ position, Emit.Evolving False (Emit.moveTo position) := Emit.evolving_moveTo
  exact ⟨fun e _ => (TypeRequest.evolving_emit False.elim e).step.continues,
    fun e position => (hmove position e).step.continues,
    fun s _ => Session.continues_of_steps (s.steps_after (fun _ => trivial) False.elim)⟩

end ShaderLowering
