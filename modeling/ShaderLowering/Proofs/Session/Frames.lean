import ShaderLowering.Proofs.Emission.Pairing
import ShaderLowering.Proofs.Session.Operations

/-!
# What operations leave alone

An operation on resources leaves the interface alone (`Session.KeepsInterface`), one on the
interface the resources (`Session.KeepsResources`), and every operation the counters of all
declarations but its own (`Session.KeepsCounters`).  Declarations of variables that may alias a
buffer, and requests to the emitter, leave all three alone, which is shown here.
-/

namespace ShaderLowering

open Source (Ty Variable Position)
open Spirv (StorageClass VariableId)
open Action.Contract (keeps_pure keeps_throw keeps_mapM)

namespace Session

/-- The second session has the interface of the first one. -/
structure KeepsInterface (s s' : Session) : Prop where
  options : s'.emitter.options = s.emitter.options
  stage : s'.stage = s.stage
  outputPoints : s'.outputPoints = s.outputPoints
  interface : s'.interface = s.interface
  builtins : s'.builtins = s.builtins
  distances : s'.distances = s.distances

/-- The second session has the resources of the first one, in the same slots. -/
structure KeepsResources (s s' : Session) : Prop where
  emitter : s.emitter.KeepsSlots s'.emitter
  resources : s'.resources = s.resources
  blocks : s'.blocks = s.blocks
  pushConstant : s'.pushConstant = s.pushConstant

/-- The second session has the counters of the first one, but for those of a declaration. -/
def KeepsCounters (id? : Option Nat) (s s' : Session) : Prop :=
  ∀ id, id? ≠ some id → s'.counterMap? id = s.counterMap? id

variable {s s' s'' : Session} {id? : Option Nat}

theorem KeepsInterface.refl (s : Session) : s.KeepsInterface s := ⟨rfl, rfl, rfl, rfl, rfl, rfl⟩

theorem KeepsInterface.trans (h : s.KeepsInterface s') (h' : s'.KeepsInterface s'') :
    s.KeepsInterface s'' where
  options := h'.options.trans h.options
  stage := h'.stage.trans h.stage
  outputPoints := h'.outputPoints.trans h.outputPoints
  interface := h'.interface.trans h.interface
  builtins := h'.builtins.trans h.builtins
  distances := h'.distances.trans h.distances

theorem KeepsResources.refl (s : Session) : s.KeepsResources s := ⟨.refl _, rfl, rfl, rfl⟩

theorem KeepsResources.trans (h : s.KeepsResources s') (h' : s'.KeepsResources s'') :
    s.KeepsResources s'' where
  emitter := h.emitter.trans h'.emitter
  resources := h'.resources.trans h.resources
  blocks := h'.blocks.trans h.blocks
  pushConstant := h'.pushConstant.trans h.pushConstant

theorem KeepsCounters.refl (id? : Option Nat) (s : Session) : s.KeepsCounters id? s :=
  fun _ _ => rfl

theorem KeepsCounters.trans (h : s.KeepsCounters id? s') (h' : s'.KeepsCounters id? s'') :
    s.KeepsCounters id? s'' := fun id hid => (h' id hid).trans (h id hid)

/-- New counters of a declaration leave those of the others alone. -/
theorem keepsCounters_cons (s : Session) (id : Nat) (m : Counter.Map) :
    s.KeepsCounters (some id) { s with counters := (id, m) :: s.counters } := by
  intro j hj
  have hne : j ≠ id := fun heq => hj (congrArg some heq.symm)
  show List.lookup j (_ :: _) = _
  rw [List.lookup_cons, beq_false_of_ne hne]
  rfl

/-! ## Local operations -/

/-- What an operation leaves alone that concerns neither the interface nor resources. -/
structure KeepsRest (id? : Option Nat) (s s' : Session) : Prop
    extends s.KeepsInterface s', s.KeepsResources s' where
  counters : s.KeepsCounters id? s'

theorem KeepsRest.refl (id? : Option Nat) (s : Session) : s.KeepsRest id? s :=
  ⟨.refl s, .refl s, .refl id? s⟩

/-- The contract of operations that concern neither the interface nor resources. -/
def localContract (id? : Option Nat) : Action.Contract Session where
  invariant s := s.emitter.Sound
  step := KeepsRest id?
  refl := .refl id?
  trans h h' := ⟨h.toKeepsInterface.trans h'.toKeepsInterface,
    h.toKeepsResources.trans h'.toKeepsResources, h.counters.trans h'.counters⟩

end Session

namespace Lower

open Session (localContract)

variable {α : Type} {s : Session} {id? : Option Nat}

/-- An emission that keeps its pairing is local. -/
theorem local_emit {x : Emit α} {Q : α → α → Prop}
    (hx : Emitter.pairing.Keeps Q x x s.emitter s.emitter) :
    (localContract id?).Keeps (emit x) s where
  invariant := hx.alike.left
  step := { Session.KeepsRest.refl id? s with
    emitter := hx.left
    options := hx.left.options }

theorem local_modify {f : Session → Session} (hs : s.emitter.Sound)
    (hemitter : (f s).emitter = s.emitter) (hstep : s.KeepsRest id? (f s)) :
    (localContract id?).Keeps (modify f : Lower Unit) s :=
  ⟨show (f s).emitter.Sound from hemitter ▸ hs, hstep⟩

theorem local_aliasType (hs : s.emitter.Sound) (ty : Ty) :
    (localContract id?).Keeps (aliasType ty) s := by
  refine (local_emit (Emit.pair_type ⟨hs, hs, rfl⟩ ty .unlaid)).bind fun _ s₁ hs₁ _ _ => ?_
  split
  · exact (local_modify hs₁ rfl { Session.KeepsRest.refl id? s₁ with }).bind
      fun _ _ hs₂ _ _ => keeps_pure hs₂ _
  · exact keeps_pure hs₁ _

theorem local_aliasCounter (hs : s.emitter.Sound) (storage : StorageClass) (site : CounterSite) :
    (localContract id?).Keeps (emit (.aliasCounter storage site)) s := by
  refine local_emit (Q := fun _ _ => True) ?_
  rw [Emit.aliasCounter, ← bind_assoc]
  have htype := Emit.realizes_counterPointer hs
  exact (htype.pairType htype rfl).bind fun _ _ _ _ h₁ _ _ _ =>
    (Emit.pair_addVariable h₁ _ _).bind fun _ _ _ _ h₂ _ _ _ =>
      Action.Pairing.keeps_pure h₂ trivial

theorem local_aliasCounters (hs : s.emitter.Sound) (id : Nat) (storage : StorageClass)
    (sites : List CounterSite) :
    (localContract (some id)).Keeps (aliasCounters id storage sites) s := by
  refine (keeps_mapM sites (fun site _ hs => local_aliasCounter hs storage site) hs).bind
    fun entries s₁ hs₁ _ _ => ?_
  split
  · exact local_modify hs₁ rfl
      { Session.KeepsRest.refl (some id) s₁ with counters := s₁.keepsCounters_cons id _ }
  · exact keeps_pure hs₁ _

theorem local_aliasable (hs : s.emitter.Sound) (id : Nat) (name : String) (ty : Ty)
    (storage : StorageClass) (position : Position) :
    (localContract (some id)).Keeps (aliasable id name ty storage position) s := by
  refine (local_emit (Emit.pair_moveTo ⟨hs, hs, rfl⟩ position)).bind fun _ s₁ hs₁ _ _ => ?_
  refine (local_aliasType hs₁ ty).bind fun r s₂ hs₂ _ _ => ?_
  refine (Action.Contract.keeps_get_bind (keeps_pure hs₂ _)).bind fun _ s₃ hs₃ _ _ => ?_
  refine (local_emit (Emit.pair_addVariable ⟨hs₃, hs₃, rfl⟩ _ _)).bind fun var s₄ hs₄ _ _ => ?_
  refine (local_modify hs₄ rfl { Session.KeepsRest.refl (some id) s₄ with }).bind
    fun _ s₅ hs₅ _ _ => ?_
  split
  · exact (local_aliasCounters hs₅ _ _ _).bind fun _ _ hs₆ _ _ => keeps_pure hs₆ _
  · exact keeps_pure hs₅ _

theorem local_refuse (hs : s.emitter.Sound) (f : Finding) (position : Position) :
    (localContract id?).Keeps (refuse f position : Lower α) s :=
  (local_emit (Emit.pair_report ⟨hs, hs, rfl⟩ f position)).bind
    fun _ _ hs₁ _ _ => keeps_throw hs₁ _

/-- A declaration of a variable that may alias a buffer is local. -/
theorem local_create (hs : s.emitter.Sound) (d : LocalDeclaration) :
    (localContract (some d.id)).Keeps d.create s := by
  cases d with
  | file v =>
    show (localContract _).Keeps (fileVariable v) s
    rw [fileVariable.eq_def]
    split
    · exact local_aliasable hs _ _ _ _ _
    · exact local_aliasable hs _ _ _ _ _
    · exact local_refuse hs _ _
    · exact local_refuse hs _ _
  | function v => exact local_aliasable hs _ _ _ _ _
  | param p => exact local_aliasable hs _ _ _ _ _

theorem local_forget {x : Lower α} (hx : (localContract id?).Keeps x s) :
    (localContract id?).Keeps (forget x) s := by
  rcases hrun : x.runOn s with ⟨r, s'⟩
  obtain ⟨hinvariant, hstep⟩ := hx.of_run hrun
  refine .of_runOn (runOn_forget x s) ?_ ?_ <;> rw [hrun]
  · exact hinvariant
  · exact hstep

end Lower

/-- The operation concerns neither the interface nor resources. -/
def Operation.IsLocal (op : Operation) : Prop := op.interface? = none ∧ op.resource? = none

/-- What an operation leaves alone that concerns neither the interface nor resources. -/
theorem Session.keepsRest_after {s : Session} (hs : s.emitter.Sound) {op : Operation}
    (h : op.IsLocal) : s.KeepsRest op.id? (s.after op) := by
  refine Action.Contract.Keeps.step (C := Session.localContract op.id?) ?_
  cases op with
  | interface op => cases h.1
  | resource op => cases h.2
  | declaration d => exact Lower.local_forget (Lower.local_create hs d)
  | aliasType ty => exact Lower.local_forget (Lower.local_aliasType hs ty)
  | type ty rule expected =>
    have htype := Emit.realizes_typeExpecting hs ty rule expected
    exact Lower.local_forget (Lower.local_emit (htype.pairType htype rfl))
  | counterType =>
    have htype := Emit.realizes_counterType hs
    exact Lower.local_forget (Lower.local_emit (htype.pairType htype rfl))
  | moveTo position => exact Lower.local_emit (Emit.pair_moveTo ⟨hs, hs, rfl⟩ position)

end ShaderLowering
