import ShaderLowering.Proofs.Session.Growth

/-!
# Declarations are atomic

A declaration is lowered to a variable and entries in several lists.  All that can fail is done
first: findings are reported and types are emitted, which changes the emitter only and not its
variables.  What is done after that always answers (`Action.Total`).  So a declaration that is not
answered leaves the session as it was, apart from what was emitted and reported.
-/

namespace ShaderLowering

open Source (Ty Resource Block Variable Param Position)
open Spirv (VariableId TypeId StorageClass)

open ShaderLowering.Action (Total total_pure total_get total_modify total_modifyGet total_mapM)

namespace Emit

theorem total_counterType : Total counterType :=
  (total_modifyGet _).bind fun _ => total_modifyGet _

theorem total_arrayedLike (base : TypeId) : (ty : Ty) → Total (arrayedLike base ty)
  | .alias _ target => total_arrayedLike base target
  | .oriented _ target => total_arrayedLike base target
  | .array elem (some n) => by
    rw [arrayedLike]
    exact (total_arrayedLike base elem).bind fun _ =>
      (total_modifyGet _).bind fun _ => total_modifyGet _
  | .array elem none => by
    rw [arrayedLike]
    exact (total_arrayedLike base elem).bind fun _ => total_modifyGet _
  | .void | .scalar _ | .vector _ _ | .matrix _ _ _ | .struct _ _ _ | .resource _ _ =>
    total_pure _

theorem total_aliasCounter (storage : StorageClass) (site : CounterSite) :
    Total (aliasCounter storage site) :=
  total_counterType.bind fun _ => (total_modifyGet _).bind fun _ =>
    (total_modifyGet _).bind fun _ => total_pure _

end Emit

namespace Lower

variable {α β : Type}

theorem total_emit {x : Emit α} (hx : Total x) : Total (emit x) := by
  intro s
  obtain ⟨a, e, hrun⟩ := hx s.emitter
  exact ⟨a, { s with emitter := e }, by rw [runOn_emit, hrun]⟩

theorem total_addVariable (v : Spirv.Variable) : Total (emit (.addVariable v)) :=
  total_emit (total_modifyGet _)

theorem total_declareBlock (id : Nat) (var : VariableId) : Total (declareBlock id var) :=
  (total_modify _).bind fun _ => total_modify _

theorem total_hiddenCounter (v : Variable) (owner : Nat) : Total (hiddenCounter v owner) :=
  (total_emit Emit.total_counterType).bind fun _ =>
    (total_emit (Emit.total_arrayedLike _ _)).bind fun _ => (total_addVariable _).bind fun _ =>
      (total_modify _).bind fun _ => total_modify _

theorem total_aliasCounters (id : Nat) (storage : StorageClass) (sites : List CounterSite) :
    Total (aliasCounters id storage sites) := by
  refine (total_mapM (fun site => total_emit (Emit.total_aliasCounter storage site)) sites).bind
    fun entries => ?_
  split
  · exact total_modify _
  · exact total_pure ()

end Lower

/-! ## Sessions that are spared -/

namespace Session

/-- The second session is the first one, but for what was emitted and reported. -/
structure Spares (s s' : Session) : Prop where
  frame : s' = { s with emitter := s'.emitter }
  sameVariables : s'.emitter.target.variables = s.emitter.target.variables
  emitter : s.emitter.Continues s'.emitter

variable {s s' s'' : Session}

theorem Spares.refl (s : Session) : s.Spares s := ⟨rfl, rfl, (Continues.refl s).emitter⟩

theorem Spares.trans (h : s.Spares s') (h' : s'.Spares s'') : s.Spares s'' where
  frame := by rw [h'.frame, h.frame]
  sameVariables := h'.sameVariables.trans h.sameVariables
  emitter := ⟨h.emitter.target.trans h'.emitter.target, h.emitter.log.trans h'.emitter.log⟩

end Session

namespace Lower

variable {α β : Type} {s s' : Session}

/-- Run on the session, the action spares it. -/
def Cautious (x : Lower α) (s : Session) : Prop := s.Spares (x.runOn s).2

/-- Run on the session, the action spares it if it fails. -/
def Atomic (x : Lower α) (s : Session) : Prop :=
  ∀ f s', x.runOn s = (.error f, s') → s.Spares s'

theorem Cautious.atomic {x : Lower α} (hx : x.Cautious s) : x.Atomic s := fun f s' h => by
  rw [Cautious, h] at hx
  exact hx

theorem atomic_of_total {x : Lower α} (hx : Total x) : x.Atomic s := fun f s' h => by
  obtain ⟨a, s₁, hrun⟩ := hx s
  cases hrun.symm.trans h

/-- What is done before the part that may fail has to be cautious. -/
theorem Cautious.bind {x : Lower α} {f : α → Lower β} (hx : x.Cautious s)
    (hf : ∀ a s', x.runOn s = (.ok a, s') → (f a).Atomic s') : Atomic (x >>= f) s := by
  intro err s' h
  rcases hrun : x.runOn s with ⟨e | a, s₁⟩
  · rw [Action.runOn_bind_of_error hrun] at h
    cases h
    exact hx.atomic err s' hrun
  · rw [Action.runOn_bind_of_ok hrun] at h
    rw [Cautious, hrun] at hx
    exact hx.trans (hf a s₁ hrun err s' h)

/-- What is done after the part that may fail has to answer always. -/
theorem Atomic.bind {x : Lower α} {f : α → Lower β} (hx : x.Atomic s) (hf : ∀ a, Total (f a)) :
    Atomic (x >>= f) s := by
  intro err s' h
  rcases hrun : x.runOn s with ⟨e | a, s₁⟩
  · rw [Action.runOn_bind_of_error hrun] at h
    cases h
    exact hx err s' hrun
  · rw [Action.runOn_bind_of_ok hrun] at h
    obtain ⟨b, s₂, hrun'⟩ := hf a s₁
    cases hrun'.symm.trans h

theorem atomic_get_bind {f : Session → Lower α} (h : (f s).Atomic s) : Atomic (get >>= f) s := by
  intro err s' hrun
  rw [Action.runOn_bind_of_ok (Action.runOn_get s)] at hrun
  exact h err s' hrun

theorem cautious_throw (f : Failure) : Cautious (throw f : Lower α) s := .refl s

theorem cautious_emit {x : Emit α} (hx : Emit.Evolving False x) : Cautious (emit x) s := by
  have hstep := (hx s.emitter).step
  rw [Cautious, runOn_emit]
  exact ⟨rfl, hstep.target.sameVariables, hstep.continues⟩

theorem cautious_options : Cautious options s := .refl s

theorem cautious_moveTo (position : Position) : Cautious (emit (.moveTo position)) s :=
  cautious_emit (Emit.evolving_moveTo position)

theorem cautious_report (f : Finding) (position : Position) : Cautious (report f position) s :=
  cautious_emit (Emit.evolving_report f position)

theorem cautious_reportAll (findings : List (Finding × Position)) :
    Cautious (reportAll findings) s := by
  rw [Cautious, runOn_reportAll]
  exact ⟨rfl, rfl, .refl _, List.prefix_append _ _⟩

theorem cautious_refuse (f : Finding) (position : Position) :
    Cautious (refuse f position : Lower α) s :=
  cautious_report f position

/-! ## Declarations -/

theorem atomic_block (b : Block) : Atomic (block b) s := by
  refine atomic_get_bind ?_
  split
  · exact atomic_of_total (total_pure _)
  · refine (cautious_reportAll _).bind fun _ s₁ _ => ?_
    split
    -- the members that are resources have been reported
    · exact (cautious_throw _).bind fun _ _ h => by cases h
    · refine cautious_options.bind fun _ s₂ _ => (cautious_moveTo _).bind fun _ s₃ _ => ?_
      -- nothing fails once there is a type
      refine (cautious_emit (Emit.evolving_blockType _ _ _ False.elim)).atomic.bind fun ty => ?_
      exact (total_addVariable _).bind fun _ => (total_modify _).bind fun _ =>
        (total_declareBlock _ _).bind fun _ => total_pure _

theorem atomic_blockVariable (v : Variable) : Atomic (blockVariable v) s := by
  refine atomic_get_bind ?_
  split
  · exact atomic_of_total (total_pure _)
  · split
    · exact (cautious_refuse _ _).bind fun _ _ h => by cases h
    · refine (cautious_moveTo _).bind fun _ s₁ _ => ?_
      refine (cautious_emit (Emit.evolving_type False.elim _)).atomic.bind fun ty => ?_
      exact (total_addVariable _).bind fun _ => (total_modify _).bind fun _ =>
        (total_declareBlock _ _).bind fun _ => total_pure _

theorem atomic_pushConstant (v : Variable) : Atomic (pushConstant v) s := by
  refine atomic_get_bind ?_
  split
  · exact (cautious_report _ _).bind fun _ _ _ => (cautious_refuse _ _).atomic
  · exact (cautious_refuse _ _).atomic
  · refine (cautious_moveTo _).bind fun _ s₁ _ => cautious_options.bind fun _ s₂ _ => ?_
    refine (cautious_emit (Emit.evolving_blockType _ _ _ False.elim)).atomic.bind fun ty => ?_
    exact (total_addVariable _).bind fun _ => (total_modify _).bind fun _ =>
      (total_modify _).bind fun _ => total_pure _

theorem atomic_globalBlock (vs : List Variable) : Atomic (globalBlock vs) s := by
  rw [globalBlock]
  split
  · exact atomic_of_total (total_pure _)
  · refine cautious_options.bind fun _ s₁ _ => ?_
    refine (cautious_emit (Emit.evolving_blockType _ _ _ False.elim)).atomic.bind fun ty => ?_
    exact (total_addVariable _).bind fun _ => (total_modify _).bind fun _ => total_pure _

theorem atomic_resourceVariable (v : Variable) (kind : Resource) (elem : Option Ty) :
    Atomic (resourceVariable v kind elem) s := by
  refine (cautious_moveTo _).bind fun _ s₁ _ => cautious_options.bind fun _ s₂ _ => ?_
  refine (cautious_emit (Emit.evolving_type False.elim _)).atomic.bind fun ty => ?_
  refine (total_addVariable _).bind fun _ => total_get.bind fun _ => (total_modify _).bind fun _ =>
    (total_modify _).bind fun _ => ?_
  split
  · exact (total_hiddenCounter v _).bind fun _ => total_pure _
  · exact total_pure _

theorem atomic_globalVariable (v : Variable) : Atomic (globalVariable v) s := by
  rw [globalVariable]
  split
  · exact atomic_pushConstant v
  · split
    · exact atomic_blockVariable v
    · split
      · split
        · exact atomic_resourceVariable v _ _
        · exact (cautious_refuse _ _).atomic
      · exact (cautious_refuse _ _).atomic

/-- The module has to be legalized only if the type was emitted. -/
theorem atomic_aliasType (ty : Ty) : Atomic (aliasType ty) s := by
  refine (cautious_emit (Emit.evolving_type False.elim _)).atomic.bind fun id => ?_
  split
  · exact (total_modify _).bind fun _ => total_pure _
  · exact total_pure _

theorem atomic_aliasable (id : Nat) (name : String) (ty : Ty) (storage : StorageClass)
    (position : Position) : Atomic (aliasable id name ty storage position) s := by
  refine (cautious_moveTo position).bind fun _ s₁ _ => ?_
  refine (atomic_aliasType ty).bind fun (typeId, isAlias) => ?_
  refine (total_get.bind fun _ => total_pure _).bind fun opts => ?_
  refine (total_addVariable _).bind fun var => (total_modify _).bind fun _ => ?_
  split
  · exact (total_aliasCounters id storage _).bind fun _ => total_pure _
  · exact total_pure _

theorem atomic_create (d : LocalDeclaration) : Atomic d.create s := by
  cases d with
  | file v =>
    show Atomic (fileVariable v) s
    rw [fileVariable]
    split
    · exact atomic_aliasable _ _ _ _ _
    · exact atomic_aliasable _ _ _ _ _
    · exact (cautious_refuse _ _).atomic
    · exact (cautious_refuse _ _).atomic
  | function v => exact atomic_aliasable _ _ _ _ _
  | param p => exact atomic_aliasable _ _ _ _ _

theorem atomic_forget {x : Lower α} (hx : x.Atomic s) : (forget x).Atomic s :=
  hx.bind fun _ => total_pure ()

end Lower

/-- Whether the operation lowers a declaration of a block, a resource, a push constant or a variable,
or the type of a variable that may alias a buffer. -/
def Operation.declares : Operation → Bool
  | resource .bindings => false
  | resource _ | declaration _ | aliasType _ => true
  | interface _ | type _ _ _ | counterType | moveTo _ => false

/-- **Declarations are atomic.**  If the lowering of a declaration fails, wherever it breaks off, the
session has the variables, lists, declarations, blocks, counters and push constant that it had, and
has to be legalized exactly if it had to before.  Only types, constants, capabilities, extensions
and diagnostics may have become more. -/
theorem spares_of_error {s s' : Session} {op : Operation} (hop : op.declares = true) {f : Failure}
    (hrun : op.action.runOn s = (.error f, s')) : s.Spares s' := by
  suffices hatomic : op.action.Atomic s from hatomic f s' hrun
  cases op with
  | resource op =>
    cases op with
    | block b => exact Lower.atomic_forget (Lower.atomic_block b)
    | blockVariable v => exact Lower.atomic_forget (Lower.atomic_blockVariable v)
    | pushConstant v => exact Lower.atomic_forget (Lower.atomic_pushConstant v)
    | globalBlock vs => exact Lower.atomic_forget (Lower.atomic_globalBlock vs)
    | globalVariable v => exact Lower.atomic_forget (Lower.atomic_globalVariable v)
    | bindings => cases hop
  | declaration d => exact Lower.atomic_forget (Lower.atomic_create d)
  | aliasType ty => exact Lower.atomic_forget (Lower.atomic_aliasType ty)
  | interface op => cases hop
  | type ty rule expected => cases hop
  | counterType => cases hop
  | moveTo position => cases hop

/-- A structure of a buffer with a counter and a buffer without an element. -/
def brokenBuffers : Ty := .struct "s" .absent
  (.cons "a" (.resource (.structured .append) (.present (.vector .single 4))) {} {}
    (.cons "b" (.resource (.structured .read) .absent) {} {} .nil))

/-- The declaration of a variable of a function. -/
def functionVariableOf (id : Nat) (ty : Ty) : Operation :=
  .declaration (.function { id, name := "v", ty, storage := .function })

/-- A variable of that structure fails at its second member, when the first has been emitted. -/
theorem spares_of_error_brokenBuffers :
    (functionVariableOf 2 brokenBuffers).declares = true ∧
    ∃ s f s', s = (Session.start .pixel {}).run [functionVariableOf 1 (.scalar .single)] ∧
      (functionVariableOf 2 brokenBuffers).action.runOn s = (.error f, s') ∧ s.Spares s' ∧
      s.emitter.target.types.size < s'.emitter.target.types.size := by
  have hanswer : ((functionVariableOf 2 brokenBuffers).action.runOn
      ((Session.start .pixel {}).run [functionVariableOf 1 (.scalar .single)])).1 =
      .error (.error (.fatal "StructuredBuffer requires a template type" {})) := by
    decide +kernel
  have hrun := Prod.ext (y := (_, _)) hanswer rfl
  exact ⟨rfl, _, _, _, rfl, hrun, spares_of_error rfl hrun, by decide +kernel⟩

end ShaderLowering
