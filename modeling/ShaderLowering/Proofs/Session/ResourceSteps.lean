import ShaderLowering.Proofs.Session.Operations
import ShaderLowering.Proofs.Session.Steps

/-!
# Operations on resources and aliases take steps

Every operation that creates a resource variable or a variable that may alias one, or gives resource
variables their bindings, is a sequence of steps, wherever it breaks off.
-/

namespace ShaderLowering

open Source (Ty OptionalTy Field Record Resource Block Variable Param Position)
open Spirv (VariableId TypeId StorageClass)
open Action.Contract (keeps_pure keeps_throw keeps_get_bind keeps_mapM)

/-! ## Types of blocks -/

namespace Source

theorem Record.isStandard_parts {r : Record} (hbase : r.base.isStandard = true)
    (hfields : r.fields.areStandard = true) : ∀ f ∈ r.parts, f.ty.isStandard = true := by
  rw [parts]
  split
  · exact Fields.isStandard_of_mem hfields
  · rename_i base hpresent
    rw [hpresent] at hbase
    exact List.forall_mem_cons.2 ⟨hbase, Fields.isStandard_of_mem hfields⟩

theorem Ty.isStandard_record? {ty : Ty} (hty : ty.isStandard = true) {r : Record}
    (hr : ty.record? = some r) : ∀ f ∈ r.parts, f.ty.isStandard = true := by
  rw [← ty.isStandard_shape] at hty
  rw [record?] at hr
  split at hr <;> cases hr
  rename_i hshape
  rw [hshape] at hty
  obtain ⟨hbase, hfields⟩ := Bool.and_eq_true_iff.1 hty
  exact Record.isStandard_parts hbase hfields

theorem Ty.isStandard_resource? {ty : Ty} (hty : ty.isStandard = true) {kind : Resource}
    {elem : Ty} (h : ty.resource? = some (kind, some elem)) : elem.isStandard = true := by
  rw [← ty.isStandard_shape] at hty
  rw [resource?] at h
  split at h
  · rename_i hshape
    rw [hshape] at hty
    simp only [Option.some.injEq, Prod.mk.injEq] at h
    exact OptionalTy.isStandard_toOption hty h.2
  · cases h

end Source

theorem isStandard_pushConstantRecord? {ty : Ty} (hty : ty.isStandard = true) {r : Record}
    (hr : pushConstantRecord? ty = some r) : ∀ f ∈ r.parts, f.ty.isStandard = true := by
  rw [pushConstantRecord?] at hr
  split at hr
  · rename_i elem hresource
    exact Ty.isStandard_record? (Ty.isStandard_resource? hty hresource) hr
  · exact Ty.isStandard_record? hty hr

theorem Emit.evolving_arrayedLike {standard : Prop} (base : TypeId) :
    (ty : Ty) → Emit.Evolving standard (arrayedLike base ty)
  | .alias _ target => evolving_arrayedLike base target
  | .oriented _ target => evolving_arrayedLike base target
  | .array elem (some n) => by
    rw [arrayedLike]
    exact (evolving_arrayedLike base elem).bind fun _ =>
      (evolving_constant n).bind fun _ => evolving_insertType rfl
  | .array elem none => by
    rw [arrayedLike]
    exact (evolving_arrayedLike base elem).bind fun _ => evolving_insertType rfl
  | .void | .scalar _ | .vector _ _ | .matrix _ _ _ | .struct _ _ _ | .resource _ _ =>
    evolving_pure _

namespace Lower

open Session (course)

variable {α : Type} {standard packing : Prop} {s s' : Session}

/-! ## Resources -/

theorem steps_declare (id : Nat) (var : VariableId) :
    (course standard packing).Keeps (declare id var) s :=
  steps_note rfl rfl rfl rfl rfl rfl

theorem steps_declareBlock (id : Nat) (var : VariableId) :
    (course standard packing).Keeps (declareBlock id var) s :=
  (steps_note (f := fun s => { s with blocks := (id, var) :: s.blocks }) rfl rfl rfl rfl rfl rfl).bind
    fun _ _ _ _ _ => steps_declare id var

/-- A new variable that becomes a resource at once. -/
theorem steps_newResource {v : Spirv.Variable} (resource : VariableId → ResourceVariable)
    (hstorage : v.storage.isDescribed = true) (hv : v.IsUnplaced)
    (hvar : ∀ id, (resource id).var = id) {f : VariableId → Lower α}
    (hf : ∀ id s', (course standard packing).Keeps (f id) s') :
    (course standard packing).Keeps (do
      let id ← emit (.addVariable v)
      addResource (resource id)
      f id) s := by
  refine .onward ?_ (.single (.resource (hvar s.size) hstorage hv)) (hf s.size _)
  rw [Action.runOn_bind_of_ok (runOn_addVariable v s)]
  exact Action.runOn_bind_of_ok (Action.runOn_modify _ _)

theorem steps_block {b : Block}
    (hb : standard → ∀ f ∈ b.fields.toList, f.ty.isStandard = true) :
    (course standard packing).Keeps (block b) s := by
  refine keeps_get_bind ?_
  split
  · exact keeps_pure trivial _
  · refine (steps_reportAll _).bind fun _ s₁ _ _ _ => ?_
    split
    · exact (keeps_throw trivial _).bind fun _ _ _ _ h => by cases h
    · refine steps_options.bind fun _ s₂ _ _ _ => (steps_moveTo _).bind fun _ s₃ _ _ _ => ?_
      refine (steps_emit (Emit.evolving_blockType _ _ _ hb)).bind fun ty s₄ _ _ _ => ?_
      refine steps_newResource (fun var =>
        { var, position := b.position, register := b.attributes.register,
          binding := b.attributes.binding }) rfl Spirv.Variable.isUnplaced_nil (fun _ => rfl)
        fun var s₅ => ?_
      exact (steps_declareBlock b.id var).bind fun _ _ _ _ _ => keeps_pure trivial _

theorem steps_blockVariable {v : Variable} (hv : standard → v.ty.isStandard = true) :
    (course standard packing).Keeps (blockVariable v) s := by
  refine keeps_get_bind ?_
  split
  · exact keeps_pure trivial _
  · split
    · exact (steps_refuse _ _).bind fun _ _ _ _ h => by cases h
    · refine (steps_moveTo _).bind fun _ s₁ _ _ _ => ?_
      refine (steps_emit (Emit.evolving_type hv _)).bind fun ty s₂ _ _ _ => ?_
      refine steps_newResource (resourceOf · v) rfl
        Spirv.Variable.isUnplaced_nil (fun _ => rfl) fun var s₃ => ?_
      exact (steps_declareBlock v.id var).bind fun _ _ _ _ _ => keeps_pure trivial _

/-- A new push constant, which takes the slot at once. -/
theorem steps_newPushConstant {name : String} {ty : TypeId} {position : Position}
    (hnone : s.pushConstant = none) {f : VariableId → Lower α}
    (hf : ∀ id s', (course standard packing).Keeps (f id) s') :
    (course standard packing).Keeps (do
      let id ← emit (.addVariable ⟨some name, ty, .pushConstant, []⟩)
      modify fun s => { s with pushConstant := some (id, position) }
      f id) s := by
  have hstep : s.Step standard packing { s.adding ⟨some name, ty, .pushConstant, []⟩ with
      pushConstant := some (s.size, position) } :=
    .pushConstant hnone rfl Spirv.Variable.isUnplaced_nil
  refine .onward ?_ (.single hstep) (hf s.size _)
  rw [Action.runOn_bind_of_ok (runOn_addVariable _ s)]
  exact Action.runOn_bind_of_ok (Action.runOn_modify _ _)

/-- A second push constant is refused, so the new one has the slot to itself. -/
theorem steps_pushConstant {v : Variable} (hv : standard → v.ty.isStandard = true) :
    (course standard packing).Keeps (pushConstant v) s := by
  refine keeps_get_bind ?_
  split
  · exact (steps_report _ _).bind fun _ _ _ _ _ => steps_refuse _ _
  · exact steps_refuse _ _
  · rename_i record hnone hrecord
    refine (steps_moveTo _).bind fun _ s₁ _ _ hrun₁ => ?_
    refine steps_options.bind fun _ s₂ _ _ hrun₂ => ?_
    refine (steps_emit (Emit.evolving_blockType _ _ _ fun h =>
      isStandard_pushConstantRecord? (hv h) hrecord)).bind fun ty s₃ _ _ hrun₃ => ?_
    -- the slot is still free when the type has been emitted
    have hnone₃ : s₃.pushConstant = none := by
      obtain ⟨e₃, -, rfl⟩ := runOn_emit_eq_ok_iff.1 hrun₃
      cases hrun₂
      obtain ⟨e₁, -, rfl⟩ := runOn_emit_eq_ok_iff.1 hrun₁
      exact hnone
    exact steps_newPushConstant hnone₃ fun var s₄ =>
      (steps_declare v.id var).bind fun _ _ _ _ _ => keeps_pure trivial _

theorem steps_globalBlock {vs : List Variable} (hvs : standard → ∀ v ∈ vs, v.ty.isStandard = true) :
    (course standard packing).Keeps (globalBlock vs) s := by
  have hparts : standard → ∀ f ∈ (vs.filter (·.isLoose)).map (·.part), f.ty.isStandard = true := by
    intro h f hf
    obtain ⟨v, hv, rfl⟩ := List.mem_map.1 hf
    exact hvs h v (List.mem_of_mem_filter hv)
  rw [globalBlock]
  split
  · exact keeps_pure trivial _
  · refine steps_options.bind fun _ s₁ _ _ _ => ?_
    refine (steps_emit (Emit.evolving_blockType _ _ _ hparts)).bind fun ty s₂ _ _ _ => ?_
    exact steps_newResource (fun var => { var, position := {} }) rfl
      Spirv.Variable.isUnplaced_nil (fun _ => rfl) fun var s₃ => keeps_pure trivial _

theorem steps_hiddenCounter (v : Variable) (owner : Nat) :
    (course standard packing).Keeps (hiddenCounter v owner) s := by
  refine (steps_emit Emit.evolving_counterType).bind fun counter s₁ _ _ _ => ?_
  refine (steps_emit (Emit.evolving_arrayedLike counter v.ty)).bind fun ty s₂ _ _ _ => ?_
  exact steps_newResource
    (fun var => { var, position := v.position, owner := some owner }) rfl
    Spirv.Variable.isUnplaced_nil (fun _ => rfl) fun var s₃ => steps_note rfl rfl rfl rfl rfl rfl

/-- A new resource before which the number of resources is asked for. -/
theorem steps_newOwner {v : Spirv.Variable} (resource : VariableId → ResourceVariable)
    (hstorage : v.storage.isDescribed = true) (hv : v.IsUnplaced)
    (hvar : ∀ id, (resource id).var = id) {f : VariableId → Nat → Lower α}
    (hf : ∀ id owner s', (course standard packing).Keeps (f id owner) s') :
    (course standard packing).Keeps (do
      let id ← emit (.addVariable v)
      let owner := (← get).resources.length
      addResource (resource id)
      f id owner) s := by
  refine .onward ?_ (.single (.resource (hvar s.size) hstorage hv))
    (hf s.size s.resources.length _)
  rw [Action.runOn_bind_of_ok (runOn_addVariable v s),
    Action.runOn_bind_of_ok (Action.runOn_get _)]
  exact Action.runOn_bind_of_ok (Action.runOn_modify _ _)

theorem steps_resourceVariable {v : Variable} (hv : standard → v.ty.isStandard = true)
    (kind : Resource) (elem : Option Ty) :
    (course standard packing).Keeps (resourceVariable v kind elem) s := by
  refine (steps_moveTo _).bind fun _ s₁ _ _ _ => steps_options.bind fun opts s₂ _ _ _ => ?_
  generalize hchoice : (if kind.isAliasable then (opts.structuredRule, StorageClass.uniform)
    else (.unlaid, .uniformConstant)) = choice
  obtain ⟨rule, storage⟩ := choice
  -- both kinds of resources are bound to descriptors
  have hstorage : storage.isDescribed = true := by
    split at hchoice <;> cases hchoice <;> rfl
  refine (steps_emit (Emit.evolving_type hv _)).bind fun ty s₃ _ _ _ => ?_
  have hrest : ∀ var owner s, (course standard packing).Keeps (do
      declare v.id var
      if kind.hasCounter then
        hiddenCounter v owner
      return var) s := by
    refine fun var owner s => (steps_declare v.id var).bind fun _ s₄ _ _ _ => ?_
    split
    · exact (steps_hiddenCounter v owner).bind fun _ _ _ _ _ => keeps_pure trivial _
    · exact keeps_pure trivial _
  exact steps_newOwner (resourceOf · v) hstorage
    (Spirv.Variable.isUnplaced_relaxed _) (fun _ => rfl) hrest

theorem steps_globalVariable {v : Variable} (hv : standard → v.ty.isStandard = true) :
    (course standard packing).Keeps (globalVariable v) s := by
  rw [globalVariable]
  split
  · exact steps_pushConstant hv
  · split
    · exact steps_blockVariable hv
    · split
      · split
        · exact steps_resourceVariable hv _ _
        · exact steps_refuse _ _
      · exact steps_refuse _ _

/-! ## Bindings -/

/-- Only listed resources are decorated, and the list stays as it is. -/
theorem steps_bindSlots (slots : List (ResourceVariable × Spirv.ResourceBinding))
    (hslots : ∀ p ∈ slots, p.1 ∈ s.resources) :
    (course standard packing).Keeps (slots.forM fun (r, slot) => do
      emit (.decorate r.var (.descriptorSet slot.set))
      emit (.decorate r.var (.binding slot.binding))) s := by
  induction slots generalizing s with
  | nil => exact keeps_pure trivial ()
  | cons p rest ih =>
    obtain ⟨hp, hrest⟩ := List.forall_mem_cons.1 hslots
    refine Action.Contract.Keeps.bind (((steps_decorate (.bind hp rfl)).bind
      fun _ s₁ _ _ hrun => steps_decorate (.bind ?_ rfl))) fun _ s₂ _ _ hrun => ih ?_
    -- a decoration changes the module, so the resources are listed as before
    · obtain ⟨e, -, rfl⟩ := runOn_emit_eq_ok_iff.1 hrun
      exact hp
    · obtain ⟨_, s₁, hrun₁, hrun₂⟩ := Action.runOn_bind_eq_ok_iff.1 hrun
      obtain ⟨e₂, -, rfl⟩ := runOn_emit_eq_ok_iff.1 hrun₂
      obtain ⟨e₁, -, rfl⟩ := runOn_emit_eq_ok_iff.1 hrun₁
      exact hrest

theorem steps_decorateBindings : (course standard packing).Keeps decorateBindings s := by
  refine keeps_get_bind ((steps_reportAll _).bind fun _ s₁ _ _ hrun => ?_)
  have hresources : s₁.resources = s.resources := by
    rw [runOn_reportAll] at hrun
    cases hrun
    rfl
  refine (steps_bindSlots _ fun p hp => ?_).bind fun _ _ _ _ _ => keeps_pure trivial _
  exact hresources ▸ (List.of_mem_zip hp).1

/-! ## Variables that may alias a buffer -/

theorem steps_aliasType {ty : Ty} (hty : standard → ty.isStandard = true) :
    (course standard packing).Keeps (aliasType ty) s := by
  refine (steps_emit (Emit.evolving_type hty _)).bind fun id s₁ _ _ _ => ?_
  split
  · exact (steps_note rfl rfl rfl rfl rfl rfl).bind fun _ _ _ _ _ => keeps_pure trivial _
  · exact keeps_pure trivial _

theorem steps_aliasCounters (id : Nat) {storage : StorageClass}
    (hstorage : storage.isInternal = true) (sites : List CounterSite) :
    (course standard packing).Keeps (aliasCounters id storage sites) s := by
  have hsite : ∀ site (s : Session),
      (course standard packing).Keeps (emit (.aliasCounter storage site)) s := by
    intro site s
    have hlast : Emit.AddsLast standard (Emit.aliasCounter storage site) (·.counter)
        fun v => v.storage = storage ∧ v.IsUnplaced :=
      .after Emit.evolving_counterType fun counter =>
        .after (Emit.evolving_insertType rfl) fun pointer =>
          (Emit.addsLast_addVariable ⟨rfl, Spirv.Variable.isUnplaced_nil⟩).answer _ fun _ => rfl
    exact steps_emit_addsLast hlast fun s v hv => .internal (hv.1 ▸ hstorage) hv.2
  refine (keeps_mapM sites (fun site s _ => hsite site s) trivial).bind fun entries s₁ _ _ _ => ?_
  split
  · exact steps_note rfl rfl rfl rfl rfl rfl
  · exact keeps_pure trivial ()

theorem steps_aliasable (id : Nat) (name : String) {ty : Ty} {storage : StorageClass}
    (position : Position) (hty : standard → ty.isStandard = true)
    (hstorage : storage.isInternal = true) :
    (course standard packing).Keeps (aliasable id name ty storage position) s := by
  refine (steps_moveTo position).bind fun _ s₁ _ _ _ => ?_
  refine (steps_aliasType hty).bind fun (typeId, isAlias) s₂ _ _ _ => ?_
  refine steps_options.bind fun opts s₃ _ _ _ => ?_
  refine (steps_of_step (runOn_addVariable _ s₃)
    (.internal hstorage (Spirv.Variable.isUnplaced_relaxed _))).bind fun var s₄ _ _ _ => ?_
  refine (steps_declare id var).bind fun _ s₅ _ _ _ => ?_
  split
  · exact (steps_aliasCounters id hstorage _).bind fun _ _ _ _ _ => keeps_pure trivial _
  · exact keeps_pure trivial _

theorem steps_create (d : LocalDeclaration) (hd : standard → d.ty.isStandard = true) :
    (course standard packing).Keeps d.create s := by
  cases d with
  | file v =>
    show (course standard packing).Keeps (fileVariable v) s
    rw [fileVariable]
    split
    · exact steps_aliasable _ _ _ hd rfl
    · exact steps_aliasable _ _ _ hd rfl
    · exact steps_refuse _ _
    · exact steps_refuse _ _
  | function v => exact steps_aliasable _ _ _ hd rfl
  | param p => exact steps_aliasable _ _ _ hd rfl

end Lower

end ShaderLowering
