import ShaderLowering.Proofs.Session.Bindings
import ShaderLowering.Proofs.Session.InterfacePairing

/-!
# Resource operations in pairs

Two sessions have the same resources if they differ in the numbers of their resource variables at
most, and corresponding variables stand in the same slot (`Session.ResourceAlike`).  An operation on
resources then does the same to both: it answers alike, leaves them alike, and leaves the interface
and the counters of other declarations alone in either (`Session.ResourceStep`).
-/

namespace ShaderLowering

open Source (Ty Field Resource Block Variable Position)
open Spirv (ResourceBinding StorageClass TypeId VariableId)

/-! ## Plans of descriptor bindings -/

/-- A variable without its number in the module. -/
def ResourceVariable.unnumbered (r : ResourceVariable) : ResourceVariable := { r with var := 0 }

section Plan

variable (all : List ResourceVariable) (r : ResourceVariable)

theorem owner?_unnumbered : r.unnumbered.owner? (all.map (·.unnumbered)) =
    (r.owner? all).map (·.unnumbered) := by
  show r.owner.bind _ = (r.owner.bind _).map _
  cases r.owner with
  | none => rfl
  | some i => exact List.getElem?_map

theorem requested?_unnumbered :
    r.unnumbered.requested? (all.map (·.unnumbered)) = r.requested? all := by
  have hbinding : r.unnumbered.binding = r.binding := rfl
  rw [ResourceVariable.requested?, ResourceVariable.requested?, owner?_unnumbered, hbinding]
  cases r.binding with
  | some b => rfl
  | none => cases r.owner? all <;> rfl

theorem explicit?_unnumbered :
    r.unnumbered.explicit? (all.map (·.unnumbered)) = r.explicit? all := by
  rw [ResourceVariable.explicit?, ResourceVariable.explicit?, requested?_unnumbered]
  rfl

theorem automaticSet_unnumbered :
    r.unnumbered.automaticSet (all.map (·.unnumbered)) = r.automaticSet all := by
  rw [ResourceVariable.automaticSet, ResourceVariable.automaticSet, owner?_unnumbered]
  cases r.owner? all <;> rfl

theorem claims_unnumbered : claims (all.map (·.unnumbered)) = claims all := by
  simp only [claims, List.filterMap_map, Function.comp_def, requested?_unnumbered]
  rfl

theorem assignBindings_unnumbered (rs : List ResourceVariable) (taken : List ResourceBinding) :
    assignBindings (all.map (·.unnumbered)) taken (rs.map (·.unnumbered)) =
      assignBindings all taken rs := by
  induction rs generalizing taken with
  | nil => rfl
  | cons r rest ih =>
    rw [List.map_cons, assignBindings, assignBindings]
    simp only [explicit?_unnumbered, automaticSet_unnumbered, ih]

/-- Numbers in the module do not matter to a plan. -/
theorem BindingPlan.of_unnumbered : BindingPlan.of (all.map (·.unnumbered)) = .of all := by
  rw [BindingPlan.of, BindingPlan.of, claims_unnumbered, assignBindings_unnumbered]

end Plan

/-! ## Sessions with the same resources -/

namespace Session

/-- A resource variable without its number, with its slot. -/
def slotted (s : Session) (r : ResourceVariable) :
    ResourceVariable × Option (Option String × Option Nat × Option Nat) :=
  (r.unnumbered, (s.var? r.var).map (·.slot))

/-- All resource variables exist. -/
def HoldsResources (s : Session) : Prop := ∀ r ∈ s.resources, r.var < s.size

/-- The sessions have the same resources, but for the numbers of their variables. -/
structure ResourceAlike (s t : Session) : Prop where
  emitter : s.emitter.Alike t.emitter
  resources : s.resources.map s.slotted = t.resources.map t.slotted
  blocks : s.blocks.map (·.1) = t.blocks.map (·.1)
  pushConstant : s.pushConstant.map (·.2) = t.pushConstant.map (·.2)
  left : s.HoldsResources
  right : t.HoldsResources

/-- What an operation on a resource leaves alone. -/
structure ResourceStep (id? : Option Nat) (s s' : Session) : Prop extends s.KeepsInterface s' where
  slots : s.emitter.target.KeepsSlots s'.emitter.target
  counters : s.KeepsCounters id? s'

variable {s s' t : Session} {id? : Option Nat}

theorem ResourceStep.refl (id? : Option Nat) (s : Session) : s.ResourceStep id? s :=
  ⟨.refl s, .refl _, .refl id? s⟩

/-- Operations on a resource in pairs. -/
def resourcePairing (id? : Option Nat) : Action.Pairing Session where
  alike := ResourceAlike
  step := ResourceStep id?
  refl := .refl id?
  trans h h' := ⟨h.toKeepsInterface.trans h'.toKeepsInterface, h.slots.trans h'.slots,
    h.counters.trans h'.counters⟩

theorem slotted_of_keepsSlots (h : s.emitter.target.KeepsSlots s'.emitter.target)
    {r : ResourceVariable} (hr : r.var < s.size) : s'.slotted r = s.slotted r := by
  obtain ⟨v', hv', hslot⟩ := h r.var _ (List.getElem?_eq_getElem hr)
  have hv : s.var? r.var = some _ := List.getElem?_eq_getElem hr
  have hv' : s'.var? r.var = some v' := hv'
  rw [slotted, slotted, hv, hv', Option.map_some, Option.map_some, hslot]

/-- Resource variables that exist stay in their slots. -/
theorem HoldsResources.map_slotted (h : s.HoldsResources)
    (hkeeps : s.emitter.target.KeepsSlots s'.emitter.target) :
    s.resources.map s'.slotted = s.resources.map s.slotted :=
  List.map_congr_left fun r hr => slotted_of_keepsSlots hkeeps (h r hr)

theorem Sound.holdsResources (hs : s.Sound) : s.HoldsResources := hs.held.resources

theorem ResourceAlike.refl (hs : s.Sound) : s.ResourceAlike s where
  emitter := ⟨hs.emitter, hs.emitter, rfl⟩
  resources := rfl
  blocks := rfl
  pushConstant := rfl
  left := hs.holdsResources
  right := hs.holdsResources

/-- What leaves the resources alone leaves sessions alike. -/
theorem ResourceAlike.of_keepsResources (h : s.ResourceAlike t) (hs' : s'.Sound)
    (hstep : s.KeepsResources s') : s'.ResourceAlike t where
  emitter := ⟨hs'.emitter, h.emitter.right, hstep.emitter.options.trans h.emitter.options⟩
  resources := by
    rw [hstep.resources, h.left.map_slotted hstep.emitter.target, h.resources]
  blocks := by rw [hstep.blocks, h.blocks]
  pushConstant := by rw [hstep.pushConstant, h.pushConstant]
  left := hs'.holdsResources
  right := h.right

theorem ResourceAlike.unnumbered (h : s.ResourceAlike t) :
    s.resources.map (·.unnumbered) = t.resources.map (·.unnumbered) := by
  have hfst := congrArg (List.map Prod.fst) h.resources
  rw [List.map_map, List.map_map] at hfst
  exact hfst

theorem ResourceAlike.length (h : s.ResourceAlike t) : s.resources.length = t.resources.length := by
  have hlength := congrArg List.length h.resources
  rwa [List.length_map, List.length_map] at hlength

/-- A block has a variable in both sessions or in neither. -/
theorem ResourceAlike.lookup_blocks (h : s.ResourceAlike t) (id : Nat) :
    (s.blocks.lookup id).isSome = (t.blocks.lookup id).isSome := by
  have hlookup := congrArg (fun ids => (ids.map (·, ())).lookup id) h.blocks
  simp only [List.map_map, Function.comp_def, lookup_map_snd fun _ : VariableId => ()] at hlookup
  simpa using congrArg Option.isSome hlookup

end Session

/-! ## Operations -/

namespace Session.ResourceAlike

open Lower
open Action.Pairing (keeps_pure keeps_throw keeps_get_bind keeps_forM)

variable {α β : Type} {Q : α → β → Prop} {id? : Option Nat} {s t : Session}
  (h : s.ResourceAlike t)
include h

/-! ### Emitter and findings -/

theorem pair_emit {x : Emit α} {y : Emit β}
    (hxy : Emitter.pairing.Keeps Q x y s.emitter t.emitter) :
    (resourcePairing id?).Keeps Q (emit x) (emit y) s t where
  alike := { h with
    emitter := hxy.alike
    resources := by
      refine (h.left.map_slotted hxy.left.target).trans (h.resources.trans ?_)
      exact (h.right.map_slotted hxy.right.target).symm
    left := fun r hr => hxy.left.target.lt_size (h.left r hr)
    right := fun r hr => hxy.right.target.lt_size (h.right r hr) }
  left := { ResourceStep.refl id? s with slots := hxy.left.target, options := hxy.left.options }
  right := { ResourceStep.refl id? t with slots := hxy.right.target, options := hxy.right.options }
  agree := hxy.agree

theorem pair_options : (resourcePairing id?).Keeps Eq options options s t :=
  keeps_get_bind (keeps_pure h h.emitter.options)

theorem pair_report (finding : Finding) (position : Position) :
    (resourcePairing id?).Keeps Eq (report finding position) (report finding position) s t :=
  h.pair_emit (Emit.pair_report h.emitter finding position)

theorem pair_reportAll (findings : List (Finding × Position)) :
    (resourcePairing id?).Keeps Eq (reportAll findings) (reportAll findings) s t :=
  keeps_forM findings (fun f _ _ h => ResourceAlike.pair_report h f.1 f.2) h

theorem pair_refuse (finding : Finding) (position : Position) :
    (resourcePairing id?).Keeps Q (refuse finding position) (refuse finding position) s t :=
  (h.pair_report finding position).bind fun _ _ _ _ h₁ _ _ _ => keeps_throw h₁ rfl

theorem pair_moveTo (position : Position) :
    (resourcePairing id?).Keeps Eq (emit (.moveTo position)) (emit (.moveTo position)) s t :=
  h.pair_emit (Emit.pair_moveTo h.emitter position)

theorem pair_type (ty : Ty) (rule : Layout.Rule) :
    (resourcePairing id?).Keeps (fun _ _ => True) (emit (.type ty rule)) (emit (.type ty rule))
      s t :=
  h.pair_emit (Emit.pair_type h.emitter ty rule)

theorem pair_blockType (name : String) (parts : List Field) (rule : Layout.Rule)
    (role : BlockRole) :
    (resourcePairing id?).Keeps (fun _ _ => True) (emit (.blockType name parts rule role))
      (emit (.blockType name parts rule role)) s t :=
  h.pair_emit ((Emit.realizes_blockType h.emitter.left name parts rule role).pairType
    (h.emitter.options ▸ Emit.realizes_blockType h.emitter.right name parts rule role)
    h.emitter.options)

/-! ### Resource variables -/

theorem pair_declare (id : Nat) (var var' : VariableId) :
    (resourcePairing id?).Keeps Eq (declare id var) (declare id var') s t :=
  Action.Pairing.keeps_modify { h with } { ResourceStep.refl id? s with }
    { ResourceStep.refl id? t with }

theorem pair_declareBlock (id : Nat) (var var' : VariableId) :
    (resourcePairing id?).Keeps Eq (declareBlock id var) (declareBlock id var') s t := by
  have hblocks : (resourcePairing id?).Keeps Eq
      (modify fun s => { s with blocks := (id, var) :: s.blocks } : Lower Unit)
      (modify fun s => { s with blocks := (id, var') :: s.blocks }) s t :=
    Action.Pairing.keeps_modify { h with blocks := congrArg (id :: ·) h.blocks }
      { ResourceStep.refl id? s with } { ResourceStep.refl id? t with }
  exact hblocks.bind fun _ _ _ _ h₁ _ _ _ => ResourceAlike.pair_declare h₁ id var var'

theorem pair_addResource {r u : ResourceVariable} (hr : r.var < s.size) (hu : u.var < t.size)
    (hsame : s.slotted r = t.slotted u) :
    (resourcePairing id?).Keeps Eq (addResource r) (addResource u) s t := by
  have hmem : ∀ {l : List ResourceVariable} {r : ResourceVariable} {n : Nat},
      (∀ u ∈ l, u.var < n) → r.var < n → ∀ u ∈ l ++ [r], u.var < n := by
    intro l r n hl hr u hu
    rcases List.mem_append.1 hu with hu | hu
    · exact hl u hu
    · exact List.mem_singleton.1 hu ▸ hr
  refine Action.Pairing.keeps_modify
    { h with resources := ?_, left := hmem h.left hr, right := hmem h.right hu }
    { ResourceStep.refl id? s with } { ResourceStep.refl id? t with }
  show (s.resources ++ [r]).map s.slotted = (t.resources ++ [u]).map t.slotted
  rw [List.map_append, List.map_append, h.resources, List.map_singleton, List.map_singleton, hsame]

omit h in
/-- A variable that was added just now is in the slot that it was added with. -/
theorem slotted_of_addVariable {s₁ : Session} {v : Spirv.Variable} {id : VariableId}
    (hrun : (emit (.addVariable v)).runOn s = (.ok id, s₁)) {r : ResourceVariable}
    (hr : r.var = id) :
    r.var < s₁.size ∧ s₁.slotted r = (r.unnumbered, some v.slot) := by
  cases hrun
  have hget : (s.emitter.target.variables.push v).get? s.emitter.target.variables.size =
      some v := by
    rw [Spirv.Table.get?_push, if_pos rfl]
  rw [slotted, hr]
  refine ⟨(List.getElem?_eq_some_iff.1 hget).1, ?_⟩
  exact congrArg (fun u => (_, Option.map Spirv.Variable.slot u)) hget

/-- A new variable that becomes a resource at once, before anything else is done with it. -/
theorem pair_newResource {name : Option String} {storage : StorageClass} {ty ty' : TypeId}
    (resource : VariableId → ResourceVariable) (hvar : ∀ id, (resource id).var = id)
    (hsame : ∀ id id', (resource id).unnumbered = (resource id').unnumbered)
    {f g : VariableId → Lower α}
    (hfg : ∀ id id' s' t', Session.ResourceAlike s' t' →
      (resourcePairing id?).Keeps (fun _ _ => True) (f id) (g id') s' t') :
    (resourcePairing id?).Keeps (fun _ _ => True)
      (do let id ← emit (.addVariable ⟨name, ty, storage, []⟩); addResource (resource id); f id)
      (do let id ← emit (.addVariable ⟨name, ty', storage, []⟩); addResource (resource id); g id)
      s t := by
  refine (h.pair_emit (Emit.pair_addVariable h.emitter _ _)).bind
    fun id id' s₁ t₁ h₁ _ hrun hrun' => ?_
  obtain ⟨hlt, hslotted⟩ := slotted_of_addVariable hrun (hvar id)
  obtain ⟨hlt', hslotted'⟩ := slotted_of_addVariable hrun' (hvar id')
  refine (pair_addResource h₁ hlt hlt' ?_).bind fun _ _ s₂ t₂ h₂ _ _ _ => hfg id id' s₂ t₂ h₂
  rw [hslotted, hslotted', hsame id id']
  rfl

/-- A buffer that has a variable in both sessions or in neither is created in both or in neither. -/
theorem pair_block (b : Block) :
    (resourcePairing id?).Keeps (fun _ _ => True) (block b) (block b) s t := by
  refine keeps_get_bind ?_
  have hlookup := h.lookup_blocks b.id
  cases hs : s.blocks.lookup b.id with
  | some var =>
    cases ht : t.blocks.lookup b.id with
    | some var' => exact keeps_pure h trivial
    | none => rw [hs, ht] at hlookup; cases hlookup
  | none =>
    cases ht : t.blocks.lookup b.id with
    | some var' => rw [hs, ht] at hlookup; cases hlookup
    | none =>
      refine (h.pair_reportAll _).bind fun _ _ s₁ t₁ h₁ _ _ _ => ?_
      split
      · exact (keeps_throw (Q := fun _ _ => False) h₁ rfl).bind fun _ _ _ _ _ hfalse => hfalse.elim
      · refine (pair_options h₁).bind fun opts _ s₂ t₂ h₂ hoptions _ _ => ?_
        subst hoptions
        refine (pair_moveTo h₂ _).bind fun _ _ _ _ h₃ _ _ _ => ?_
        refine (pair_blockType h₃ _ _ _ _).bind fun _ _ _ _ h₄ _ _ _ => ?_
        refine pair_newResource h₄
          (fun var => { var, position := b.position, register := b.attributes.register,
                        binding := b.attributes.binding })
          (fun _ => rfl) (fun _ _ => rfl) fun var var' _ _ h₅ => ?_
        exact (h₅.pair_declareBlock b.id var var').bind
          fun _ _ _ _ h₆ _ _ _ => keeps_pure h₆ trivial

theorem pair_blockVariable (v : Variable) :
    (resourcePairing id?).Keeps (fun _ _ => True) (blockVariable v) (blockVariable v) s t := by
  refine keeps_get_bind ?_
  have hlookup := h.lookup_blocks v.id
  cases hs : s.blocks.lookup v.id with
  | some var =>
    cases ht : t.blocks.lookup v.id with
    | some var' => exact keeps_pure h trivial
    | none => rw [hs, ht] at hlookup; cases hlookup
  | none =>
    cases ht : t.blocks.lookup v.id with
    | some var' => rw [hs, ht] at hlookup; cases hlookup
    | none =>
      dsimp only
      split
      · exact (h.pair_refuse (Q := fun _ _ => False) _ _).bind
          fun _ _ _ _ _ hfalse => hfalse.elim
      · refine (h.pair_moveTo _).bind fun _ _ _ _ h₁ _ _ _ => ?_
        refine (pair_type h₁ _ _).bind fun _ _ _ _ h₂ _ _ _ => ?_
        refine pair_newResource h₂ (resourceOf · v) (fun _ => rfl) (fun _ _ => rfl)
          fun var var' _ _ h₃ => ?_
        exact (h₃.pair_declareBlock v.id var var').bind
          fun _ _ _ _ h₄ _ _ _ => keeps_pure h₄ trivial

/-- There is a push constant in both sessions or in neither, declared at the same place. -/
theorem pair_pushConstant (v : Variable) :
    (resourcePairing id?).Keeps (fun _ _ => True) (Lower.pushConstant v) (Lower.pushConstant v)
      s t := by
  refine keeps_get_bind ?_
  -- one session has a push constant exactly if the other has one
  have hsame := h.pushConstant
  cases hs : s.pushConstant with
  | some first =>
    cases ht : t.pushConstant with
    | none => rw [hs, ht] at hsame; cases hsame
    | some first' =>
      rw [hs, ht] at hsame
      obtain ⟨_, first⟩ := first
      obtain ⟨_, first'⟩ := first'
      cases hsame
      exact (h.pair_report _ _).bind fun _ _ _ _ h₁ _ _ _ => pair_refuse h₁ _ _
  | none =>
    cases ht : t.pushConstant with
    | some first' => rw [hs, ht] at hsame; cases hsame
    | none =>
      cases pushConstantRecord? v.ty with
      | none => exact h.pair_refuse _ _
      | some record =>
        refine (h.pair_moveTo _).bind fun _ _ _ _ h₁ _ _ _ => ?_
        refine (pair_options h₁).bind fun opts _ s₂ t₂ h₂ hoptions _ _ => ?_
        subst hoptions
        refine (pair_blockType h₂ _ _ _ _).bind fun ty ty' _ _ h₃ _ _ _ => ?_
        refine (pair_emit h₃ (Emit.pair_addVariable h₃.emitter _ _)).bind
          fun var var' s₄ t₄ h₄ _ _ _ => ?_
        -- only the remembered push constant changes, in both sessions at the same place
        have hmodify : (resourcePairing id?).Keeps Eq
            (modify fun s => { s with pushConstant := some (var, v.position) } : Lower Unit)
            (modify fun s => { s with pushConstant := some (var', v.position) }) s₄ t₄ :=
          Action.Pairing.keeps_modify { h₄ with pushConstant := rfl }
            { ResourceStep.refl id? s₄ with } { ResourceStep.refl id? t₄ with }
        refine hmodify.bind fun _ _ _ _ h₅ _ _ _ => ?_
        exact (pair_declare h₅ v.id var var').bind fun _ _ _ _ h₆ _ _ _ => keeps_pure h₆ trivial

theorem pair_globalBlock (vs : List Variable) :
    (resourcePairing id?).Keeps (fun _ _ => True) (globalBlock vs) (globalBlock vs) s t := by
  rw [globalBlock]
  split
  · exact keeps_pure h trivial
  · refine h.pair_options.bind fun opts _ s₁ t₁ h₁ hoptions _ _ => ?_
    subst hoptions
    refine (pair_blockType h₁ _ _ _ _).bind fun _ _ _ _ h₂ _ _ _ => ?_
    exact pair_newResource h₂ (fun var => { var, position := {} }) (fun _ => rfl)
      (fun _ _ => rfl) fun _ _ _ _ h₃ => keeps_pure h₃ trivial

/-- The hidden counter is one of the declaration. -/
theorem pair_hiddenCounter (v : Variable) (owner : Nat) :
    (resourcePairing (some v.id)).Keeps (fun _ _ => True) (hiddenCounter v owner)
      (hiddenCounter v owner) s t := by
  have hcounter := Emit.realizes_counterType h.emitter.left
  have hcounter' := Emit.realizes_counterType h.emitter.right
  refine (h.pair_emit (hcounter.pairType hcounter' h.emitter.options)).bind
    fun counter counter' s₁ t₁ h₁ _ hrun hrun' => ?_
  obtain ⟨e, hanswer, rfl⟩ := runOn_emit_eq_ok_iff.1 hrun
  obtain ⟨e', hanswer', rfl⟩ := runOn_emit_eq_ok_iff.1 hrun'
  have harrayed := Emit.realizes_arrayedLike v.ty h₁.emitter.left (hcounter.answer hanswer)
  have harrayed' := Emit.realizes_arrayedLike v.ty h₁.emitter.right (hcounter'.answer hanswer')
  refine (pair_emit h₁ (harrayed.pairType harrayed' h₁.emitter.options)).bind
    fun _ _ _ _ h₂ _ _ _ => ?_
  refine pair_newResource h₂ (fun var => { var, position := v.position, owner := some owner })
    (fun _ => rfl) (fun _ _ => rfl) fun var var' s₃ t₃ h₃ => ?_
  exact (Action.Pairing.keeps_modify (P := resourcePairing (some v.id)) { h₃ with }
    { ResourceStep.refl (some v.id) s₃ with counters := s₃.keepsCounters_cons v.id _ }
    { ResourceStep.refl (some v.id) t₃ with counters := t₃.keepsCounters_cons v.id _ }).mono
    fun _ _ _ => trivial

theorem pair_resourceVariable (v : Variable) (kind : Resource) (elem : Option Ty) :
    (resourcePairing (some v.id)).Keeps (fun _ _ => True) (resourceVariable v kind elem)
      (resourceVariable v kind elem) s t := by
  refine (h.pair_moveTo _).bind fun _ _ _ _ h₁ _ _ _ => ?_
  refine (pair_options h₁).bind fun opts _ s₂ t₂ h₂ hoptions _ _ => ?_
  subst hoptions
  refine (pair_type h₂ _ _).bind fun ty ty' s₃ t₃ h₃ _ _ _ => ?_
  refine (pair_emit h₃ (Emit.pair_addVariable h₃.emitter _ _)).bind
    fun var var' s₄ t₄ h₄ _ hrun hrun' => keeps_get_bind ?_
  rw [length h₄]
  obtain ⟨hlt, hslotted⟩ := slotted_of_addVariable hrun (r := resourceOf var v) rfl
  obtain ⟨hlt', hslotted'⟩ := slotted_of_addVariable hrun' (r := resourceOf var' v) rfl
  refine (pair_addResource h₄ hlt hlt' (hslotted.trans hslotted'.symm)).bind
    fun _ _ _ _ h₅ _ _ _ => ?_
  refine (pair_declare h₅ v.id var var').bind fun _ _ _ _ h₆ _ _ _ => ?_
  split
  · exact (pair_hiddenCounter h₆ v _).bind fun _ _ _ _ h₇ _ _ _ => keeps_pure h₇ trivial
  · exact keeps_pure h₆ trivial

theorem pair_globalVariable (v : Variable) :
    (resourcePairing (some v.id)).Keeps (fun _ _ => True) (globalVariable v) (globalVariable v)
      s t := by
  rw [globalVariable]
  split
  · exact h.pair_pushConstant v
  · split
    · exact h.pair_blockVariable v
    · split
      · split
        · exact h.pair_resourceVariable v _ _
        · exact h.pair_refuse _ _
      · exact h.pair_refuse _ _

/-- Every operation that creates resources does the same to sessions with the same resources. -/
theorem pair_action {op : ResourceOperation} (hop : op ≠ .bindings) :
    (resourcePairing op.id?).Keeps (fun _ _ => True) op.action op.action s t := by
  cases op with
  | block b => exact pair_forget (h.pair_block b)
  | blockVariable v => exact pair_forget (h.pair_blockVariable v)
  | pushConstant v => exact pair_forget (h.pair_pushConstant v)
  | globalBlock vs => exact pair_forget (h.pair_globalBlock vs)
  | globalVariable v => exact pair_forget (h.pair_globalVariable v)
  | bindings => exact absurd rfl hop

end Session.ResourceAlike

/-! ## Bindings -/

namespace Session

variable {s s' t t' : Session} {slots : List ResourceBinding}

/-- Giving out bindings answers, and puts every resource variable into its place. -/
theorem binds_after (hs : s.Sound) :
    (ResourceOperation.bindings.action.runOn s).1 = .ok () ∧
    s.Binds (s.after (.resource .bindings)) (BindingPlan.of s.resources).slots ∧
    (s.after (.resource .bindings)).emitter.options = s.emitter.options := by
  have hrun : ResourceOperation.bindings.action.runOn s = _ := Lower.runOn_forget _ s
  have hstep := (Lower.keeps_decorateBindings hs).step.emitter.options
  rw [Lower.runOn_decorateBindings hs] at hrun hstep
  have hafter : s.after (.resource .bindings) = _ := congrArg Prod.snd hrun
  rw [hafter]
  exact ⟨congrArg Prod.fst hrun, binds_foldl hs (slotsFor_plan hs.counters) _, hstep⟩

/-- Every resource variable is in the slot that it was put into last. -/
theorem Binds.slotted (hbinds : s.Binds s' slots) {i : Nat} {r : ResourceVariable}
    {slot : ResourceBinding} (hr : s.resources[i]? = some r) (hslot : slots[i]? = some slot) :
    s'.slotted r = (r.unnumbered,
      (s.slotted r).2.map fun old => (old.1, some slot.set, some slot.binding)) := by
  obtain ⟨v, hv, hv'⟩ := hbinds.decorated i r slot hr hslot
  rw [Session.slotted, Session.slotted, hv, hv', Option.map_some]
  exact congrArg (fun slot => (_, some slot)) (v.slot_gaining_binding slot.set slot.binding)

/-- Giving out bindings leaves everything but the emitter alone. -/
theorem Binds.keeps (hbinds : s.Binds s' slots)
    (hoptions : s'.emitter.options = s.emitter.options) :
    s.KeepsInterface s' ∧ ∀ id?, s.KeepsCounters id? s' := by
  rw [hbinds.frame]
  exact ⟨⟨hoptions, rfl, rfl, rfl, rfl, rfl⟩, fun _ _ _ => rfl⟩

/-- Corresponding variables are put into the same slots. -/
theorem ResourceAlike.of_binds (h : s.ResourceAlike t) (hs' : s'.Sound) (ht' : t'.Sound)
    (hoptions : s'.emitter.options = t'.emitter.options) (hbinds : s.Binds s' slots)
    (hbinds' : t.Binds t' slots) : s'.ResourceAlike t' := by
  have hresources : s'.resources = s.resources := by rw [hbinds.frame]
  have hresources' : t'.resources = t.resources := by rw [hbinds'.frame]
  refine ⟨⟨hs'.emitter, ht'.emitter, hoptions⟩, ?_, ?_, ?_, hs'.holdsResources,
    ht'.holdsResources⟩
  · rw [hresources, hresources']
    refine List.ext_getElem? fun i => ?_
    have hboth := congrArg (·[i]?) h.resources
    simp only [List.getElem?_map] at hboth ⊢
    cases hr : s.resources[i]? with
    | none =>
      cases hu : t.resources[i]? with
      | none => rfl
      | some u => rw [hr, hu] at hboth; cases hboth
    | some r =>
      cases hu : t.resources[i]? with
      | none => rw [hr, hu] at hboth; cases hboth
      | some u =>
        rw [hr, hu] at hboth
        have hsame : s.slotted r = t.slotted u := Option.some.inj hboth
        have hlt : i < slots.length := by
          rw [hbinds.places.length]
          exact (List.getElem?_eq_some_iff.1 hr).1
        have hslot := List.getElem?_eq_getElem hlt
        have hunnumbered : r.unnumbered = u.unnumbered := congrArg Prod.fst hsame
        rw [Option.map_some, Option.map_some, hbinds.slotted hr hslot, hbinds'.slotted hu hslot,
          hsame, hunnumbered]
  · rw [hbinds.frame, hbinds'.frame]
    exact h.blocks
  · rw [hbinds.frame, hbinds'.frame]
    exact h.pushConstant

/-! ## Single operations -/

/-- An operation on resources leaves sessions with the same resources alike, and answers or fails
alike. -/
theorem ResourceAlike.after (h : s.ResourceAlike t) (hs : s.Sound) (ht : t.Sound)
    (op : ResourceOperation) :
    (s.after (.resource op)).ResourceAlike (t.after (.resource op)) ∧
    Action.Agree (fun _ _ => True) (op.action.runOn s).1 (op.action.runOn t).1 := by
  by_cases hop : op = .bindings
  · subst hop
    obtain ⟨hanswer, hbinds, hoptions⟩ := binds_after hs
    obtain ⟨hanswer', hbinds', hoptions'⟩ := binds_after ht
    have hplan : BindingPlan.of t.resources = BindingPlan.of s.resources := by
      rw [← BindingPlan.of_unnumbered, ← h.unnumbered, BindingPlan.of_unnumbered]
    rw [hplan] at hbinds'
    refine ⟨h.of_binds (hs.after _) (ht.after _) ?_ hbinds hbinds', ?_⟩
    · rw [hoptions, hoptions', h.emitter.options]
    · rw [hanswer, hanswer']
      exact trivial
  · exact ⟨(h.pair_action hop).alike, (h.pair_action hop).agree⟩

/-- An operation on resources leaves the interface and the counters of other declarations alone. -/
theorem keepsInterface_after (hs : s.Sound) (op : ResourceOperation) :
    s.KeepsInterface (s.after (.resource op)) ∧
      s.KeepsCounters op.id? (s.after (.resource op)) := by
  by_cases hop : op = .bindings
  · subst hop
    obtain ⟨-, hbinds, hoptions⟩ := binds_after hs
    exact ⟨(hbinds.keeps hoptions).1, (hbinds.keeps hoptions).2 _⟩
  · have hstep := ((ResourceAlike.refl hs).pair_action hop).left
    exact ⟨hstep.toKeepsInterface, hstep.counters⟩

end Session

end ShaderLowering
