import ShaderLowering.Proofs.Session.Bindings
import ShaderLowering.Proofs.Session.Books
import ShaderLowering.Proofs.Session.Operations

/-!
# Reports of operations on resources and aliases

The operations that create variables for resources, and those that declare variables that may alias
one, have reported an error wherever they fail with one.  Giving out bindings answers `false` only
after an error was reported.
-/

namespace ShaderLowering

open Source (Ty Field Block Variable Resource Position)
open Spirv (TypeId VariableId StorageClass)
open Action.Contract (keeps_throw)
open Action.Ledger (settles_pure accounts_get_bind)

namespace Emit

variable {options : Options} {allowed : EmissionKey → Prop} {e : Emitter}

theorem settles_arrayedLike (base : TypeId) : (ty : Ty) → {e : Emitter} → e.options = options →
    (ledger options allowed).Settles (arrayedLike base ty) e
  | .alias _ target, _, he => by
    rw [arrayedLike]
    exact settles_arrayedLike base target he
  | .oriented _ target, _, he => by
    rw [arrayedLike]
    exact settles_arrayedLike base target he
  | .array elem (some n), _, he => by
    rw [arrayedLike]
    exact (settles_arrayedLike base elem he).bind fun _ _ he₁ _ =>
      (settles_onTarget he₁ _).bind fun _ _ he₂ _ => settles_onTarget he₂ _
  | .array elem none, _, he => by
    rw [arrayedLike]
    exact (settles_arrayedLike base elem he).bind fun _ _ he₁ _ => settles_onTarget he₁ _
  | .void, _, he | .scalar _, _, he | .vector _ _, _, he | .matrix _ _ _, _, he
  | .struct _ _ _, _, he | .resource _ _, _, he => settles_pure he _

theorem settles_aliasCounter (he : e.options = options) (storage : StorageClass)
    (site : CounterSite) : (ledger options allowed).Settles (aliasCounter storage site) e := by
  refine (settles_counterType he).bind fun _ _ he₁ _ => ?_
  refine (settles_onTarget he₁ _).bind fun _ _ he₂ _ => ?_
  exact (settles_onTarget he₂ _).bind fun _ _ he₃ _ => settles_pure he₃ _

end Emit

namespace Lower

variable {stage : Stage} {options : Options} {allowed : EmissionKey → Prop} {α : Type}
  {s : Session}

/-! ## Resources -/

theorem settles_options (hs : s.At stage options) :
    (errorLedger stage options).Settles Lower.options s :=
  accounts_get_bind (settles_pure hs _)

theorem settles_type (hs : s.At stage options) (ty : Ty) (rule : Layout.Rule) :
    (errorLedger stage options).Settles (emit (.type ty rule)) s :=
  accounts_emit hs.2 (Emit.settles_ofTy_expecting ty rule {} none hs.1)

theorem settles_blockType (hs : s.At stage options) (name : String) (parts : List Field)
    (rule : Layout.Rule) (role : BlockRole) :
    (errorLedger stage options).Settles (emit (.blockType name parts rule role)) s :=
  accounts_emit hs.2 (Emit.settles_blockType hs.1 name parts rule role)

theorem settles_moveTo (hs : s.At stage options) (position : Position) :
    (errorLedger stage options).Settles (emit (.moveTo position)) s :=
  accounts_emit hs.2 (Emit.settles_moveTo hs.1 position).weak

theorem settles_addVariable (hs : s.At stage options) (v : Spirv.Variable) :
    (errorLedger stage options).Settles (emit (.addVariable v)) s :=
  accounts_emit hs.2 (Emit.settles_onTarget hs.1 _).weak

theorem settles_counterType (hs : s.At stage options) :
    (errorLedger stage options).Settles (emit .counterType) s :=
  accounts_emit hs.2 (Emit.settles_counterType hs.1).weak

theorem settles_refuse (hs : s.At stage options) {f : Finding} (hf : f.severity.isError = true)
    (position : Position) : (errorLedger stage options).Settles (refuse f position : Lower α) s :=
  (accounts_refuse (P := fun _ => False) hs hf position).weak

theorem settles_declareBlock (hs : s.At stage options) (id : Nat) (var : VariableId) :
    (errorLedger stage options).Settles (declareBlock id var) s :=
  (settles_modify_rest hs rfl rfl).bind fun _ _ hs₁ _ => settles_modify_rest hs₁ rfl rfl

theorem settles_block (hs : s.At stage options) (b : Block) :
    (errorLedger stage options).Settles (block b) s := by
  refine accounts_get_bind ?_
  split
  · exact settles_pure hs _
  dsimp only
  have hgrave : Grave ((b.fields.toList.filter (·.ty.isResourceArray)).map
      fun f => (.resourceInBlock f.name b.kind b.name, f.position)) := by
    refine grave_of_forall fun f hf => ?_
    obtain ⟨field, -, rfl⟩ := List.mem_map.1 hf
    rfl
  -- fields that are resources are reported, and then nothing is done
  refine ((owes_reportAll hs hgrave).weak_of_imp fun _ h => h).bind_owing
    (fun _ _ hs₁ _ hnone => ?_) fun _ _ hs₁ _ hsome => ?_
  · rw [ne_eq, Classical.not_not, List.map_eq_nil_iff] at hnone
    rw [hnone]
    refine (settles_options hs₁).bind fun _ _ hs₂ _ => ?_
    refine (settles_moveTo hs₂ _).bind fun _ _ hs₃ _ => ?_
    refine (settles_blockType hs₃ _ _ _ _).bind fun _ _ hs₄ _ => ?_
    refine (settles_addVariable hs₄ _).bind fun _ _ hs₅ _ => ?_
    refine (settles_modify_rest hs₅ rfl rfl).bind fun _ _ hs₆ _ => ?_
    exact (settles_declareBlock hs₆ _ _).bind fun _ _ hs₇ _ => settles_pure hs₇ _
  · rw [ne_eq, List.map_eq_nil_iff] at hsome
    rw [if_pos (by simpa using hsome)]
    exact ⟨(keeps_throw hs₁ _).bind fun _ _ _ _ h => (by cases h), fun _ h => by cases h⟩

theorem settles_blockVariable (hs : s.At stage options) (v : Variable) :
    (errorLedger stage options).Settles (blockVariable v) s := by
  refine accounts_get_bind ?_
  split
  · exact settles_pure hs _
  · split
    · exact (settles_refuse hs rfl _).bind fun _ _ _ h => (by cases h)
    · refine (settles_moveTo hs _).bind fun _ _ hs₁ _ => ?_
      refine (settles_type hs₁ _ _).bind fun _ _ hs₂ _ => ?_
      refine (settles_addVariable hs₂ _).bind fun _ _ hs₃ _ => ?_
      refine (settles_modify_rest hs₃ rfl rfl).bind fun _ _ hs₄ _ => ?_
      exact (settles_declareBlock hs₄ _ _).bind fun _ _ hs₅ _ => settles_pure hs₅ _

/-- The place of the first push constant is told after the error about the second one. -/
theorem settles_pushConstant (hs : s.At stage options) (v : Variable) :
    (errorLedger stage options).Settles (pushConstant v) s := by
  refine accounts_get_bind ?_
  split
  · have hreport :
        (errorLedger stage options).Owes True (report .secondPushConstant v.position) s :=
      (owes_report hs rfl _).weak_of_imp fun _ h => h
    refine hreport.bind_counted fun _ s₁ hs₁ => ⟨?_, fun _ h => by cases h⟩
    exact (accounts_emit hs₁.2 (Emit.settles_report hs₁.1 rfl _).weak).toKeeps.bind
      fun _ _ hs₂ _ _ => keeps_throw hs₂ _
  · exact settles_refuse hs rfl _
  · refine (settles_moveTo hs _).bind fun _ _ hs₁ _ => ?_
    refine (settles_options hs₁).bind fun _ _ hs₂ _ => ?_
    refine (settles_blockType hs₂ _ _ _ _).bind fun _ _ hs₃ _ => ?_
    refine (settles_addVariable hs₃ _).bind fun _ _ hs₄ _ => ?_
    refine (settles_modify_rest hs₄ rfl rfl).bind fun _ _ hs₅ _ => ?_
    exact (settles_modify_rest hs₅ rfl rfl).bind fun _ _ hs₆ _ => settles_pure hs₆ _

theorem settles_globalBlock (hs : s.At stage options) (vs : List Variable) :
    (errorLedger stage options).Settles (globalBlock vs) s := by
  rw [globalBlock]
  split
  · exact settles_pure hs _
  · refine (settles_options hs).bind fun _ _ hs₁ _ => ?_
    refine (settles_blockType hs₁ _ _ _ _).bind fun _ _ hs₂ _ => ?_
    refine (settles_addVariable hs₂ _).bind fun _ _ hs₃ _ => ?_
    exact (settles_modify_rest hs₃ rfl rfl).bind fun _ _ hs₄ _ => settles_pure hs₄ _

theorem settles_hiddenCounter (hs : s.At stage options) (v : Variable) (owner : Nat) :
    (errorLedger stage options).Settles (hiddenCounter v owner) s := by
  refine (settles_counterType hs).bind fun _ _ hs₁ _ => ?_
  refine (accounts_emit hs₁.2 (Emit.settles_arrayedLike _ _ hs₁.1).weak).bind fun _ _ hs₂ _ => ?_
  refine (settles_addVariable hs₂ _).bind fun _ _ hs₃ _ => ?_
  exact (settles_modify_rest hs₃ rfl rfl).bind fun _ _ hs₄ _ => settles_modify_rest hs₄ rfl rfl

theorem settles_resourceVariable (hs : s.At stage options) (v : Variable) (kind : Resource)
    (elem : Option Ty) :
    (errorLedger stage options).Settles (resourceVariable v kind elem) s := by
  refine (settles_moveTo hs _).bind fun _ _ hs₁ _ => ?_
  refine (settles_options hs₁).bind fun _ _ hs₂ _ => ?_
  refine (settles_type hs₂ _ _).bind fun _ _ hs₃ _ => ?_
  refine (settles_addVariable hs₃ _).bind fun _ _ hs₄ _ => accounts_get_bind ?_
  refine (settles_modify_rest hs₄ rfl rfl).bind fun _ _ hs₅ _ => ?_
  refine (settles_modify_rest hs₅ rfl rfl).bind fun _ _ hs₆ _ => ?_
  split
  · exact (settles_hiddenCounter hs₆ _ _).bind fun _ _ hs₇ _ => settles_pure hs₇ _
  · exact settles_pure hs₆ _

theorem settles_globalVariable (hs : s.At stage options) (v : Variable) :
    (errorLedger stage options).Settles (globalVariable v) s := by
  rw [globalVariable]
  split
  · exact settles_pushConstant hs v
  · split
    · exact settles_blockVariable hs v
    · split
      · split
        · exact settles_resourceVariable hs v _ _
        · exact settles_refuse hs rfl _
      · exact settles_refuse hs rfl _

/-! ## Bindings -/

theorem grave_repeatedBindings (claimed : List (Spirv.ResourceBinding × Position)) :
    (claims : List (Spirv.ResourceBinding × Position)) → Grave (repeatedBindings claimed claims)
  | [] => fun h => absurd rfl h
  | (slot, position) :: rest => by
    rw [repeatedBindings.eq_def]
    dsimp only
    split
    · exact grave_repeatedBindings _ rest
    · exact fun _ => ⟨_, List.mem_cons_self, rfl⟩

theorem bound_foldl_books (l : List (ResourceVariable × Spirv.ResourceBinding)) (s : Session) :
    (l.foldl Session.bound s).emitter.log = s.emitter.log ∧
      (l.foldl Session.bound s).emitter.known = s.emitter.known ∧
      (l.foldl Session.bound s).emitter.options = s.emitter.options ∧
      (l.foldl Session.bound s).stage = s.stage := by
  induction l generalizing s with
  | nil => exact ⟨rfl, rfl, rfl, rfl⟩
  | cons p rest ih => exact ih (s.bound p)

theorem judges_decorateBindings (hs : s.At stage options) (hsound : s.Sound) :
    (ledger stage options allowed).Judges decorateBindings s := by
  obtain ⟨hlog, hknown, hoptions, hstage⟩ := bound_foldl_books
    (s.resources.zip (BindingPlan.of s.resources).slots)
    (s.reported (BindingPlan.of s.resources).findings)
  exact judges_of_findings (runOn_decorateBindings hsound) (grave_repeatedBindings [] _)
    ⟨hoptions.trans hs.1, hstage.trans hs.2⟩ hlog hknown

/-! ## Aliases -/

theorem settles_aliasType (hs : s.At stage options) (ty : Ty) :
    (errorLedger stage options).Settles (aliasType ty) s := by
  refine (settles_type hs _ _).bind fun _ _ hs₁ _ => ?_
  split
  · exact (settles_modify_rest hs₁ rfl rfl).bind fun _ _ hs₂ _ => settles_pure hs₂ _
  · exact settles_pure hs₁ _

theorem settles_aliasCounters (hs : s.At stage options) (id : Nat) (storage : StorageClass)
    (sites : List CounterSite) :
    (errorLedger stage options).Settles (aliasCounters id storage sites) s := by
  refine (Action.Ledger.settles_mapM sites (fun site _ hs =>
    accounts_emit hs.2 (Emit.settles_aliasCounter hs.1 storage site).weak) hs).bind
      fun _ _ hs₁ _ => ?_
  split
  · exact settles_modify_rest hs₁ rfl rfl
  · exact settles_pure hs₁ _

theorem settles_aliasable (hs : s.At stage options) (id : Nat) (name : String) (ty : Ty)
    (storage : StorageClass) (position : Position) :
    (errorLedger stage options).Settles (aliasable id name ty storage position) s := by
  refine (settles_moveTo hs _).bind fun _ _ hs₁ _ => ?_
  refine (settles_aliasType hs₁ _).bind fun _ _ hs₂ _ => ?_
  refine (settles_options hs₂).bind fun _ _ hs₃ _ => ?_
  refine (settles_addVariable hs₃ _).bind fun _ _ hs₄ _ => ?_
  refine (settles_modify_rest hs₄ rfl rfl).bind fun _ _ hs₅ _ => ?_
  split
  · exact (settles_aliasCounters hs₅ _ _ _).bind fun _ _ hs₆ _ => settles_pure hs₆ _
  · exact settles_pure hs₅ _

theorem settles_create (hs : s.At stage options) (d : LocalDeclaration) :
    (errorLedger stage options).Settles d.create s := by
  cases d with
  | function v => exact settles_aliasable hs _ _ _ _ _
  | param p => exact settles_aliasable hs _ _ _ _ _
  | file v =>
    show (errorLedger stage options).Settles (fileVariable v) s
    rw [fileVariable.eq_def]
    split
    · exact settles_aliasable hs _ _ _ _ _
    · exact settles_aliasable hs _ _ _ _ _
    · exact settles_refuse hs rfl _
    · exact settles_refuse hs rfl _

end Lower

end ShaderLowering
