import ShaderLowering.Proofs.Session.Books
import ShaderLowering.Proofs.Session.Locations

/-!
# Reports of operations on the interface

Every operation on the interface is walked through with the books open.  It answers `false` only
after it has reported an error, and where it answers `true`, the errors that it reported are those
of the flawed types that it emitted for the first time.
-/

namespace ShaderLowering

open Source (Ty Field Param Function EntryPoint Position)
open Spirv (TypeId Builtin)
open Action.Ledger (Accounts judges_true settles_pure settles_ofChecked settles_modify
  accounts_get_bind)

/-- The structures and resources that are emitted for a leaf. -/
def InterfaceLeaf.emitted (options : Options) (l : InterfaceLeaf) : List EmissionKey :=
  l.decl.ty.onInterface.emitted options .unlaid {}

/-- The structures and resources that are emitted for the leaves of an entry point. -/
def Source.EntryPoint.emitted (options : Options) (e : EntryPoint) : List EmissionKey :=
  e.loweredLeaves.flatMap (·.emitted options)

/-! ## Emission for the interface -/

namespace Emit

variable {options : Options} {allowed : EmissionKey → Prop} {e : Emitter}

theorem settles_overVertices (he : e.options = options) (base : TypeId) (vertices : Option Nat) :
    (ledger options allowed).Settles (overVertices base vertices) e := by
  cases vertices with
  | none => exact settles_pure he _
  | some count =>
    exact (settles_onTarget he _).bind fun _ _ he₁ _ => settles_onTarget he₁ _

theorem settles_interfaceType (he : e.options = options) (ty : Ty) (vertices : Option Nat)
    (h : ∀ key ∈ ty.emitted options .unlaid {}, allowed key) :
    (ledger options allowed).Settles (interfaceType ty vertices) e :=
  (settles_ofTy ty .unlaid {} h he).bind fun _ _ he₁ _ => settles_overVertices he₁ _ _

theorem settles_builtinVariable (he : e.options = options) (decl : Field) (b : Builtin)
    (c : InterfaceContext)
    (h : ∀ key ∈ decl.ty.onInterface.emitted options .unlaid {}, allowed key) :
    (ledger options allowed).Settles (builtinVariable decl b c) e := by
  have hty : ∀ key ∈ (builtinType b decl.ty).emitted options .unlaid {}, allowed key := by
    rw [builtinType.eq_def]
    split
    · exact List.forall_mem_nil _
    · exact List.forall_mem_nil _
    · exact List.forall_mem_nil _
    · exact h
  exact (settles_moveTo he _).bind fun _ _ he₁ _ =>
    (settles_interfaceType he₁ _ _ hty).bind fun _ _ he₂ _ => settles_onTarget he₂ _

theorem settles_requireSampling (he : e.options = options) (decl : Field) (c : InterfaceContext) :
    (ledger options allowed).Settles (requireSampling decl c) e := by
  rw [requireSampling]
  split
  · exact settles_require he _
  · exact settles_pure he _

theorem settles_declareNarrow (he : e.options = options) (opts : Options) (ty : Ty) :
    (ledger options allowed).Settles (declareNarrow opts ty) e := by
  rw [declareNarrow]
  split
  · exact settles_declare he _ _
  · exact settles_pure he _

theorem settles_locatedVariable (he : e.options = options) (decl : Field) (semantic : Semantic)
    (c : InterfaceContext)
    (h : ∀ key ∈ decl.ty.onInterface.emitted options .unlaid {}, allowed key) :
    (ledger options allowed).Settles (locatedVariable decl semantic c) e := by
  rw [locatedVariable_eq]
  refine accounts_get_bind ((settles_moveTo he _).bind fun _ _ he₁ _ => ?_)
  refine (settles_interfaceType he₁ _ _ h).bind fun _ _ he₂ _ => ?_
  refine (settles_requireSampling he₂ decl c).bind fun _ _ he₃ _ => ?_
  refine (settles_declareNarrow he₃ _ _).bind fun _ _ he₄ _ => ?_
  refine (settles_ofChecked he₄ _).bind fun _ _ he₅ _ => ?_
  exact (settles_onTarget he₅ _).bind fun _ _ he₆ _ => settles_pure he₆ _

theorem settles_distanceArray (he : e.options = options) (direction : Direction)
    (kind : DistanceKind) (total : Nat) (vertices : Option Nat) :
    (ledger options allowed).Settles (distanceArray direction kind total vertices) e := by
  refine (settles_onTarget he _).bind fun _ _ he₁ _ => ?_
  refine (settles_onTarget he₁ _).bind fun _ _ he₂ _ => ?_
  refine (settles_onTarget he₂ _).bind fun _ _ he₃ _ => ?_
  refine (settles_overVertices he₃ _ _).bind fun _ _ he₄ _ => ?_
  refine (settles_onTarget he₄ _).bind fun _ _ he₅ _ => ?_
  exact (settles_require he₅ _).bind fun _ _ he₆ _ => settles_pure he₆ _

theorem settles_distanceArraysFor (inputVertices outputVertices : Option Nat) :
    (keys : List (Direction × DistanceKind)) → (a : DistanceArrays) → {e : Emitter} →
    e.options = options →
    (ledger options allowed).Settles (distanceArraysFor inputVertices outputVertices keys a) e
  | [], _, _, he => settles_pure he _
  | (direction, kind) :: rest, a, e, he => by
    rw [distanceArraysFor.eq_def]
    dsimp only
    split
    · exact settles_distanceArraysFor inputVertices outputVertices rest a he
    · exact (settles_distanceArray he _ _ _ _).bind fun _ _ he₁ _ =>
        (settles_distanceArraysFor inputVertices outputVertices rest _ he₁).bind
          fun _ _ he₂ _ => settles_pure he₂ _

end Emit

namespace Lower

variable {stage : Stage} {options : Options} {allowed : EmissionKey → Prop} {s : Session}

/-! ## Leaves -/

variable {decl : Field} {semantic : Option Semantic} {c : InterfaceContext} {b : Builtin}
  {p : Param} {perPatch : Bool}

theorem settles_builtinVariable (hs : s.At stage options) (decl : Field) (b : Builtin)
    (c : InterfaceContext)
    (h : ∀ key ∈ decl.ty.onInterface.emitted options .unlaid {}, allowed key) :
    (ledger stage options allowed).Settles (builtinVariable decl b c) s := by
  refine accounts_get_bind ?_
  split
  · exact settles_pure hs _
  · exact (accounts_emit hs.2 (Emit.settles_builtinVariable hs.1 decl b c h)).bind
      fun _ _ hs₁ _ => (settles_modify_rest hs₁ rfl rfl).bind fun _ _ hs₂ _ => settles_pure hs₂ _

theorem settles_createBuiltin (hs : s.At stage options)
    (h : ∀ key ∈ decl.ty.onInterface.emitted options .unlaid {}, allowed key) :
    (ledger stage options allowed).Settles (createBuiltin decl semantic b c) s := by
  refine (settles_builtinVariable hs decl b c h).bind fun r _ hs₁ _ => ?_
  dsimp only
  split
  · exact settles_modify_rest hs₁ rfl rfl
  · exact settles_pure hs₁ ()

theorem settles_createLocated (hs : s.At stage options) (semantic : Semantic)
    (h : ∀ key ∈ decl.ty.onInterface.emitted options .unlaid {}, allowed key) :
    (ledger stage options allowed).Settles (createLocated decl semantic c) s :=
  (accounts_emit hs.2 (Emit.settles_locatedVariable hs.1 decl semantic c h)).bind
    fun _ _ hs₁ _ => settles_modify_rest hs₁ rfl rfl

/-- Everything that can be wrong with a placement is an error. -/
theorem isError_of_placementOf {point : SignaturePoint} {finding : Finding}
    (h : placementOf stage point decl semantic = .error finding) :
    finding.severity.isError = true := by
  rw [placementOf.eq_def] at h
  split at h
  · split at h
    · cases h
      rfl
    · split at h <;> cases h
      rfl
  · cases h
    rfl
  · split at h
    · cases h
      rfl
    · split at h <;> cases h
      rfl

theorem judges_createLeaf (hs : s.At stage options)
    (h : ∀ key ∈ decl.ty.onInterface.emitted options .unlaid {}, allowed key) :
    (ledger stage options allowed).Judges (createLeaf decl semantic c) s := by
  refine accounts_get_bind ?_
  split
  · rename_i finding hfinding
    exact judges_report_false hs (isError_of_placementOf hfinding) _
  · refine (accounts_emit hs.2 (Emit.settles_declare hs.1 _ _)).bind fun _ _ hs₁ _ => ?_
    split
    · exact judges_true hs₁
    · exact (settles_createBuiltin hs₁ h).succeeds
    · exact (settles_createLocated hs₁ _ h).succeeds
    · exact judges_true hs₁

/-! ## Declarations -/

theorem judges_createItem (hs : s.At stage options) (item : InterfaceItem)
    (h : ∀ l ∈ item.leaf? c.point, ∀ key ∈ l.emitted options, allowed key) :
    (ledger stage options allowed).Judges (createItem c item) s := by
  cases item with
  | leaf decl semantic => exact judges_createLeaf hs (h _ rfl)
  | remark finding position =>
    cases hfinding : finding.severity.isError with
    | true =>
      show (ledger stage options allowed).Judges
        (do report finding position; return !finding.severity.isError) s
      rw [hfinding]
      exact judges_report_false hs hfinding position
    | false =>
      refine (accounts_emit hs.2 (Emit.settles_report hs.1 hfinding position)).bind
        fun _ _ hs₁ _ => ?_
      rw [hfinding]
      exact judges_true hs₁

theorem judges_createItems : (items : List InterfaceItem) → {s : Session} → s.At stage options →
    (∀ l ∈ items.filterMap (·.leaf? c.point), ∀ key ∈ l.emitted options, allowed key) →
    (ledger stage options allowed).Judges (createItems c items) s
  | [], _, hs, _ => judges_true hs
  | item :: rest, _, hs, h => by
    have hitem : ∀ l ∈ item.leaf? c.point, ∀ key ∈ l.emitted options, allowed key := fun l hl =>
      h l (List.mem_filterMap.2 ⟨item, List.mem_cons_self, hl⟩)
    refine (judges_createItem hs item hitem).both fun _ _ hs₁ _ =>
      judges_createItems rest hs₁ fun l hl => ?_
    obtain ⟨item', hitem', hl⟩ := List.mem_filterMap.1 hl
    exact h l (List.mem_filterMap.2 ⟨item', List.mem_cons_of_mem _ hitem', hl⟩)

theorem judges_createDeclaration (hs : s.At stage options) (decl : Field)
    (point : Option SignaturePoint) (vertices invocation : Option Nat)
    (h : ∀ l ∈ InterfaceLeaf.ofDeclaration decl point, ∀ key ∈ l.emitted options, allowed key) :
    (ledger stage options allowed).Judges (createDeclaration decl point vertices invocation) s := by
  rw [createDeclaration.eq_def]
  rw [InterfaceLeaf.ofDeclaration.eq_def] at h
  split
  · exact judges_true hs
  · rename_i hvoid
    rw [if_neg hvoid] at h
    cases point with
    | none => exact accounts_get_bind (judges_report_false hs rfl _)
    | some point => exact judges_createItems _ hs h

theorem judges_createInput (hs : s.At stage options)
    (h : ∀ l ∈ p.inputLeaves stage perPatch, ∀ key ∈ l.emitted options, allowed key) :
    (ledger stage options allowed).Judges (createInput p perPatch) s := by
  rw [createInput]
  rw [Param.inputLeaves] at h
  split
  · exact judges_true hs
  · rename_i hstream
    rw [if_neg hstream] at h
    refine accounts_get_bind ?_
    dsimp only
    rw [hs.2]
    rcases hvertex : p.perVertex stage perPatch with ⟨_ | ty, vertices⟩ <;> rw [hvertex] at h
    · exact judges_true hs
    · exact judges_createDeclaration hs _ _ _ _ h

theorem judges_createOutput (hs : s.At stage options)
    (h : ∀ l ∈ p.outputLeaves stage perPatch, ∀ key ∈ l.emitted options, allowed key) :
    (ledger stage options allowed).Judges (createOutput p perPatch) s := by
  rw [Param.outputLeaves] at h
  refine accounts_get_bind ?_
  dsimp only
  rw [hs.2]
  split
  · rename_i hhull
    rw [if_pos hhull] at h
    refine accounts_get_bind ?_
    split
    · exact judges_report_false hs rfl _
    · exact judges_createDeclaration hs _ _ _ _ h
  · rename_i hhull
    rw [if_neg hhull] at h
    cases hty : (p.perVertex stage perPatch).1 with
    | none => exact judges_true hs
    | some ty =>
      rw [hty] at h
      exact judges_createDeclaration hs _ _ _ _ h

/-! ## Locations -/

theorem grave_repeatedSemantics (direction : Direction) (seen : List (String × Position)) :
    (vs : List InterfaceVariable) → Grave (repeatedSemantics direction seen vs)
  | [] => fun h => absurd rfl h
  | v :: rest => by
    rw [repeatedSemantics.eq_def]
    dsimp only
    split
    · exact grave_repeatedSemantics direction _ rest
    · split
      · exact grave_repeatedSemantics direction _ rest
      · exact fun _ => ⟨_, List.mem_cons_self, rfl⟩

theorem judges_checkSemantics (hs : s.At stage options) (direction : Direction) :
    (ledger stage options allowed).Judges (checkSemantics direction) s :=
  accounts_get_bind (judges_reportAll hs (grave_repeatedSemantics direction [] _))

theorem known_settled_foldl (ps : List Placing) (s : Session) :
    (ps.foldl Session.settled s).emitter.known = s.emitter.known := by
  induction ps generalizing s with
  | nil => rfl
  | cons p rest ih => exact ih (s.settled p)

theorem stage_settled_foldl (ps : List Placing) (s : Session) :
    (ps.foldl Session.settled s).stage = s.stage :=
  (congrArg Session.stage (Session.settled_foldl_frame ps s).1 :)

theorem judges_assignLocations (hs : s.At stage options) (hsound : s.Sound)
    (direction : Direction) :
    (ledger stage options allowed).Judges (assignLocations direction) s := by
  cases hplan : LocationPlan.of s.emitter.options.order direction s.interface with
  | error f => exact Action.Ledger.accounts_of_fault hs (runOn_assignLocations_of_error hplan)
  | ok plan =>
    obtain ⟨ps, hps⟩ := LocationPlan.serves_of hplan
    refine judges_of_findings (runOn_assignLocations hsound hplan hps)
      (grave_of_forall fun f hf => ?_)
      ⟨(Session.options_settled_foldl ps s).trans hs.1, (stage_settled_foldl ps s).trans hs.2⟩ ?_
      (known_settled_foldl ps s)
    · obtain ⟨location, hlocation⟩ := hps.taken f hf
      rw [hlocation]
      rfl
    · show DiagnosticLog.mk _ = DiagnosticLog.mk _
      rw [(Session.settled_foldl_frame ps s).2]

theorem decorateLocations_eq : decorateLocations =
    Action.both (checkSemantics .input) (Action.both (checkSemantics .output)
      (Action.both (assignLocations .input) (assignLocations .output))) := by
  simp only [decorateLocations, Action.both, bind_assoc, pure_bind, Bool.and_assoc]

theorem judges_decorateLocations (hs : s.At stage options) (hsound : s.Sound) :
    (ledger stage options allowed).Judges decorateLocations s := by
  rw [decorateLocations_eq]
  refine (judges_checkSemantics hs .input).both fun _ s₁ hs₁ h₁ => ?_
  have hsound₁ := ((keeps_checkSemantics hsound .input).of_run h₁).1
  refine (judges_checkSemantics hs₁ .output).both fun _ s₂ hs₂ h₂ => ?_
  have hsound₂ := ((keeps_checkSemantics hsound₁ .output).of_run h₂).1
  refine (judges_assignLocations hs₂ hsound₂ .input).both fun _ s₃ hs₃ h₃ => ?_
  exact judges_assignLocations hs₃ ((keeps_assignLocations hsound₂ .input).of_run h₃).1 .output

/-! ## Distances -/

theorem isError_of_recordLeaf {a : DistanceArrays} {direction : Direction} {leaf : DistanceLeaf}
    {finding : Finding} (h : a.recordLeaf direction leaf = .error finding) :
    finding.severity.isError = true := by
  rw [DistanceArrays.recordLeaf] at h
  split at h
  · cases h
  · split at h
    · cases h
    · split at h
      · cases h
        rfl
      · dsimp only at h
        split at h
        · cases h
        · split at h <;> cases h
          rfl

theorem isError_of_mem_recordLeaves {direction : Direction} : (leaves : List DistanceLeaf) →
    {a : DistanceArrays} → ∀ f ∈ (a.recordLeaves direction leaves).1, f.1.severity.isError = true
  | [], _, _, hf => by cases hf
  | leaf :: rest, a, f, hf => by
    rw [DistanceArrays.recordLeaves] at hf
    split at hf
    · exact isError_of_mem_recordLeaves rest f hf
    · rename_i hleaf
      rcases List.mem_cons.1 hf with rfl | hf
      · exact isError_of_recordLeaf hleaf
      · exact isError_of_mem_recordLeaves rest f hf

theorem judges_recordIn (hs : s.At stage options) (direction : Direction) (ty : Ty) (p : Param) :
    (ledger stage options allowed).Judges (recordIn direction ty p) s := by
  refine accounts_get_bind ((settles_modify_rest hs rfl rfl).bind fun _ _ hs₁ _ => ?_)
  exact judges_reportAll hs₁ (grave_of_forall (isError_of_mem_recordLeaves _))

theorem judges_recordIf (hs : s.At stage options) (flows : Bool) (direction : Direction) (ty : Ty)
    (p : Param) : (ledger stage options allowed).Judges (recordIf flows direction ty p) s := by
  rw [recordIf]
  split
  · exact judges_recordIn hs _ _ _
  · exact judges_true hs

theorem judges_recordDistances (hs : s.At stage options) (p : Param) (perPatch : Bool) :
    (ledger stage options allowed).Judges (recordDistances p perPatch) s := by
  rw [recordDistances_eq]
  refine accounts_get_bind ?_
  split
  · exact judges_true hs
  · exact (judges_recordIf hs _ _ _ _).both fun _ _ hs₁ _ => judges_recordIf hs₁ _ _ _ _

theorem settles_createDistances (hs : s.At stage options)
    (inputVertices outputVertices : Option Nat) :
    (ledger stage options allowed).Settles (createDistances inputVertices outputVertices) s :=
  accounts_get_bind <| (settles_ofChecked hs _).bind fun _ _ hs₁ _ =>
    (accounts_emit hs₁.2 (Emit.settles_distanceArraysFor _ _ _ _ hs₁.1)).bind fun _ _ hs₂ _ =>
      settles_modify_rest hs₂ rfl rfl

/-! ## Entry points -/

theorem judges_forAll {β : Type} {check : β → Lower Bool} : (l : List β) →
    (∀ a ∈ l, ∀ {s : Session}, s.At stage options →
      (ledger stage options allowed).Judges (check a) s) → {s : Session} → s.At stage options →
    (ledger stage options allowed).Judges (forAll check l) s
  | [], _, _, hs => judges_true hs
  | a :: rest, h, _, hs => (h a List.mem_cons_self hs).both fun _ _ hs₁ _ =>
    judges_forAll rest (fun b hb => h b (List.mem_cons_of_mem a hb)) hs₁

theorem judges_createIn (hs : s.At stage options)
    (h : ∀ l ∈ p.inLeaves stage perPatch, ∀ key ∈ l.emitted options, allowed key) :
    (ledger stage options allowed).Judges (createIn p perPatch) s := by
  rw [createIn]
  rw [Param.inLeaves] at h
  split
  · rename_i hin
    rw [if_pos hin] at h
    exact judges_createInput hs h
  · exact judges_true hs

theorem judges_createOut (hs : s.At stage options)
    (h : ∀ l ∈ p.outLeaves stage perPatch, ∀ key ∈ l.emitted options, allowed key) :
    (ledger stage options allowed).Judges (createOut p perPatch) s := by
  rw [createOut]
  rw [Param.outLeaves] at h
  split
  · rename_i hout
    rw [if_pos hout] at h
    exact judges_createOutput hs h
  · exact judges_true hs

theorem judges_createParam (hs : s.At stage options) (p : Param)
    (h : ∀ l ∈ p.inLeaves stage false ++ p.outLeaves stage false, ∀ key ∈ l.emitted options,
      allowed key) :
    (ledger stage options allowed).Judges (createParam p) s := by
  obtain ⟨hin, hout⟩ := List.forall_mem_append.1 h
  rw [createParam_eq]
  exact (judges_createIn hs hin).both fun _ _ hs₁ _ => judges_createOut hs₁ hout

theorem judges_createReturn (hs : s.At stage options) (f : Function) (perPatch : Bool)
    (h : ∀ l ∈ f.returnParam.outputLeaves stage perPatch, ∀ key ∈ l.emitted options, allowed key) :
    (ledger stage options allowed).Judges (createReturn f perPatch) s := by
  rw [createReturn]
  split
  · exact judges_true hs
  · exact judges_createOutput hs h

theorem judges_recordPatch (hs : s.At stage options) (e : EntryPoint) :
    (ledger stage options allowed).Judges (recordPatch e) s := by
  rw [recordPatch.eq_def]
  split
  · exact judges_true hs
  · exact judges_forAll _ (fun p _ _ hs => judges_recordDistances hs p true) hs

theorem judges_createPatch (hs : s.At stage options) (e : EntryPoint)
    (h : ∀ l ∈ e.patchFunction.elim [] (·.patchLeaves stage), ∀ key ∈ l.emitted options,
      allowed key) :
    (ledger stage options allowed).Judges (createPatch e) s := by
  rw [createPatch.eq_def]
  cases hf : e.patchFunction with
  | none => exact judges_true hs
  | some f =>
    rw [hf] at h
    obtain ⟨hparams, hresult⟩ := List.forall_mem_append.1 h
    refine (judges_forAll f.params (fun p hp _ hs => judges_createIn hs fun l hl =>
      hparams l (List.mem_flatMap.2 ⟨p, hp, hl⟩)) hs).both fun _ _ hs₁ _ => ?_
    exact judges_createReturn hs₁ f true hresult

theorem entryPoint_eq_both (e : EntryPoint) : entryPoint e = (do
    modify fun s => { s with stage := e.stage, outputPoints := e.outputPoints }
    Action.both (forAll (recordDistances · false) (e.function.params ++ [e.function.returnParam]))
      (Action.both (recordPatch e) (do
        createDistances e.vertexCounts.1 e.vertexCounts.2
        Action.both (forAll createParam e.function.params)
          (Action.both (createReturn e.function false)
            (Action.both (createPatch e) decorateLocations))))) := by
  simp only [entryPoint_eq, Action.both, bind_assoc, pure_bind, Bool.and_assoc]

/-- **An entry point answers for what it reports.**  The answer is `false` only after an error was
reported, and if it is `true`, the errors that were reported are those of the flawed types that were
emitted for the first time. -/
theorem judges_entryPoint (hsound : s.Sound) (hs : s.emitter.options = options) (e : EntryPoint)
    (h : ∀ l ∈ e.loweredLeaves, ∀ key ∈ l.emitted options, allowed key) :
    (ledger e.stage options allowed).Judges (entryPoint e) s := by
  obtain ⟨hfunction, hpatch⟩ := List.forall_mem_append.1 h
  obtain ⟨hparams, hresult⟩ := List.forall_mem_append.1 hfunction
  have hparam : ∀ p ∈ e.function.params,
      ∀ l ∈ p.inLeaves e.stage false ++ p.outLeaves e.stage false,
        ∀ key ∈ l.emitted options, allowed key := fun p hp l hl =>
    hparams l (List.mem_flatMap.2 ⟨p, hp, hl⟩)
  rw [entryPoint_eq_both]
  have hmoved : Session.At e.stage options
      { s with stage := e.stage, outputPoints := e.outputPoints } := ⟨hs, rfl⟩
  refine Accounts.bind (settles_modify hmoved ((Emit.ledger options allowed).clean_refl s.emitter))
    fun _ s₀ hs₀ h₀ => ?_
  have hsound₀ :=
    ((keeps_modify_rest hsound rfl rfl rfl { hsound.held with } hsound.distances).of_run h₀).1
  refine (judges_forAll _ (fun p _ _ hs => judges_recordDistances hs p false) hs₀).both
    fun _ s₁ hs₁ h₁ => ?_
  have hsound₁ := ((keeps_forAll _ (fun p _ _ hs => keeps_recordDistances hs p false)
    hsound₀).of_run h₁).1
  refine (judges_recordPatch hs₁ e).both fun _ s₂ hs₂ h₂ => ?_
  have hsound₂ := ((keeps_recordPatch hsound₁ e).of_run h₂).1
  refine (settles_createDistances hs₂ _ _).bind fun _ s₃ hs₃ h₃ => ?_
  have hsound₃ := ((keeps_createDistances hsound₂ _ _).of_run h₃).1
  refine (judges_forAll _ (fun p hp _ hs => judges_createParam hs p (hparam p hp)) hs₃).both
    fun _ s₄ hs₄ h₄ => ?_
  have hsound₄ := ((keeps_forAll _ (fun p _ _ hs => keeps_createParam hs p) hsound₃).of_run h₄).1
  refine (judges_createReturn hs₄ _ _ hresult).both fun _ s₅ hs₅ h₅ => ?_
  have hsound₅ := ((keeps_createReturn hsound₄ _ _).of_run h₅).1
  refine (judges_createPatch hs₅ e hpatch).both fun _ s₆ hs₆ h₆ => ?_
  exact judges_decorateLocations hs₆ ((keeps_createPatch hsound₅ e).of_run h₆).1

end Lower

end ShaderLowering
