import ShaderLowering.Proofs.Interface.EntryPoint
import ShaderLowering.Proofs.Session.Invariant

/-!
# Operations on the interface keep the contract

Every operation that creates interface variables, gives them locations or records distances leaves a
sound session behind, also when it breaks off.
-/

namespace ShaderLowering

open Source (Ty Field Param Function EntryPoint Position)
open Spirv (VariableId Builtin)
open Action.Contract (keeps_pure keeps_get keeps_throw keeps_ofChecked keeps_get_bind keeps_and)

/-! ## Variables of the emitter -/

namespace Emit

variable {e : Emitter}

theorem makesVariable_builtinVariable (he : e.Sound) (decl : Field) (b : Builtin)
    (c : InterfaceContext) : MakesVariable (builtinVariable decl b c) id e :=
  .after (keeps_moveTo he _) fun _ _ he' _ _ =>
    .after (realizes_interfaceType he' _ _).keeps fun _ _ he'' _ hrun =>
      makesVariable_addVariable he'' ((realizes_interfaceType he' _ _).lt_types hrun)

theorem makesVariable_locatedVariable (he : e.Sound) (decl : Field) (semantic : Semantic)
    (c : InterfaceContext) : MakesVariable (locatedVariable decl semantic c) (·.1) e := by
  rw [locatedVariable_eq]
  refine .after (keeps_get he) fun options e₀ he₀ _ _ => ?_
  refine .after (keeps_moveTo he₀ _) fun _ e₁ he₁ _ _ => ?_
  have htype := realizes_interfaceType he₁ decl.ty.onInterface c.vertices
  refine .after htype.keeps fun ty e₂ he₂ _ hrun => ?_
  refine .after (realizes_requireSampling he₂).keeps fun _ e₃ he₃ hstep₃ _ => ?_
  refine .after (realizes_declareNarrow he₃ _ _).keeps fun _ e₄ he₄ hstep₄ _ => ?_
  refine .after (keeps_ofChecked he₄ _) fun count e₅ he₅ hstep₅ _ => ?_
  have hty := ((hstep₃.trans hstep₄).trans hstep₅).target.lt_types (htype.lt_types hrun)
  refine (makesVariable_addVariable he₅ hty).bind (fun _ _ he₆ => keeps_pure he₆ _) ?_
  rintro var e₆ _ _ ⟨⟩
  rfl

theorem makesVariable_distanceArray (he : e.Sound) (direction : Direction) (kind : DistanceKind)
    (total : Nat) (vertices : Option Nat) :
    MakesVariable (distanceArray direction kind total vertices) id e := by
  rw [distanceArray_eq]
  have htype := realizes_distanceType he total vertices
  refine .after htype.keeps fun ty e₁ he₁ _ hrun => ?_
  refine (makesVariable_addVariable he₁ (htype.lt_types hrun)).bind (fun _ _ he₂ => ?_) ?_
  · exact (realizes_require he₂ _).keeps.bind fun _ _ he₃ _ _ => keeps_pure he₃ _
  · rintro var e₂ _ _ ⟨⟩
    rfl

end Emit

/-! ## Packed distances -/

/-- The arrays that are created have the calculated lengths. -/
theorem Emit.keeps_distanceArraysFor (inputVertices outputVertices : Option Nat) :
    (keys : List (Direction × DistanceKind)) → {a : DistanceArrays} → {e : Emitter} → e.Sound →
    e.PacksBut keys a →
    Emitter.contract.Keeps (distanceArraysFor inputVertices outputVertices keys a) e ∧
    ∀ r e', (distanceArraysFor inputVertices outputVertices keys a).runOn e = (.ok r, e') →
      e'.Packs r.2
  | [], a, e, he, ha => by
    refine ⟨keeps_pure he _, fun r e' h => ?_⟩
    cases h
    exact ha
  | (direction, kind) :: rest, a, e, he, ha => by
    rw [distanceArraysFor.eq_def]
    dsimp only
    split
    · rename_i hzero
      exact keeps_distanceArraysFor inputVertices outputVertices rest he (ha.skip hzero)
    · rename_i hpos
      have hmakes := makesVariable_distanceArray he direction kind (a.get direction kind).total
      -- the packing with its new array has nothing left to be created
      have hnext : ∀ {vertices var e₁}, e.Extends e₁ →
          (distanceArray direction kind (a.get direction kind).total vertices).runOn e =
            (.ok var, e₁) →
          e₁.PacksBut rest (a.set direction kind { a.get direction kind with var := some var }) :=
        fun hstep hvar => (ha.extends hstep).create hpos (holdsArray_distanceArray he hvar)
      constructor
      · exact (hmakes _).keeps.bind fun var e₁ he₁ hstep hvar =>
          (keeps_distanceArraysFor _ _ rest he₁ (hnext hstep hvar)).1.bind
            fun r e₂ he₂ _ _ => keeps_pure he₂ _
      · intro r e' h
        obtain ⟨var, e₁, hvar, h⟩ := Action.runOn_bind_eq_ok_iff.1 h
        obtain ⟨⟨vars, a'⟩, e₂, hrest, h⟩ := Action.runOn_bind_eq_ok_iff.1 h
        cases h
        obtain ⟨he₁, hstep⟩ := (hmakes _).keeps.of_run hvar
        exact (keeps_distanceArraysFor _ _ rest he₁ (hnext hstep hvar)).2 (vars, a') _ hrest

/-! ## Leaves -/

namespace Lower

open Session (contract)

variable {s s' : Session} {decl : Field} {semantic : Option Semantic} {c : InterfaceContext}
  {b : Builtin} {p : Param} {perPatch : Bool}

theorem keeps_builtinVariable (hs : s.Sound) (decl : Field) (b : Builtin) (c : InterfaceContext) :
    contract.Keeps (builtinVariable decl b c) s ∧
    ∀ r s', (builtinVariable decl b c).runOn s = (.ok r, s') → r.1 < s'.size := by
  have hmakes := Emit.makesVariable_builtinVariable hs.emitter decl b c
  have hkeeps := keeps_emit hs hmakes.keeps
  constructor
  · refine keeps_get_bind ?_
    split
    · exact keeps_pure hs _
    · refine hkeeps.bind fun var s₁ hs₁ _ hvar => ?_
      have hfresh := fresh_of_emit hs hmakes hvar
      refine (keeps_modify_rest hs₁ rfl rfl rfl { hs₁.held with builtins := ?_ }
        hs₁.distances).bind fun _ s₂ hs₂ _ _ => keeps_pure hs₂ _
      intro entry hentry
      rcases List.mem_cons.1 hentry with rfl | hentry
      · exact hfresh.lt_size
      · exact hs₁.held.builtins entry hentry
  · intro r s' h
    obtain ⟨_, _, h₀, h⟩ := Action.runOn_bind_eq_ok_iff.1 h
    cases h₀
    split at h
    · rename_i known hknown
      cases h
      obtain ⟨_, _, hsplit, -⟩ := List.lookup_eq_some_iff.1 hknown
      exact hs.held.builtins _ (hsplit ▸ List.mem_append_right _ List.mem_cons_self)
    · obtain ⟨var, s₁, hvar, h⟩ := Action.runOn_bind_eq_ok_iff.1 h
      cases h
      exact (fresh_of_emit hs hmakes hvar).lt_size

theorem keeps_createBuiltin (hs : s.Sound) :
    contract.Keeps (createBuiltin decl semantic b c) s := by
  obtain ⟨hkeeps, hlt⟩ := keeps_builtinVariable hs decl b c
  refine hkeeps.bind fun r s₁ hs₁ _ hrun => ?_
  dsimp only
  split
  · refine keeps_addInterface hs₁ (hlt r s₁ hrun) ?_ ?_ ?_ <;> intro h <;> cases h
  · exact keeps_pure hs₁ ()

/-- The interface variable of a leaf at a location, whose variable and locations are known. -/
def locatedInterface (decl : Field) (semantic : Semantic) (c : InterfaceContext)
    (r : VariableId × Nat) : InterfaceVariable where
  point := c.point
  semantic := some semantic
  builtin := none
  location := explicitLocation? decl semantic
  index := decl.attributes.index
  locationCount := r.2
  invocation := c.invocation
  var := r.1
  position := decl.position

theorem createLocated_eq (decl : Field) (semantic : Semantic) (c : InterfaceContext) :
    createLocated decl semantic c = (do
      let r ← emit (.locatedVariable decl semantic c)
      addInterface (locatedInterface decl semantic c r)) := rfl

/-- The variable that was made just now can be listed. -/
theorem keeps_addLocated (hs : s.Sound) {semantic : Semantic} {r : VariableId × Nat}
    (hrun : (emit (.locatedVariable decl semantic c)).runOn s = (.ok r, s')) (hs' : s'.Sound) :
    contract.Keeps (addInterface (locatedInterface decl semantic c r)) s' := by
  have hfresh := fresh_of_emit hs
    (Emit.makesVariable_locatedVariable hs.emitter decl semantic c) hrun
  refine keeps_addInterface hs' hfresh.lt_size (fun _ => hfresh.above) (fun _ htarget => ?_)
    fun _ => ?_
  · -- a render target has its own location
    have hkind : semantic.kind = .target := by simpa [locatedInterface] using htarget
    simp [locatedInterface, explicitLocation?, hkind]
  · obtain ⟨e₁, hemit, rfl⟩ := runOn_emit_eq_ok_iff.1 hrun
    exact ⟨_, _, Emit.holdsLeaf_locatedVariable hs.emitter hemit rfl rfl rfl⟩

theorem keeps_createLocated (hs : s.Sound) (decl : Field) (semantic : Semantic)
    (c : InterfaceContext) : contract.Keeps (createLocated decl semantic c) s := by
  have hmakes := Emit.makesVariable_locatedVariable hs.emitter decl semantic c
  rw [createLocated_eq]
  exact (keeps_emit hs hmakes.keeps).bind fun r s₁ hs₁ _ hrun => keeps_addLocated hs hrun hs₁

theorem keeps_createLeaf (hs : s.Sound) : contract.Keeps (createLeaf decl semantic c) s := by
  refine keeps_get_bind ?_
  split
  · exact (keeps_report hs _ _).bind fun _ _ hs₁ _ _ => keeps_pure hs₁ _
  · refine (keeps_emit hs (Emit.realizes_declare hs.emitter _ _).keeps).bind
      fun _ s₁ hs₁ _ _ => ?_
    split
    · exact keeps_pure hs₁ _
    · exact (keeps_createBuiltin hs₁).bind fun _ _ hs₂ _ _ => keeps_pure hs₂ _
    · exact (keeps_createLocated hs₁ _ _ _).bind fun _ _ hs₂ _ _ => keeps_pure hs₂ _
    · exact keeps_pure hs₁ _

theorem keeps_createItem (hs : s.Sound) (item : InterfaceItem) :
    contract.Keeps (createItem c item) s := by
  cases item with
  | leaf decl semantic => exact keeps_createLeaf hs
  | remark finding position =>
    exact (keeps_report hs _ _).bind fun _ _ hs₁ _ _ => keeps_pure hs₁ _

theorem keeps_createItems : (items : List InterfaceItem) → {s : Session} → s.Sound →
    contract.Keeps (createItems c items) s
  | [], _, hs => keeps_pure hs true
  | item :: rest, _, hs => keeps_and (keeps_createItem hs item) fun _ hs₁ =>
    keeps_createItems rest hs₁

theorem keeps_createDeclaration (hs : s.Sound) (decl : Field) (point : Option SignaturePoint)
    (vertices invocation : Option Nat) :
    contract.Keeps (createDeclaration decl point vertices invocation) s := by
  rw [createDeclaration.eq_def]
  split
  · exact keeps_pure hs _
  · split
    · exact keeps_get_bind ((keeps_report hs _ _).bind fun _ _ hs₁ _ _ => keeps_pure hs₁ _)
    · exact keeps_createItems _ hs

theorem keeps_createInput (hs : s.Sound) : contract.Keeps (createInput p perPatch) s := by
  rw [createInput]
  split
  · exact keeps_pure hs _
  · refine keeps_get_bind ?_
    dsimp only
    split
    · exact keeps_pure hs _
    · exact keeps_createDeclaration hs _ _ _ _

theorem keeps_createHullOutput (hs : s.Sound) (points : Nat) (invocation : Option Nat) :
    contract.Keeps (createHullOutput p points invocation) s :=
  keeps_createDeclaration hs _ _ _ _

theorem keeps_createOutput (hs : s.Sound) : contract.Keeps (createOutput p perPatch) s := by
  refine keeps_get_bind ?_
  dsimp only
  split
  · refine keeps_get_bind ?_
    split
    · exact (keeps_report hs _ _).bind fun _ _ hs₁ _ _ => keeps_pure hs₁ _
    · exact keeps_createHullOutput hs _ _
  · split
    · exact keeps_pure hs _
    · exact keeps_createDeclaration hs _ _ _ _

/-! ## Locations -/

theorem keeps_checkSemantics (hs : s.Sound) (direction : Direction) :
    contract.Keeps (checkSemantics direction) s :=
  keeps_get_bind ((keeps_reportAll hs _).bind fun _ _ hs₁ _ _ => keeps_pure hs₁ _)

/-- The interface with one variable at a location. -/
theorem keeps_placedAt (hs : s.Sound) (i location : Nat) :
    contract.Keeps (modify fun s =>
      { s with interface := s.interface.modify i (.placedAt location) } : Lower Unit) s := by
  have hmem : ∀ v ∈ s.interface.modify i (.placedAt location),
      ∃ u ∈ s.interface, v = u ∨ v = u.placedAt location := by
    intro v hv
    obtain ⟨j, hj⟩ := List.mem_iff_getElem?.1 hv
    rw [List.getElem?_modify] at hj
    obtain ⟨u, hu, rfl⟩ := Option.map_eq_some_iff.1 hj
    refine ⟨u, List.mem_of_getElem? hu, ?_⟩
    split
    · exact .inr rfl
    · exact .inl rfl
  refine keeps_modify _ ⟨hs.emitter, { hs.held with interface := fun v hv => ?_ }, ?_,
    fun v hv => ?_, fun v hv hlocated => ?_, hs.distances, hs.resources, hs.counters⟩
    { Session.Grows.refl s with interface := fun j v hv => ?_ }
  · obtain ⟨u, hu, rfl | rfl⟩ := hmem v hv
    · exact hs.held.interface v hu
    · exact hs.held.interface u hu
  · show ((s.interface.modify i (.placedAt location)).filterMap _).Pairwise _
    rw [filterMap_modify fun v => v.locatedVar?_placedAt location]
    exact hs.located
  · obtain ⟨u, hu, rfl | rfl⟩ := hmem v hv
    · exact hs.targets v hu
    · exact fun _ _ => rfl
  · obtain ⟨u, hu, rfl | rfl⟩ := hmem v hv
    · exact hs.leaves v hu hlocated
    · obtain ⟨leaf, vertices, tree, hleaf⟩ := hs.leaves u hu hlocated
      exact ⟨leaf, vertices, tree, hleaf.placedAt location⟩
  · rw [List.getElem?_modify, hv]
    refine ⟨_, rfl, ?_⟩
    split
    · exact .inr ⟨location, rfl⟩
    · exact .inl rfl

theorem keeps_setLocation (hs : s.Sound) (i location : Nat) :
    contract.Keeps (setLocation i location) s := by
  refine (keeps_placedAt hs i location).bind fun _ s₁ hs₁ _ _ => keeps_get_bind ?_
  split
  · exact keeps_emit hs₁ (Emit.keeps_decorate hs₁.emitter _ _)
  · exact keeps_pure hs₁ _

theorem keeps_assignLocations (hs : s.Sound) (direction : Direction) :
    contract.Keeps (assignLocations direction) s := by
  refine (keeps_options hs).bind fun _ s₁ hs₁ _ _ => keeps_get_bind ?_
  refine (keeps_ofChecked hs₁ _).bind fun plan s₂ hs₂ _ _ => ?_
  refine (keeps_reportAll hs₂ _).bind fun _ s₃ hs₃ _ _ => ?_
  refine (Action.Contract.keeps_forM plan.placed (fun v _ hs => keeps_setLocation hs v.1 v.2)
    hs₃).bind fun _ s₄ hs₄ _ _ => keeps_pure hs₄ _

theorem keeps_decorateLocations (hs : s.Sound) : contract.Keeps decorateLocations s :=
  (keeps_checkSemantics hs .input).bind fun _ _ hs₁ _ _ =>
    (keeps_checkSemantics hs₁ .output).bind fun _ _ hs₂ _ _ =>
      (keeps_assignLocations hs₂ .input).bind fun _ _ hs₃ _ _ =>
        (keeps_assignLocations hs₃ .output).bind fun _ _ hs₄ _ _ => keeps_pure hs₄ _

/-! ## Entry points -/

theorem keeps_recordIn (hs : s.Sound) (direction : Direction) (ty : Ty) (p : Param) :
    contract.Keeps (recordIn direction ty p) s := by
  refine keeps_get_bind ?_
  have hpacks : s.emitter.Packs
      (s.distances.record ty p.attributes.semantic direction p.position).2 :=
    hs.distances.declare (hs.distances.wellFormed.recordLeaves direction _)
      (DistanceArrays.declaresMore_recordLeaves direction _ _)
  refine (keeps_modify_rest hs rfl rfl rfl { hs.held with distances := hpacks.below }
    hpacks).bind fun _ s₁ hs₁ _ _ => ?_
  exact (keeps_reportAll hs₁ _).bind fun _ _ hs₂ _ _ => keeps_pure hs₂ _

theorem keeps_recordIf (hs : s.Sound) (flows : Bool) (direction : Direction) (ty : Ty) (p : Param) :
    contract.Keeps (recordIf flows direction ty p) s := by
  rw [recordIf]
  split
  · exact keeps_recordIn hs _ _ _
  · exact keeps_pure hs _

theorem keeps_recordDistances (hs : s.Sound) (p : Param) (perPatch : Bool) :
    contract.Keeps (recordDistances p perPatch) s := by
  rw [recordDistances_eq]
  refine keeps_get_bind ?_
  split
  · exact keeps_pure hs _
  · exact keeps_and (keeps_recordIf hs _ _ _ _) fun _ hs₁ => keeps_recordIf hs₁ _ _ _ _

/-- A check on every element of a list keeps a contract if each of them does. -/
theorem keeps_forAll {α : Type} {C : Action.Contract Session} {check : α → Lower Bool} :
    (l : List α) → (∀ a ∈ l, ∀ s, C.invariant s → C.Keeps (check a) s) → {s : Session} →
    C.invariant s → C.Keeps (forAll check l) s
  | [], _, _, hs => keeps_pure hs true
  | _ :: rest, hcheck, _, hs =>
    have hcheck := List.forall_mem_cons.1 hcheck
    keeps_and (hcheck.1 _ hs) fun _ hs₁ => keeps_forAll rest hcheck.2 hs₁

theorem keeps_createDistances (hs : s.Sound) (inputVertices outputVertices : Option Nat) :
    contract.Keeps (createDistances inputVertices outputVertices) s := by
  refine keeps_get_bind ?_
  cases hcalculate : s.distances.calculate with
  | error f => exact (keeps_throw hs _).bind fun _ _ _ _ h => by cases h
  | ok distances =>
    obtain ⟨hkeeps, hpacks⟩ := Emit.keeps_distanceArraysFor inputVertices outputVertices
      DistanceArrays.keys hs.emitter (hs.distances.calculate hcalculate)
    refine (keeps_pure hs distances).bind fun a s₁ hs₁ _ hpure => ?_
    cases hpure
    refine (keeps_emit hs hkeeps).bind fun r s₂ hs₂ _ hrun => ?_
    obtain ⟨e', hrun', rfl⟩ := runOn_emit_eq_ok_iff.1 hrun
    have hcreated := hpacks r e' hrun'
    exact keeps_modify_rest hs₂ rfl rfl rfl { hs₂.held with distances := hcreated.below } hcreated

theorem keeps_createIn (hs : s.Sound) : contract.Keeps (createIn p perPatch) s := by
  rw [createIn]
  split
  · exact keeps_createInput hs
  · exact keeps_pure hs _

theorem keeps_createOut (hs : s.Sound) : contract.Keeps (createOut p perPatch) s := by
  rw [createOut]
  split
  · exact keeps_createOutput hs
  · exact keeps_pure hs _

theorem keeps_createParam (hs : s.Sound) (p : Param) : contract.Keeps (createParam p) s := by
  rw [createParam_eq]
  exact keeps_and (keeps_createIn hs) fun _ hs₁ => keeps_createOut hs₁

theorem keeps_createReturn (hs : s.Sound) (f : Function) (perPatch : Bool) :
    contract.Keeps (createReturn f perPatch) s := by
  rw [createReturn]
  split
  · exact keeps_pure hs _
  · exact keeps_createOutput hs

theorem keeps_createPatchFunction (hs : s.Sound) (f : Function) :
    contract.Keeps (createPatchFunction f) s :=
  keeps_and (keeps_forAll f.params (fun _ _ _ hs => keeps_createIn hs) hs) fun _ hs₁ =>
    keeps_createReturn hs₁ f true

theorem keeps_recordPatch (hs : s.Sound) (e : EntryPoint) : contract.Keeps (recordPatch e) s := by
  rw [recordPatch.eq_def]
  split
  · exact keeps_pure hs _
  · exact keeps_forAll _ (fun p _ _ hs => keeps_recordDistances hs p true) hs

theorem keeps_createPatch (hs : s.Sound) (e : EntryPoint) : contract.Keeps (createPatch e) s := by
  rw [createPatch.eq_def]
  split
  · exact keeps_pure hs _
  · exact keeps_createPatchFunction hs _

theorem keeps_recordEntry (hs : s.Sound) (e : EntryPoint) : contract.Keeps (recordEntry e) s := by
  refine (keeps_modify_rest hs rfl rfl rfl { hs.held with } hs.distances).bind
    fun _ s₀ hs₀ _ _ => ?_
  refine (keeps_forAll _ (fun p _ _ hs => keeps_recordDistances hs p false) hs₀).bind
    fun _ s₁ hs₁ _ _ => ?_
  exact (keeps_recordPatch hs₁ e).bind fun _ s₂ hs₂ _ _ => keeps_pure hs₂ _

theorem keeps_createEntry (hs : s.Sound) (e : EntryPoint) (recorded : Bool × Bool) :
    contract.Keeps (createEntry e recorded) s := by
  refine (keeps_forAll _ (fun p _ _ hs => keeps_createParam hs p) hs).bind fun _ s₁ hs₁ _ _ => ?_
  refine (keeps_createReturn hs₁ _ _).bind fun _ s₂ hs₂ _ _ => ?_
  refine (keeps_createPatch hs₂ e).bind fun _ s₃ hs₃ _ _ => ?_
  exact (keeps_decorateLocations hs₃).bind fun _ _ hs₄ _ _ => keeps_pure hs₄ _

theorem keeps_entryPoint (hs : s.Sound) (e : EntryPoint) : contract.Keeps (entryPoint e) s := by
  rw [entryPoint_eq_phases]
  refine (keeps_recordEntry hs e).bind fun recorded s₁ hs₁ _ _ => ?_
  exact (keeps_createDistances hs₁ _ _).bind fun _ s₂ hs₂ _ _ => keeps_createEntry hs₂ e recorded

end Lower

end ShaderLowering
