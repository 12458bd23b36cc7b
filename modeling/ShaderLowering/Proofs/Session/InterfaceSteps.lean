import ShaderLowering.Proofs.Session.Locations
import ShaderLowering.Proofs.Session.ResourceSteps

/-!
# Operations on the interface take steps

Every operation that creates interface variables, gives them locations or creates arrays of
distances is a sequence of steps, wherever it breaks off.  If the declared types have scalars of
standard widths only, then so have the leaves that they are taken apart into.
-/

namespace ShaderLowering

open Source (Ty OptionalTy Fields Field Param Function EntryPoint Position)
open Spirv (VariableId TypeId Builtin)
open Action.Contract (keeps_pure keeps_ofChecked keeps_get_bind keeps_and)

/-! ## Types on the interface -/

namespace Source

theorem Ty.isStandard_onInterface : (ty : Ty) → ty.onInterface.isStandard = ty.isStandard
  | .alias _ target => target.isStandard_onInterface
  | .oriented _ target => target.isStandard_onInterface
  | .array elem _ => elem.isStandard_onInterface
  | .scalar elem | .vector elem _ | .matrix elem _ _ => by cases elem <;> rfl
  | .void | .struct _ _ _ | .resource _ _ => rfl

/-- What one vertex contributes to the interface has standard widths if the parameter has. -/
theorem Param.isStandard_perVertex {p : Param} (hp : p.ty.isStandard = true) {stage : Stage}
    {perPatch : Bool} {ty : Ty} (h : (p.perVertex stage perPatch).1 = some ty) :
    ty.isStandard = true := by
  have hshape : ∀ {ty}, (perVertex.ofShape p stage).1 = some ty → ty.isStandard = true := by
    intro ty h
    rw [perVertex.ofShape] at h
    split at h
    · split at h <;> cases h
      · rename_i helem
        have hstandard := p.ty.isStandard_shape
        rw [helem] at hstandard
        exact hstandard.trans hp
      · exact hp
    · cases h
      exact hp
  -- what control points and streams contribute is the element of a resource
  have helem : ∀ {kind elem}, p.ty.resource? = some (kind, elem) → elem = some ty →
      ty.isStandard = true := by
    rintro kind _ hresource rfl
    exact Ty.isStandard_resource? hp hresource
  rw [perVertex] at h
  split at h
  · rename_i hresource
    split at h
    · cases h
    · split at h
      · exact helem hresource h
      · exact hshape h
  · rename_i hresource
    split at h
    · cases h
    · split at h
      · exact helem hresource h
      · exact hshape h
  · rename_i hresource
    exact helem hresource h
  · exact hshape h

/-- The types of the parameters and of the return value. -/
def Function.types (f : Function) : List Ty := f.params.map (·.ty) ++ [f.result]

/-- The types of all parameters and return values. -/
def EntryPoint.types (e : EntryPoint) : List Ty :=
  e.function.types ++ e.patchFunction.elim [] (·.types)

end Source

namespace InterfaceItem

/-- Whether all scalars of a leaf have standard widths. -/
def isStandard : InterfaceItem → Bool
  | leaf decl _ => decl.ty.isStandard
  | remark _ _ => true

theorem isStandard_overriding (decl : Field) (own inherited : Option Semantic) :
    ∀ item ∈ overriding decl own inherited, item.isStandard = true := by
  rw [overriding.eq_def]
  split
  · exact List.forall_mem_singleton.2 rfl
  · exact List.forall_mem_nil _

theorem isStandard_ofLeaf {decl : Field} (hdecl : decl.ty.isStandard = true)
    (own inherited : Option Semantic) :
    ∀ item ∈ (ofLeaf decl own inherited).1, item.isStandard = true := by
  rw [ofLeaf.eq_def]
  split
  · exact List.forall_mem_singleton.2 hdecl
  · split
    · exact List.forall_mem_singleton.2 hdecl
    · exact List.forall_mem_singleton.2 rfl

mutual

theorem isStandard_ofShape {decl : Field} (hdecl : decl.ty.isStandard = true)
    (own : Option Semantic) : (ty : Ty) → ty.isStandard = true → (inherited : Option Semantic) →
    ∀ item ∈ (ofShape decl own ty inherited).1, item.isStandard = true
  | .alias _ target, hty, inherited => by
    rw [ofShape]
    exact isStandard_ofShape hdecl own target hty inherited
  | .oriented _ target, hty, inherited => by
    rw [ofShape]
    exact isStandard_ofShape hdecl own target hty inherited
  | .struct _ base fields, hty, inherited => by
    obtain ⟨hbase, hfields⟩ := Bool.and_eq_true_iff.1 hty
    rw [ofShape]
    split
    · exact isStandard_ofLeaf hdecl own inherited
    · exact List.forall_mem_append.2 ⟨isStandard_ofBase decl base hbase _,
        isStandard_ofFields fields hfields _⟩
  | .void, _, inherited | .scalar _, _, inherited | .vector _ _, _, inherited
  | .matrix _ _ _, _, inherited | .array _ _, _, inherited | .resource _ _, _, inherited => by
    simp only [ofShape]
    exact isStandard_ofLeaf hdecl own inherited

theorem isStandard_ofBase (decl : Field) : (base : OptionalTy) → base.isStandard = true →
    (inherited : Option Semantic) →
    ∀ item ∈ (ofBase decl base inherited).1, item.isStandard = true
  | .absent, _, _ => List.forall_mem_nil _
  | .present ty, hty, inherited => by
    rw [ofBase]
    have hdecl : (⟨decl.name, ty, {}, decl.position⟩ : Field).ty.isStandard = true := hty
    exact isStandard_ofShape hdecl none ty hty inherited

theorem isStandard_ofFields : (fields : Fields) → fields.areStandard = true →
    (inherited : Option Semantic) → ∀ item ∈ (ofFields fields inherited).1, item.isStandard = true
  | .nil, _, _ => List.forall_mem_nil _
  | .cons name ty attributes position rest, hfields, inherited => by
    obtain ⟨hty, hrest⟩ := Bool.and_eq_true_iff.1 hfields
    rw [ofFields]
    split
    · exact List.forall_mem_cons.2 ⟨rfl, isStandard_ofFields rest hrest inherited⟩
    · rename_i own _
      exact List.forall_mem_append.2 ⟨List.forall_mem_append.2
        ⟨isStandard_overriding _ _ _, isStandard_ofShape hty own ty hty inherited⟩,
        isStandard_ofFields rest hrest _⟩

end

theorem isStandard_ofDeclaration {decl : Field} (hdecl : decl.ty.isStandard = true) :
    ∀ item ∈ ofDeclaration decl, item.isStandard = true := by
  rw [ofDeclaration]
  split
  · exact List.forall_mem_singleton.2 rfl
  · exact isStandard_ofShape hdecl _ _ hdecl none

end InterfaceItem

/-! ## Variables of the emitter -/

namespace Emit

variable {standard : Prop} {decl : Field} {c : InterfaceContext}

theorem evolving_overVertices (base : TypeId) (vertices : Option Nat) :
    Evolving standard (overVertices base vertices) := by
  cases vertices with
  | none => exact evolving_pure _
  | some count => exact (evolving_constant count).bind fun _ => evolving_insertType rfl

theorem evolving_interfaceType {ty : Ty} (hty : standard → ty.isStandard = true)
    (vertices : Option Nat) : Evolving standard (interfaceType ty vertices) :=
  (evolving_type hty _).bind fun _ => evolving_overVertices _ _

theorem isStandard_builtinType (b : Builtin) {ty : Ty} (hty : ty.isStandard = true) :
    (builtinType b ty).isStandard = true := by
  rw [builtinType.eq_def]
  split
  · rfl
  · rfl
  · rfl
  · exact ty.isStandard_onInterface.trans hty

/-- A decoration under a condition. -/
theorem isPlace_of_mem_ite (p : Prop) [Decidable p] {d : Spirv.VariableDecoration}
    (hd : d.isPlace = false) : ∀ d' ∈ if p then [d] else [], d'.isPlace = false := by
  split
  · exact List.forall_mem_singleton.2 hd
  · exact List.forall_mem_nil _

theorem standsFor_builtinDecorations (name : Option String) (ty : TypeId)
    (storage : Spirv.StorageClass) (b : Builtin) (point : SignaturePoint) :
    Spirv.Variable.StandsFor ⟨name, ty, storage, builtinDecorations b point⟩ b :=
  ⟨_, rfl, isPlace_of_mem_ite _ rfl⟩

theorem addsLast_builtinVariable (hdecl : standard → decl.ty.isStandard = true) (b : Builtin) :
    AddsLast standard (builtinVariable decl b c) id
      fun v => v.storage = c.point.direction.storage ∧ v.StandsFor b :=
  .after (evolving_moveTo _) fun _ =>
    .after (evolving_interfaceType (fun h => isStandard_builtinType b (hdecl h)) _) fun _ =>
      addsLast_addVariable ⟨rfl, standsFor_builtinDecorations _ _ _ b c.point⟩

theorem isPlace_interpolationDecorations (ty : Ty) (modes : Source.Interpolation) :
    ∀ d ∈ interpolationDecorations ty modes, d.isPlace = false := by
  simp only [interpolationDecorations, List.forall_mem_append]
  exact ⟨⟨⟨isPlace_of_mem_ite _ rfl, isPlace_of_mem_ite _ rfl⟩, isPlace_of_mem_ite _ rfl⟩,
    isPlace_of_mem_ite _ rfl⟩

/-- A variable at a location is decorated with how it is passed, which is no place. -/
theorem isPlace_locatedDecorations (options : Options) (point : SignaturePoint) (decl : Field) :
    ∀ d ∈ locatedDecorations options point decl, d.isPlace = false := by
  have hinterpolation : ∀ d ∈ if point = .pixelIn
      then interpolationDecorations decl.ty decl.attributes.interpolation else [],
      d.isPlace = false := by
    split
    · exact isPlace_interpolationDecorations _ _
    · exact List.forall_mem_nil _
  have hindex : ∀ d ∈ (decl.attributes.index.map Spirv.VariableDecoration.index).toList,
      d.isPlace = false := by
    cases decl.attributes.index with
    | none => exact List.forall_mem_nil _
    | some n => exact List.forall_mem_singleton.2 rfl
  simp only [locatedDecorations, List.forall_mem_append]
  exact ⟨⟨⟨isPlace_of_mem_ite _ rfl, hinterpolation⟩, isPlace_of_mem_ite _ rfl⟩, hindex⟩

theorem evolving_requireSampling : Evolving standard (requireSampling decl c) := by
  rw [requireSampling]
  split
  · exact evolving_require _
  · exact evolving_pure _

theorem evolving_declareNarrow (options : Options) (ty : Ty) :
    Evolving standard (declareNarrow options ty) := by
  rw [declareNarrow]
  split
  · exact evolving_declare _ _
  · exact evolving_pure _

theorem addsLast_locatedVariable (hdecl : standard → decl.ty.isStandard = true)
    (semantic : Semantic) :
    AddsLast standard (locatedVariable decl semantic c) (·.1)
      fun v => v.storage = c.point.direction.storage ∧ v.IsUnplaced := by
  rw [locatedVariable_eq]
  refine .get_bind fun e => .after (evolving_moveTo _) fun _ => ?_
  refine .after (evolving_interfaceType (fun h =>
    decl.ty.isStandard_onInterface.trans (hdecl h)) _) fun ty => ?_
  refine .after evolving_requireSampling fun _ => .after (evolving_declareNarrow _ _) fun _ => ?_
  refine .after (evolving_ofChecked _) fun count => ?_
  exact (addsLast_addVariable ⟨rfl, isPlace_locatedDecorations _ _ _⟩).answer _ fun _ => rfl

theorem evolving_distanceType (total : Nat) (vertices : Option Nat) :
    Evolving standard (distanceType total vertices) :=
  (evolving_insertType rfl).bind fun _ => (evolving_constant total).bind fun _ =>
    (evolving_insertType rfl).bind fun _ => evolving_overVertices _ _

end Emit

namespace Lower

open Session (course)

variable {standard packing : Prop} {s s' : Session} {decl : Field} {semantic : Option Semantic}
  {c : InterfaceContext} {b : Builtin} {p : Param} {perPatch : Bool}

/-! ## Leaves -/

/-- The variable of a builtin is remembered, whether it is new or not. -/
theorem steps_builtinVariable (hdecl : standard → decl.ty.isStandard = true)
    (hkind : ∀ kind : DistanceKind, b ≠ kind.builtin) :
    (course standard packing).Keeps (builtinVariable decl b c) s ∧
    ∀ r s', (builtinVariable decl b c).runOn s = (.ok r, s') →
      ((b, c.point.direction), r) ∈ s'.builtins := by
  constructor
  · refine keeps_get_bind ?_
    split
    · exact keeps_pure trivial _
    · rename_i hnew
      refine steps_addsLast (Emit.addsLast_builtinVariable hdecl b) fun var e v hv hvar => ?_
      cases hvar
      exact .single (.builtin hnew hkind hv.1 hv.2)
  · intro r s' h
    obtain ⟨_, _, h₀, h⟩ := Action.runOn_bind_eq_ok_iff.1 h
    cases h₀
    split at h
    · rename_i hknown
      cases h
      obtain ⟨_, _, hsplit, -⟩ := List.lookup_eq_some_iff.1 hknown
      exact hsplit ▸ List.mem_append_right _ List.mem_cons_self
    · obtain ⟨var, s₁, -, h⟩ := Action.runOn_bind_eq_ok_iff.1 h
      cases h
      exact List.mem_cons_self

theorem steps_createBuiltin (hdecl : standard → decl.ty.isStandard = true)
    (hkind : ∀ kind : DistanceKind, b ≠ kind.builtin) :
    (course standard packing).Keeps (createBuiltin decl semantic b c) s := by
  obtain ⟨hkeeps, hknown⟩ := steps_builtinVariable (s := s) (b := b) (c := c) hdecl hkind
  refine hkeeps.bind fun r s₁ _ _ hrun => ?_
  dsimp only
  split
  · exact steps_of_step (Action.runOn_modify _ _) (.listed rfl (hknown r s₁ hrun))
  · exact keeps_pure trivial ()

theorem steps_createLocated (hdecl : standard → decl.ty.isStandard = true) (semantic : Semantic) :
    (course standard packing).Keeps (createLocated decl semantic c) s :=
  steps_addsLast (Emit.addsLast_locatedVariable hdecl semantic) fun _ _ _ hv hvar =>
    .single (.located hvar rfl hv.1 hv.2)

theorem steps_createLeaf (hdecl : standard → decl.ty.isStandard = true) :
    (course standard packing).Keeps (createLeaf decl semantic c) s := by
  refine keeps_get_bind ?_
  split
  · exact (steps_report _ _).bind fun _ _ _ _ _ => keeps_pure trivial _
  · rename_i placement hplacement
    refine (steps_emit (Emit.evolving_declare _ _)).bind fun _ s₁ _ _ _ => ?_
    split
    · exact keeps_pure trivial _
    · rename_i b hsite
      have hkind : ∀ kind : DistanceKind, b ≠ kind.builtin :=
        InterfaceLeaf.ne_distance_of_site? (l := ⟨c.point, decl, _⟩)
          (InterfaceLeaf.site?_eq_some_iff.2 ⟨placement, hplacement, hsite⟩)
      exact (steps_createBuiltin hdecl hkind).bind fun _ _ _ _ _ => keeps_pure trivial _
    · exact (steps_createLocated hdecl _).bind fun _ _ _ _ _ => keeps_pure trivial _
    · exact keeps_pure trivial _

theorem steps_createItem {item : InterfaceItem} (hitem : standard → item.isStandard = true) :
    (course standard packing).Keeps (createItem c item) s := by
  cases item with
  | leaf decl semantic => exact steps_createLeaf hitem
  | remark finding position =>
    exact (steps_report _ _).bind fun _ _ _ _ _ => keeps_pure trivial _

theorem steps_createItems : (items : List InterfaceItem) → {s : Session} →
    (standard → ∀ item ∈ items, item.isStandard = true) →
    (course standard packing).Keeps (createItems c items) s
  | [], _, _ => keeps_pure trivial true
  | _ :: rest, _, h =>
    have h := fun hstandard => List.forall_mem_cons.1 (h hstandard)
    keeps_and (steps_createItem fun hstandard => (h hstandard).1) fun _ _ =>
      steps_createItems rest fun hstandard => (h hstandard).2

theorem steps_createDeclaration (hdecl : standard → decl.ty.isStandard = true)
    (point : Option SignaturePoint) (vertices invocation : Option Nat) :
    (course standard packing).Keeps (createDeclaration decl point vertices invocation) s := by
  rw [createDeclaration.eq_def]
  split
  · exact keeps_pure trivial _
  · split
    · exact keeps_get_bind ((steps_report _ _).bind fun _ _ _ _ _ => keeps_pure trivial _)
    · exact steps_createItems _ fun h => InterfaceItem.isStandard_ofDeclaration (hdecl h)

theorem steps_createInput (hp : standard → p.ty.isStandard = true) :
    (course standard packing).Keeps (createInput p perPatch) s := by
  rw [createInput]
  split
  · exact keeps_pure trivial _
  · refine keeps_get_bind ?_
    dsimp only
    split
    · exact keeps_pure trivial _
    · rename_i hty
      exact steps_createDeclaration (fun h => Param.isStandard_perVertex (hp h) hty) _ _ _

theorem steps_createHullOutput (hp : standard → p.ty.isStandard = true) (points : Nat)
    (invocation : Option Nat) :
    (course standard packing).Keeps (createHullOutput p points invocation) s :=
  steps_createDeclaration hp _ _ _

theorem steps_createOutput (hp : standard → p.ty.isStandard = true) :
    (course standard packing).Keeps (createOutput p perPatch) s := by
  refine keeps_get_bind ?_
  dsimp only
  split
  · refine keeps_get_bind ?_
    split
    · exact (steps_report _ _).bind fun _ _ _ _ _ => keeps_pure trivial _
    · exact steps_createHullOutput hp _ _
  · split
    · exact keeps_pure trivial _
    · rename_i hty
      exact steps_createDeclaration (fun h => Param.isStandard_perVertex (hp h) hty) _ _ _

/-! ## Locations -/

theorem steps_checkSemantics (direction : Direction) :
    (course standard packing).Keeps (checkSemantics direction) s :=
  keeps_get_bind ((steps_reportAll _).bind fun _ _ _ _ _ => keeps_pure trivial _)

theorem steps_setLocation {i location : Nat} {u : InterfaceVariable}
    (hu : s.interface[i]? = some u) (hbuiltin : u.builtin = none)
    (hlocation : u.location = none ∨ u.location = some location) :
    (course standard packing).Keeps (setLocation i location) s := by
  refine (steps_of_step (Action.runOn_modify _ _) (.place hu hlocation)).bind
    fun _ s₁ _ _ hrun => keeps_get_bind ?_
  cases hrun
  split
  · rename_i v hv
    have hplaced : (s.interface.modify i (.placedAt location))[i]? = some (u.placedAt location) := by
      rw [List.getElem?_modify_eq, hu]
      rfl
    cases hplaced.symm.trans hv
    refine steps_decorate (.locate (u := u.placedAt location) ?_ hbuiltin location)
    exact List.mem_of_getElem? hplaced
  · exact keeps_pure trivial _

theorem interface_setLocation {i location : Nat} {u : Unit}
    (h : (setLocation i location).runOn s = (.ok u, s')) :
    s'.interface = s.interface.modify i (.placedAt location) := by
  obtain ⟨_, s₁, hmodify, h⟩ := Action.runOn_bind_eq_ok_iff.1 h
  cases hmodify
  obtain ⟨_, s₂, hget, h⟩ := Action.runOn_bind_eq_ok_iff.1 h
  cases hget
  split at h
  · obtain ⟨e, -, rfl⟩ := runOn_emit_eq_ok_iff.1 h
    rfl
  · cases h
    rfl

/-- Every variable of a plan has one turn, before which it is as the plan found it. -/
theorem steps_setLocations {ps : List Placing} (hnodup : (ps.map (·.1.2)).Nodup)
    (h : ∀ p ∈ ps, s.interface[p.1.2]? = some p.1.1 ∧ p.1.1.builtin = none ∧
      (p.1.1.location = none ∨ p.1.1.location = some p.2)) :
    (course standard packing).Keeps
      ((ps.map fun p : Placing => (p.1.2, p.2)).forM fun (i, location) => setLocation i location)
      s := by
  induction ps generalizing s with
  | nil => exact keeps_pure trivial ()
  | cons p rest ih =>
    obtain ⟨⟨hu, hbuiltin, hlocation⟩, hrest⟩ := List.forall_mem_cons.1 h
    rw [List.map_cons, List.nodup_cons] at hnodup
    refine (steps_setLocation hu hbuiltin hlocation).bind fun _ s₁ _ _ hrun =>
      ih hnodup.2 fun q hq => ?_
    -- the other variables are still as the plan found them
    have hne : p.1.2 ≠ q.1.2 := fun heq =>
      hnodup.1 (heq ▸ List.mem_map_of_mem (f := fun q : Placing => q.1.2) hq)
    rw [interface_setLocation hrun, List.getElem?_modify_ne _ _ hne]
    exact hrest q hq

theorem steps_assignLocations (direction : Direction) :
    (course standard packing).Keeps (assignLocations direction) s := by
  refine steps_options.bind fun opts s₁ _ _ hrun => ?_
  cases hrun
  refine keeps_get_bind ((keeps_ofChecked trivial _).bind fun plan s₂ _ _ hrun => ?_)
  obtain ⟨hplan, rfl⟩ := Action.runOn_ofChecked_eq_ok_iff.1 hrun
  obtain ⟨ps, hps⟩ := LocationPlan.serves_of hplan
  refine (steps_reportAll _).bind fun _ s₃ _ _ hrun => ?_
  rw [runOn_reportAll] at hrun
  cases hrun
  -- findings are reported first, which leaves the interface alone
  rw [hps.placed]
  refine (steps_setLocations hps.nodup fun p hp => ?_).bind fun _ _ _ _ _ => keeps_pure trivial _
  obtain ⟨hu, -, hlocated⟩ := hps.getElem?_of_mem hp
  refine ⟨hu, Option.isNone_iff_eq_none.1 hlocated, ?_⟩
  cases hlocation : p.1.1.location with
  | none => exact .inl rfl
  | some location => exact .inr (congrArg some (hps.explicit p hp location hlocation).symm)

theorem steps_decorateLocations : (course standard packing).Keeps decorateLocations s :=
  (steps_checkSemantics .input).bind fun _ _ _ _ _ =>
    (steps_checkSemantics .output).bind fun _ _ _ _ _ =>
      (steps_assignLocations .input).bind fun _ _ _ _ _ =>
        (steps_assignLocations .output).bind fun _ _ _ _ _ => keeps_pure trivial _

/-! ## Entry points -/

theorem steps_recordIn (direction : Direction) (ty : Ty) (p : Param) :
    (course standard packing).Keeps (recordIn direction ty p) s :=
  keeps_get_bind ((steps_of_step (Action.runOn_modify _ _) (.recorded
    (DistanceArrays.declaresMore_recordLeaves direction _ _))).bind fun _ _ _ _ _ =>
      (steps_reportAll _).bind fun _ _ _ _ _ => keeps_pure trivial _)

theorem steps_recordIf (flows : Bool) (direction : Direction) (ty : Ty) (p : Param) :
    (course standard packing).Keeps (recordIf flows direction ty p) s := by
  rw [recordIf]
  split
  · exact steps_recordIn _ _ _
  · exact keeps_pure trivial _

theorem steps_recordDistances (p : Param) (perPatch : Bool) :
    (course standard packing).Keeps (recordDistances p perPatch) s := by
  rw [recordDistances_eq]
  refine keeps_get_bind ?_
  split
  · exact keeps_pure trivial _
  · exact keeps_and (steps_recordIf _ _ _ _) fun _ _ => steps_recordIf _ _ _ _

/-- An array of distances is on no list of the session. -/
theorem steps_distanceArray (hpacking : packing) (direction : Direction) (kind : DistanceKind)
    (total : Nat) (vertices : Option Nat) :
    (course standard packing).Keeps (emit (.distanceArray direction kind total vertices)) s := by
  rw [Emit.distanceArray_eq]
  refine steps_emit_bind (steps_emit (Emit.evolving_distanceType total vertices)) fun ty s₁ => ?_
  have hstorage : (Emit.distanceVariable direction kind ty).storage = direction.storage := rfl
  refine steps_emit_bind (steps_of_step (runOn_addVariable _ s₁)
    (.packed hpacking hstorage ⟨[], rfl, List.forall_mem_nil _⟩)) fun var s₂ => ?_
  exact steps_emit ((Emit.evolving_require _).bind fun _ => Emit.evolving_pure _)

theorem steps_distanceArraysFor (hpacking : packing) (inputVertices outputVertices : Option Nat) :
    (keys : List (Direction × DistanceKind)) → (a : DistanceArrays) → {s : Session} →
    (course standard packing).Keeps (emit (.distanceArraysFor inputVertices outputVertices keys a)) s
  | [], _, _ => steps_emit (Emit.evolving_pure _)
  | (direction, kind) :: rest, a, s => by
    rw [Emit.distanceArraysFor.eq_def]
    dsimp only
    split
    · exact steps_distanceArraysFor hpacking inputVertices outputVertices rest a
    · refine steps_emit_bind (steps_distanceArray hpacking direction kind _ _) fun var s₁ => ?_
      exact steps_emit_bind (steps_distanceArraysFor hpacking inputVertices outputVertices rest _)
        fun _ _ => steps_emit (Emit.evolving_pure _)

theorem steps_createDistances (hpacking : packing) (inputVertices outputVertices : Option Nat) :
    (course standard packing).Keeps (createDistances inputVertices outputVertices) s :=
  keeps_get_bind ((keeps_ofChecked trivial _).bind fun _ _ _ _ _ =>
    (steps_distanceArraysFor hpacking inputVertices outputVertices _ _).bind fun _ _ _ _ _ =>
      steps_of_step (Action.runOn_modify _ _) (.repacked hpacking _))

theorem steps_createIn (hp : standard → p.ty.isStandard = true) :
    (course standard packing).Keeps (createIn p perPatch) s := by
  rw [createIn]
  split
  · exact steps_createInput hp
  · exact keeps_pure trivial _

theorem steps_createOut (hp : standard → p.ty.isStandard = true) :
    (course standard packing).Keeps (createOut p perPatch) s := by
  rw [createOut]
  split
  · exact steps_createOutput hp
  · exact keeps_pure trivial _

theorem steps_createParam (hp : standard → p.ty.isStandard = true) :
    (course standard packing).Keeps (createParam p) s := by
  rw [createParam_eq]
  exact keeps_and (steps_createIn hp) fun _ _ => steps_createOut hp

theorem steps_createReturn {f : Function} (hf : standard → f.result.isStandard = true)
    (perPatch : Bool) : (course standard packing).Keeps (createReturn f perPatch) s := by
  rw [createReturn]
  split
  · exact keeps_pure trivial _
  · exact steps_createOutput hf

/-- The parameters and the return value of a function. -/
theorem isStandard_types {f : Function} (hf : standard → ∀ ty ∈ f.types, ty.isStandard = true) :
    (∀ p ∈ f.params, standard → p.ty.isStandard = true) ∧
      (standard → f.result.isStandard = true) :=
  ⟨fun _ hp h => hf h _ (List.mem_append_left _ (List.mem_map_of_mem hp)),
    fun h => hf h _ (List.mem_append_right _ (List.mem_singleton_self _))⟩

theorem steps_createPatchFunction {f : Function}
    (hf : standard → ∀ ty ∈ f.types, ty.isStandard = true) :
    (course standard packing).Keeps (createPatchFunction f) s := by
  obtain ⟨hparams, hresult⟩ := isStandard_types hf
  exact keeps_and (keeps_forAll f.params (fun p hp _ _ => steps_createIn (hparams p hp)) trivial)
    fun _ _ => steps_createReturn hresult true

theorem steps_recordPatch (e : EntryPoint) : (course standard packing).Keeps (recordPatch e) s := by
  rw [recordPatch.eq_def]
  split
  · exact keeps_pure trivial _
  · exact keeps_forAll _ (fun p _ _ _ => steps_recordDistances p true) trivial

theorem steps_createPatch {e : EntryPoint} (he : standard → ∀ ty ∈ e.types, ty.isStandard = true) :
    (course standard packing).Keeps (createPatch e) s := by
  rw [createPatch.eq_def]
  split
  · exact keeps_pure trivial _
  · rename_i f hf
    refine steps_createPatchFunction fun h ty hty => he h ty (List.mem_append_right _ ?_)
    rw [hf]
    exact hty

theorem steps_recordEntry (e : EntryPoint) :
    (course standard packing).Keeps (recordEntry e) s := by
  refine (steps_note rfl rfl rfl rfl rfl rfl).bind fun _ s₀ _ _ _ => ?_
  refine (keeps_forAll _ (fun p _ _ _ => steps_recordDistances p false) trivial).bind
    fun _ s₁ _ _ _ => ?_
  exact (steps_recordPatch e).bind fun _ s₂ _ _ _ => keeps_pure trivial _

theorem steps_createEntry {e : EntryPoint} (he : standard → ∀ ty ∈ e.types, ty.isStandard = true)
    (recorded : Bool × Bool) : (course standard packing).Keeps (createEntry e recorded) s := by
  obtain ⟨hparams, hresult⟩ := isStandard_types (f := e.function) fun h ty hty =>
    he h ty (List.mem_append_left _ hty)
  refine (keeps_forAll _ (fun p hp _ _ => steps_createParam (hparams p hp)) trivial).bind
    fun _ s₁ _ _ _ => ?_
  refine (steps_createReturn hresult _).bind fun _ s₂ _ _ _ => ?_
  refine (steps_createPatch he).bind fun _ s₃ _ _ _ => ?_
  exact steps_decorateLocations.bind fun _ _ _ _ _ => keeps_pure trivial _

theorem steps_entryPoint (hpacking : packing) {e : EntryPoint}
    (he : standard → ∀ ty ∈ e.types, ty.isStandard = true) :
    (course standard packing).Keeps (entryPoint e) s := by
  rw [entryPoint_eq_phases]
  refine (steps_recordEntry e).bind fun recorded s₁ _ _ _ => ?_
  exact (steps_createDistances hpacking _ _).bind fun _ s₂ _ _ _ => steps_createEntry he recorded

end Lower

end ShaderLowering
