import ShaderLowering.Proofs.Session.Discipline
import ShaderLowering.Proofs.Session.InterfaceReports
import ShaderLowering.Proofs.Session.Interference

/-!
# What stands behind the variables at locations

Every variable at a location was made for one leaf of some declaration, and goes on standing for it:
it has the label of the leaf, its type is that of the leaf, perhaps over vertices, and besides its
place it has the decorations that the leaf asks for (`Emitter.StandsFor`).

What an operation creates on the interface stands for the leaves of its own declarations
(`Session.Draws`), also when it breaks off.  So after any operations each variable at a location
stands for a leaf of what was declared until then (`Session.standsFor_run`).
-/

namespace ShaderLowering

open Source (Ty Field Param Function EntryPoint Position)
open Spirv (VariableId VariableDecoration Builtin)
open Action.Contract (keeps_pure keeps_get_bind keeps_and keeps_forM keeps_ofChecked)

/-! ## Decorations that are kept -/

namespace Spirv.Variable

/-- The decorations of a variable besides its place: how its value is passed. -/
def traits (v : Variable) : List VariableDecoration := v.decorations.filter (!·.isPlace)

theorem traits_of_isUnplaced {v : Variable} (hv : v.IsUnplaced) : v.traits = v.decorations := by
  rw [traits, List.filter_eq_self]
  intro d hd
  rw [hv d hd]
  rfl

theorem traits_gaining (v : Variable) {ds : List VariableDecoration}
    (hds : ∀ d ∈ ds, d.isPlace = true) : (v.gaining ds).traits = v.traits := by
  have hnone : ds.filter (!·.isPlace) = [] := by
    rw [List.filter_eq_nil_iff]
    intro d hd
    simp [hds d hd]
  rw [traits, gaining, List.filter_append, hnone, List.append_nil, traits]

end Spirv.Variable

namespace Session

/-- The second session has the variables of the first one, and passes their values alike. -/
def KeepsTraits (s s' : Session) : Prop :=
  ∀ id v, s.var? id = some v → ∃ v', s'.var? id = some v' ∧ v'.traits = v.traits

variable {standard packing : Prop} {s s' s'' : Session}

theorem KeepsTraits.refl (s : Session) : s.KeepsTraits s := fun _ v hv => ⟨v, hv, rfl⟩

theorem KeepsTraits.trans (h : s.KeepsTraits s') (h' : s'.KeepsTraits s'') : s.KeepsTraits s'' := by
  intro id v hv
  obtain ⟨v', hv', htraits⟩ := h id v hv
  obtain ⟨v'', hv'', htraits'⟩ := h' id v' hv'
  exact ⟨v'', hv'', htraits'.trans htraits⟩

theorem keepsTraits_of_variables (h : s'.emitter.target.variables = s.emitter.target.variables) :
    s.KeepsTraits s' := fun id v hv =>
  ⟨v, by rw [var?, h]; exact hv, rfl⟩

theorem keepsTraits_adding (s : Session) (v : Spirv.Variable) : s.KeepsTraits (s.adding v) :=
  fun id w hw => ⟨w, by rw [var?_adding, if_neg (Nat.ne_of_lt (lt_size_of_var? hw)), hw], rfl⟩

theorem keepsTraits_decorated (s : Session) (id : VariableId) {d : VariableDecoration}
    (hd : d.isPlace = true) : s.KeepsTraits (s.decorated id [d]) := by
  intro j v hv
  refine ⟨_, (s.var?_decorated id j [d]).trans (congrArg _ hv), v.traits_gaining ?_⟩
  split
  · exact List.forall_mem_singleton.2 hd
  · exact List.forall_mem_nil _

/-- All decorations that are added to a variable later are places. -/
theorem Step.keepsTraits (h : s.Step standard packing s') : s.KeepsTraits s' := by
  cases h with
  | emission h => exact keepsTraits_of_variables h.target.sameVariables
  | note emitter => exact keepsTraits_of_variables (emitter ▸ rfl)
  | recorded | repacked | listed | place => exact KeepsTraits.refl s
  | internal | packed | builtin | located | resource | pushConstant => exact s.keepsTraits_adding _
  | locate => exact s.keepsTraits_decorated _ rfl
  | bind hr hd =>
    exact s.keepsTraits_decorated _ (VariableDecoration.isPlace_of_isDescriptor hd)

theorem keepsTraits_of_steps (h : Relation.ReflTransGen (Step standard packing) s s') :
    s.KeepsTraits s' := by
  induction h with
  | refl => exact .refl s
  | tail _ hstep ih => exact ih.trans hstep.keepsTraits

end Session

/-! ## Leaves of variables -/

/-- A variable at a location stands for a leaf. -/
structure Emitter.StandsFor (e : Emitter) (u : InterfaceVariable) (l : InterfaceLeaf) : Prop where
  label : u.located? = some l.label
  leaf : ∃ vertices tree, e.HoldsLeaf u l.decl.ty vertices tree
  traits : ∃ v, e.target.variables.get? u.var = some v ∧
    v.traits = locatedDecorations e.options l.point l.decl

namespace Emitter.StandsFor

variable {s s' : Session} {u u' : InterfaceVariable} {l : InterfaceLeaf}

theorem later (h : s.emitter.StandsFor u l) (hgrows : s.emitter.Extends s'.emitter)
    (htraits : s.KeepsTraits s') : s'.emitter.StandsFor u l where
  label := h.label
  leaf := by
    obtain ⟨vertices, tree, hleaf⟩ := h.leaf
    exact ⟨vertices, tree, hleaf.extends hgrows⟩
  traits := by
    obtain ⟨v, hv, hdecorations⟩ := h.traits
    obtain ⟨v', hv', hsame⟩ := htraits u.var v hv
    exact ⟨v', hv', hgrows.options ▸ hsame.trans hdecorations⟩

theorem settles {e : Emitter} (h : e.StandsFor u l) (hu : u.Settles u') : e.StandsFor u' l := by
  rcases hu with rfl | ⟨location, rfl⟩
  · exact h
  · obtain ⟨vertices, tree, hleaf⟩ := h.leaf
    exact ⟨h.label, ⟨vertices, tree, hleaf.placedAt location⟩, h.traits⟩

/-- The scalars in the type of a variable are those that its leaf stores on an interface. -/
theorem holdsScalar_eq {e : Emitter} (h : e.StandsFor u l) (test : Spirv.Scalar → Bool) :
    e.holdsScalar test u = l.decl.ty.onInterface.stores e.options test .unlaid := by
  obtain ⟨vertices, tree, hleaf⟩ := h.leaf
  exact hleaf.holdsScalar_eq test

end Emitter.StandsFor

theorem InterfaceVariable.Settles.isLocated_eq {u u' : InterfaceVariable} (h : u.Settles u') :
    u'.isLocated = u.isLocated := by
  rcases h with rfl | ⟨location, rfl⟩ <;> rfl

namespace Session

variable {declared declared' : InterfaceLeaf → Prop} {s s' s'' : Session}

/-- The second session has all that the first one has, and its further variables at locations stand
for declared leaves. -/
structure Draws (declared : InterfaceLeaf → Prop) (s s' : Session) : Prop where
  grows : s.Grows s'
  traits : s.KeepsTraits s'
  new : ∀ (i : Nat) (u : InterfaceVariable), s.interface.length ≤ i → s'.interface[i]? = some u →
    u.isLocated = true → ∃ l, declared l ∧ s'.emitter.StandsFor u l

/-- A change that makes the interface no longer. -/
theorem draws_of_length (hgrows : s.Grows s') (htraits : s.KeepsTraits s')
    (hlength : s'.interface.length = s.interface.length) : s.Draws declared s' where
  grows := hgrows
  traits := htraits
  new i _ hi hu _ := by
    have hlt := (List.getElem?_eq_some_iff.1 hu).1
    rw [hlength] at hlt
    exact absurd hi (Nat.not_le_of_lt hlt)

theorem Draws.mono (h : s.Draws declared s') (hdeclared : ∀ l, declared l → declared' l) :
    s.Draws declared' s' where
  grows := h.grows
  traits := h.traits
  new i u hi hu hlocated :=
    have ⟨l, hl, hstands⟩ := h.new i u hi hu hlocated
    ⟨l, hdeclared l hl, hstands⟩

theorem Draws.trans (h : s.Draws declared s') (h' : s'.Draws declared s'') :
    s.Draws declared s'' where
  grows := h.grows.trans h'.grows
  traits := h.traits.trans h'.traits
  new i u hi hu hlocated := by
    by_cases hold : s'.interface.length ≤ i
    · exact h'.new i u hold hu hlocated
    · -- the variable was there in between, and has at most got its location since
      have hlt : i < s'.interface.length := Nat.lt_of_not_le hold
      obtain ⟨u', hu', hsettles⟩ := h'.grows.interface i _ (List.getElem?_eq_getElem hlt)
      cases hu.symm.trans hu'
      rw [hsettles.isLocated_eq] at hlocated
      obtain ⟨l, hl, hstands⟩ := h.new i _ hi (List.getElem?_eq_getElem hlt) hlocated
      exact ⟨l, hl, (hstands.later h'.grows.emitter h'.traits).settles hsettles⟩

/-- The variables that are new come after those that were there. -/
theorem Draws.exists_standsFor (h : s.Draws declared s') {u : InterfaceVariable}
    (hu : u ∈ s'.interface.drop s.interface.length) (hlocated : u.isLocated = true) :
    ∃ l, declared l ∧ s'.emitter.StandsFor u l := by
  obtain ⟨i, hi⟩ := List.mem_iff_getElem?.1 hu
  rw [List.getElem?_drop] at hi
  exact h.new _ u (Nat.le_add_right _ _) hi hlocated

/-- The contract of drawing declared leaves at a stage. -/
def drawing (stage : Stage) (declared : InterfaceLeaf → Prop) : Action.Contract Session where
  invariant s := s.Sound ∧ s.stage = stage
  step := Draws declared
  refl s := draws_of_length (.refl s) (.refl s) rfl
  trans := .trans

/-- The contract of leaving the stage and the interface as they are. -/
def framing : Action.Contract Session where
  invariant _ := True
  step s s' := s'.stage = s.stage ∧ s'.interface = s.interface
  refl _ := ⟨rfl, rfl⟩
  trans h h' := ⟨h'.1.trans h.1, h'.2.trans h.2⟩

end Session

/-! ## The variable of a leaf -/

namespace Emit

variable {e e' : Emitter} {decl : Field} {c : InterfaceContext}

/-- The variable that is made for a declaration is passed as the declaration says. -/
theorem traits_locatedVariable (he : e.Sound) {semantic : Semantic} {r : VariableId × Nat}
    (h : (locatedVariable decl semantic c).runOn e = (.ok r, e')) :
    ∃ v, e'.target.variables.get? r.1 = some v ∧
      v.traits = locatedDecorations e'.options c.point decl := by
  have hoptions : e'.options = e.options :=
    ((makesVariable_locatedVariable he decl semantic c).keeps.of_run h).2.options
  rw [locatedVariable_eq] at h
  obtain ⟨_, _, h₀, h⟩ := Action.runOn_bind_eq_ok_iff.1 h
  cases h₀
  obtain ⟨_, e₁, -, h⟩ := Action.runOn_bind_eq_ok_iff.1 h
  obtain ⟨ty, e₂, -, h⟩ := Action.runOn_bind_eq_ok_iff.1 h
  obtain ⟨_, e₃, -, h⟩ := Action.runOn_bind_eq_ok_iff.1 h
  obtain ⟨_, e₄, -, h⟩ := Action.runOn_bind_eq_ok_iff.1 h
  obtain ⟨count, e₅, -, h⟩ := Action.runOn_bind_eq_ok_iff.1 h
  obtain ⟨var, e₆, hvar, h⟩ := Action.runOn_bind_eq_ok_iff.1 h
  cases h
  rw [hoptions]
  cases hvar
  refine ⟨_, (Spirv.Table.get?_push _ _ _).trans (if_pos rfl), ?_⟩
  exact Spirv.Variable.traits_of_isUnplaced (isPlace_locatedDecorations _ _ _)

end Emit

namespace Lower

open Session (contract course drawing framing)

variable {stage : Stage} {declared : InterfaceLeaf → Prop} {α : Type} {s s' : Session}

/-! ## Actions that leave the interface alone -/

theorem frames_emit (x : Emit α) (s : Session) : framing.Keeps (emit x) s :=
  .of_runOn (runOn_emit x s) trivial ⟨rfl, rfl⟩

theorem frames_modify {f : Session → Session} (hstage : (f s).stage = s.stage)
    (hinterface : (f s).interface = s.interface) : framing.Keeps (modify f : Lower Unit) s :=
  ⟨trivial, hstage, hinterface⟩

theorem frames_reportAll (findings : List (Finding × Position)) (s : Session) :
    framing.Keeps (reportAll findings) s :=
  .of_runOn (runOn_reportAll findings s) trivial ⟨rfl, rfl⟩

theorem frames_builtinVariable (decl : Field) (b : Builtin) (c : InterfaceContext) (s : Session) :
    framing.Keeps (builtinVariable decl b c) s := by
  refine keeps_get_bind ?_
  split
  · exact keeps_pure trivial _
  · refine (frames_emit _ s).bind fun var s₁ _ _ _ => ?_
    exact (frames_modify rfl rfl).bind fun _ _ _ _ _ => keeps_pure trivial _

theorem frames_recordIn (direction : Direction) (ty : Ty) (p : Param) (s : Session) :
    framing.Keeps (recordIn direction ty p) s := by
  refine keeps_get_bind ((frames_modify rfl rfl).bind fun _ s₁ _ _ _ => ?_)
  exact (frames_reportAll _ s₁).bind fun _ _ _ _ _ => keeps_pure trivial _

theorem frames_recordIf (flows : Bool) (direction : Direction) (ty : Ty) (p : Param) (s : Session) :
    framing.Keeps (recordIf flows direction ty p) s := by
  rw [recordIf]
  split
  · exact frames_recordIn _ _ _ s
  · exact keeps_pure trivial _

theorem frames_recordDistances (p : Param) (perPatch : Bool) (s : Session) :
    framing.Keeps (recordDistances p perPatch) s := by
  rw [recordDistances_eq]
  refine keeps_get_bind ?_
  split
  · exact keeps_pure trivial _
  · exact keeps_and (frames_recordIf _ _ _ _ s) fun s' _ => frames_recordIf _ _ _ _ s'

theorem frames_recordPatch (e : EntryPoint) (s : Session) : framing.Keeps (recordPatch e) s := by
  rw [recordPatch.eq_def]
  split
  · exact keeps_pure trivial _
  · exact keeps_forAll _ (fun p _ s _ => frames_recordDistances p true s) trivial

theorem frames_createDistances (inputVertices outputVertices : Option Nat) (s : Session) :
    framing.Keeps (createDistances inputVertices outputVertices) s := by
  refine keeps_get_bind ((keeps_ofChecked trivial _).bind fun _ s₁ _ _ _ => ?_)
  exact (frames_emit _ s₁).bind fun _ _ _ _ _ => frames_modify rfl rfl

/-! ## Leaves -/

variable {decl : Field} {semantic : Option Semantic} {c : InterfaceContext} {b : Builtin}
  {p : Param} {perPatch : Bool}

/-- An action that leaves the interface alone draws nothing. -/
theorem draws_of_keepsTraits (hs : s.stage = stage) {x : Lower α} (hx : contract.Keeps x s)
    (htraits : s.KeepsTraits (x.runOn s).2) (hframe : framing.Keeps x s) :
    (drawing stage declared).Keeps x s where
  invariant := ⟨hx.invariant, hframe.step.1.trans hs⟩
  step := Session.draws_of_length hx.step htraits (congrArg List.length hframe.step.2)

theorem draws_of_frame (hs : s.stage = stage) {x : Lower α} (hx : contract.Keeps x s)
    (hsteps : (course False True).Keeps x s) (hframe : framing.Keeps x s) :
    (drawing stage declared).Keeps x s :=
  draws_of_keepsTraits hs hx (Session.keepsTraits_of_steps hsteps.step) hframe

theorem draws_report (hs : s.Sound ∧ s.stage = stage) (f : Finding) (position : Position) :
    (drawing stage declared).Keeps (report f position) s :=
  draws_of_frame hs.2 (keeps_report hs.1 f position) (steps_report f position) (frames_emit _ s)

/-- A variable that is listed draws a leaf if it is at a location. -/
theorem draws_addInterface (hs : s.stage = stage) {v : InterfaceVariable}
    (hkeeps : contract.Keeps (addInterface v) s)
    (hv : v.isLocated = true → ∃ l, declared l ∧ s.emitter.StandsFor v l) :
    (drawing stage declared).Keeps (addInterface v) s where
  invariant := ⟨hkeeps.invariant, hs⟩
  step := by
    refine ⟨hkeeps.step, .refl s, fun i u hi hu hlocated => ?_⟩
    change (s.interface ++ [v])[i]? = some u at hu
    rw [List.getElem?_append_right hi, List.getElem?_singleton] at hu
    split at hu <;> cases hu
    exact hv hlocated

theorem draws_createBuiltin (hs : s.Sound ∧ s.stage = stage)
    (hkind : ∀ kind : DistanceKind, b ≠ kind.builtin) :
    (drawing stage declared).Keeps (createBuiltin decl semantic b c) s := by
  obtain ⟨hkeeps, hlt⟩ := keeps_builtinVariable hs.1 decl b c
  refine (draws_of_frame hs.2 hkeeps (steps_builtinVariable False.elim hkind).1
    (frames_builtinVariable decl b c s)).bind fun r s₁ hs₁ _ hrun => ?_
  dsimp only
  split
  · exact draws_addInterface hs₁.2
      (keeps_addInterface hs₁.1 (hlt r s₁ hrun) nofun nofun nofun) nofun
  · exact keeps_pure hs₁ ()

/-- A variable that is added last leaves the others as they are. -/
theorem keepsTraits_emit_addsLast {standard : Prop} {x : Emit α} {var : α → VariableId}
    {P : Spirv.Variable → Prop} (hx : Emit.AddsLast standard x var P) (s : Session) :
    s.KeepsTraits ((emit x).runOn s).2 := by
  obtain ⟨hfailed, hadded⟩ := hx s.emitter
  rcases hrun : x.runOn s.emitter with ⟨err | a, e'⟩ <;> rw [runOn_emit, hrun]
  · exact Session.keepsTraits_of_variables (hfailed err e' hrun).target.sameVariables
  · obtain ⟨e₁, v, hstep, -, -, rfl⟩ := hadded a e' hrun
    have hbefore : s.KeepsTraits { s with emitter := e₁ } :=
      Session.keepsTraits_of_variables hstep.target.sameVariables
    exact hbefore.trans (Session.keepsTraits_adding _ v)

theorem draws_createLocated (hs : s.Sound ∧ s.stage = stage) {semantic : Semantic}
    (hdeclared : declared ⟨c.point, decl, some semantic⟩) :
    (drawing stage declared).Keeps (createLocated decl semantic c) s := by
  have hmakes := Emit.makesVariable_locatedVariable hs.1.emitter decl semantic c
  -- the variable comes last, so the decorations of the others stay
  have hlast : Emit.AddsLast False (Emit.locatedVariable decl semantic c) (·.1) _ :=
    Emit.addsLast_locatedVariable False.elim semantic
  rw [createLocated_eq]
  refine (draws_of_keepsTraits hs.2 (keeps_emit hs.1 hmakes.keeps)
    (keepsTraits_emit_addsLast hlast s) (frames_emit _ s)).bind fun r s₁ hs₁ _ hrun => ?_
  refine draws_addInterface hs₁.2 (keeps_addLocated hs.1 hrun hs₁.1) fun _ => ⟨_, hdeclared, ?_⟩
  obtain ⟨e₁, hemit, rfl⟩ := runOn_emit_eq_ok_iff.1 hrun
  obtain ⟨tree, hleaf⟩ := Emit.holdsLeaf_locatedVariable
    (u := locatedInterface decl semantic c r) hs.1.emitter hemit rfl rfl rfl
  exact ⟨rfl, ⟨_, tree, hleaf⟩, Emit.traits_locatedVariable hs.1.emitter hemit⟩

theorem draws_createLeaf (hs : s.Sound ∧ s.stage = stage)
    (hdeclared : declared ⟨c.point, decl, semantic⟩) :
    (drawing stage declared).Keeps (createLeaf decl semantic c) s := by
  refine keeps_get_bind ?_
  split
  · exact (draws_report hs _ _).bind fun _ _ hs₁ _ _ => keeps_pure hs₁ _
  · rename_i placement hplacement
    refine (draws_of_frame hs.2 (keeps_emit hs.1 (Emit.realizes_declare hs.1.emitter _ _).keeps)
      (steps_emit (Emit.evolving_declare _ _)) (frames_emit _ s)).bind fun _ s₁ hs₁ _ _ => ?_
    split
    · exact keeps_pure hs₁ _
    · rename_i b hsite
      have hkind : ∀ kind : DistanceKind, b ≠ kind.builtin :=
        InterfaceLeaf.ne_distance_of_site? (l := ⟨c.point, decl, _⟩)
          (InterfaceLeaf.site?_eq_some_iff.2 ⟨placement, hplacement, hsite⟩)
      exact (draws_createBuiltin hs₁ hkind).bind fun _ _ hs₂ _ _ => keeps_pure hs₂ _
    · exact (draws_createLocated hs₁ hdeclared).bind fun _ _ hs₂ _ _ => keeps_pure hs₂ _
    · exact keeps_pure hs₁ _

/-! ## Declarations -/

theorem draws_createItem (hs : s.Sound ∧ s.stage = stage) (item : InterfaceItem)
    (hdeclared : ∀ l ∈ item.leaf? c.point, declared l) :
    (drawing stage declared).Keeps (createItem c item) s := by
  cases item with
  | leaf decl semantic => exact draws_createLeaf hs (hdeclared _ rfl)
  | remark finding position =>
    exact (draws_report hs _ _).bind fun _ _ hs₁ _ _ => keeps_pure hs₁ _

theorem draws_createItems : (items : List InterfaceItem) → {s : Session} →
    s.Sound ∧ s.stage = stage → (∀ l ∈ items.filterMap (·.leaf? c.point), declared l) →
    (drawing stage declared).Keeps (createItems c items) s
  | [], _, hs, _ => keeps_pure hs true
  | item :: rest, _, hs, hdeclared => by
    have hitem : ∀ l ∈ item.leaf? c.point, declared l := fun l hl =>
      hdeclared l (List.mem_filterMap.2 ⟨item, List.mem_cons_self, hl⟩)
    refine keeps_and (draws_createItem hs item hitem) fun _ hs₁ =>
      draws_createItems rest hs₁ fun l hl => ?_
    obtain ⟨item', hitem', hl⟩ := List.mem_filterMap.1 hl
    exact hdeclared l (List.mem_filterMap.2 ⟨item', List.mem_cons_of_mem _ hitem', hl⟩)

theorem draws_createDeclaration (hs : s.Sound ∧ s.stage = stage) (decl : Field)
    (point : Option SignaturePoint) (vertices invocation : Option Nat)
    (hdeclared : ∀ l ∈ InterfaceLeaf.ofDeclaration decl point, declared l) :
    (drawing stage declared).Keeps (createDeclaration decl point vertices invocation) s := by
  rw [createDeclaration.eq_def]
  rw [InterfaceLeaf.ofDeclaration.eq_def] at hdeclared
  split
  · exact keeps_pure hs _
  · rename_i hvoid
    rw [if_neg hvoid] at hdeclared
    cases point with
    | none =>
      exact keeps_get_bind ((draws_report hs _ _).bind fun _ _ hs₁ _ _ => keeps_pure hs₁ _)
    | some point => exact draws_createItems _ hs hdeclared

theorem draws_createInput (hs : s.Sound ∧ s.stage = stage)
    (hdeclared : ∀ l ∈ p.inputLeaves stage perPatch, declared l) :
    (drawing stage declared).Keeps (createInput p perPatch) s := by
  rw [createInput]
  rw [Param.inputLeaves] at hdeclared
  split
  · exact keeps_pure hs _
  · rename_i hstream
    rw [if_neg hstream] at hdeclared
    refine keeps_get_bind ?_
    dsimp only
    rw [hs.2]
    rcases hvertex : p.perVertex stage perPatch with ⟨_ | ty, vertices⟩ <;>
      rw [hvertex] at hdeclared
    · exact keeps_pure hs _
    · exact draws_createDeclaration hs _ _ _ _ hdeclared

theorem draws_createHullOutput (hs : s.Sound ∧ s.stage = stage) (points : Nat)
    (invocation : Option Nat)
    (hdeclared : ∀ l ∈ InterfaceLeaf.ofDeclaration (declarationOf p p.ty) (some .hullPointOut),
      declared l) : (drawing stage declared).Keeps (createHullOutput p points invocation) s :=
  draws_createDeclaration hs _ _ _ _ hdeclared

theorem draws_createOutput (hs : s.Sound ∧ s.stage = stage)
    (hdeclared : ∀ l ∈ p.outputLeaves stage perPatch, declared l) :
    (drawing stage declared).Keeps (createOutput p perPatch) s := by
  rw [Param.outputLeaves] at hdeclared
  refine keeps_get_bind ?_
  dsimp only
  rw [hs.2]
  split
  · rename_i hhull
    rw [if_pos hhull] at hdeclared
    refine keeps_get_bind ?_
    split
    · exact (draws_report hs _ _).bind fun _ _ hs₁ _ _ => keeps_pure hs₁ _
    · exact draws_createHullOutput hs _ _ hdeclared
  · rename_i hhull
    rw [if_neg hhull] at hdeclared
    cases hty : (p.perVertex stage perPatch).1 with
    | none => exact keeps_pure hs _
    | some ty =>
      rw [hty] at hdeclared
      exact draws_createDeclaration hs _ _ _ _ hdeclared

/-! ## Locations -/

theorem draws_checkSemantics (hs : s.Sound ∧ s.stage = stage) (direction : Direction) :
    (drawing stage declared).Keeps (checkSemantics direction) s := by
  refine draws_of_frame hs.2 (keeps_checkSemantics hs.1 direction) (steps_checkSemantics direction)
    (keeps_get_bind ?_)
  exact (frames_reportAll _ s).bind fun _ _ _ _ _ => keeps_pure trivial _

/-- Giving out locations neither adds variables nor takes any away. -/
theorem draws_assignLocations (hs : s.Sound ∧ s.stage = stage) (direction : Direction) :
    (drawing stage declared).Keeps (assignLocations direction) s := by
  have hkeeps := keeps_assignLocations hs.1 direction
  have hsteps : (course False True).Keeps (assignLocations direction) s :=
    steps_assignLocations direction
  have hframe : ((assignLocations direction).runOn s).2.stage = s.stage ∧
      ((assignLocations direction).runOn s).2.interface.length = s.interface.length := by
    cases hplan : LocationPlan.of s.emitter.options.order direction s.interface with
    | error f =>
      rw [runOn_assignLocations_of_error hplan]
      exact ⟨rfl, rfl⟩
    | ok plan =>
      obtain ⟨ps, hps⟩ := LocationPlan.serves_of hplan
      rw [runOn_assignLocations hs.1 hplan hps]
      exact ⟨stage_settled_foldl ps s, Session.length_interface_settled_foldl ps s⟩
  exact ⟨⟨hkeeps.invariant, hframe.1.trans hs.2⟩, Session.draws_of_length hkeeps.step
    (Session.keepsTraits_of_steps hsteps.step) hframe.2⟩

theorem draws_decorateLocations (hs : s.Sound ∧ s.stage = stage) :
    (drawing stage declared).Keeps decorateLocations s :=
  (draws_checkSemantics hs .input).bind fun _ _ hs₁ _ _ =>
    (draws_checkSemantics hs₁ .output).bind fun _ _ hs₂ _ _ =>
      (draws_assignLocations hs₂ .input).bind fun _ _ hs₃ _ _ =>
        (draws_assignLocations hs₃ .output).bind fun _ _ hs₄ _ _ => keeps_pure hs₄ _

/-! ## Entry points -/

theorem draws_createIn (hs : s.Sound ∧ s.stage = stage)
    (hdeclared : ∀ l ∈ p.inLeaves stage perPatch, declared l) :
    (drawing stage declared).Keeps (createIn p perPatch) s := by
  rw [createIn]
  rw [Param.inLeaves] at hdeclared
  split
  · rename_i hin
    rw [if_pos hin] at hdeclared
    exact draws_createInput hs hdeclared
  · exact keeps_pure hs _

theorem draws_createOut (hs : s.Sound ∧ s.stage = stage)
    (hdeclared : ∀ l ∈ p.outLeaves stage perPatch, declared l) :
    (drawing stage declared).Keeps (createOut p perPatch) s := by
  rw [createOut]
  rw [Param.outLeaves] at hdeclared
  split
  · rename_i hout
    rw [if_pos hout] at hdeclared
    exact draws_createOutput hs hdeclared
  · exact keeps_pure hs _

theorem draws_createParam (hs : s.Sound ∧ s.stage = stage)
    (hdeclared : ∀ l ∈ p.inLeaves stage false ++ p.outLeaves stage false, declared l) :
    (drawing stage declared).Keeps (createParam p) s := by
  obtain ⟨hin, hout⟩ := List.forall_mem_append.1 hdeclared
  rw [createParam_eq]
  exact keeps_and (draws_createIn hs hin) fun _ hs₁ => draws_createOut hs₁ hout

theorem draws_createReturn (hs : s.Sound ∧ s.stage = stage) (f : Function)
    (hdeclared : ∀ l ∈ f.returnParam.outputLeaves stage perPatch, declared l) :
    (drawing stage declared).Keeps (createReturn f perPatch) s := by
  rw [createReturn]
  split
  · exact keeps_pure hs _
  · exact draws_createOutput hs hdeclared

theorem draws_createPatch (hs : s.Sound ∧ s.stage = stage) (e : EntryPoint)
    (hdeclared : ∀ l ∈ e.patchFunction.elim [] (·.patchLeaves stage), declared l) :
    (drawing stage declared).Keeps (createPatch e) s := by
  rw [createPatch.eq_def]
  cases hf : e.patchFunction with
  | none => exact keeps_pure hs _
  | some f =>
    rw [hf] at hdeclared
    obtain ⟨hparams, hresult⟩ := List.forall_mem_append.1 hdeclared
    refine keeps_and (keeps_forAll f.params (fun p hp _ hs => draws_createIn hs fun l hl =>
      hparams l (List.mem_flatMap.2 ⟨p, hp, hl⟩)) hs) fun _ hs₁ => ?_
    exact draws_createReturn hs₁ f hresult

/-- The distances of an entry point are recorded once its stage is set. -/
theorem draws_recordEntry (hs : s.Sound) (e : EntryPoint) :
    (drawing e.stage declared).Keeps (recordEntry e) s := by
  have hmoved := keeps_modify_rest (f := fun s : Session =>
    { s with stage := e.stage, outputPoints := e.outputPoints }) hs rfl rfl rfl { hs.held with }
    hs.distances
  have hfirst : (drawing e.stage declared).Keeps (modify fun s : Session =>
      { s with stage := e.stage, outputPoints := e.outputPoints } : Lower Unit) s :=
    ⟨⟨hmoved.invariant, rfl⟩, Session.draws_of_length hmoved.step (.refl s) rfl⟩
  refine hfirst.bind fun _ s₀ hs₀ _ _ => ?_
  refine (draws_of_frame hs₀.2 (keeps_forAll _ (fun p _ _ hs => keeps_recordDistances hs p false)
    hs₀.1) (keeps_forAll _ (fun p _ _ _ => steps_recordDistances p false) trivial)
    (keeps_forAll _ (fun p _ s _ => frames_recordDistances p false s) trivial)).bind
    fun _ s₁ hs₁ _ _ => ?_
  exact (draws_of_frame hs₁.2 (keeps_recordPatch hs₁.1 e) (steps_recordPatch e)
    (frames_recordPatch e s₁)).bind fun _ s₂ hs₂ _ _ => keeps_pure hs₂ _

theorem draws_createEntry {e : EntryPoint} (hs : s.Sound ∧ s.stage = e.stage)
    (hdeclared : ∀ l ∈ e.loweredLeaves, declared l) (recorded : Bool × Bool) :
    (drawing e.stage declared).Keeps (createEntry e recorded) s := by
  obtain ⟨hfunction, hpatch⟩ := List.forall_mem_append.1 hdeclared
  obtain ⟨hparams, hresult⟩ := List.forall_mem_append.1 hfunction
  refine (keeps_forAll _ (fun p hp _ hs => draws_createParam hs fun l hl =>
    hparams l (List.mem_flatMap.2 ⟨p, hp, hl⟩)) hs).bind fun _ s₁ hs₁ _ _ => ?_
  refine (draws_createReturn hs₁ _ hresult).bind fun _ s₂ hs₂ _ _ => ?_
  refine (draws_createPatch hs₂ e hpatch).bind fun _ s₃ hs₃ _ _ => ?_
  exact (draws_decorateLocations hs₃).bind fun _ s₄ hs₄ _ _ => keeps_pure hs₄ _

theorem draws_entryPoint (hs : s.Sound) {e : EntryPoint}
    (hdeclared : ∀ l ∈ e.loweredLeaves, declared l) :
    (drawing e.stage declared).Keeps (entryPoint e) s := by
  rw [entryPoint_eq_phases]
  refine (draws_recordEntry hs e).bind fun recorded s₁ hs₁ _ _ => ?_
  refine (draws_of_frame hs₁.2 (keeps_createDistances hs₁.1 _ _) (steps_createDistances trivial _ _)
    (frames_createDistances _ _ s₁)).bind fun _ s₂ hs₂ _ _ => ?_
  exact draws_createEntry hs₂ hdeclared recorded

end Lower

/-! ## Operations -/

namespace InterfaceOperation

/-- The leaves of what an operation declares, at a stage. -/
def leaves (stage : Stage) : InterfaceOperation → List InterfaceLeaf
  | input p perPatch => p.inputLeaves stage perPatch
  | output p perPatch => p.outputLeaves stage perPatch
  | hullOutput p _ _ =>
    InterfaceLeaf.ofDeclaration (Lower.declarationOf p p.ty) (some .hullPointOut)
  | locations => []
  | entryPoint e => e.loweredLeaves

/-- The stage after an operation: only an entry point comes with its own. -/
def stageAfter (stage : Stage) : InterfaceOperation → Stage
  | entryPoint e => e.stage
  | input _ _ | output _ _ | hullOutput _ _ _ | locations => stage

end InterfaceOperation

namespace Operation

/-- The leaves of what an operation declares on the interface, at a stage. -/
def leaves (stage : Stage) (op : Operation) : List InterfaceLeaf :=
  op.interface?.elim [] (·.leaves stage)

/-- The stage after an operation. -/
def stageAfter (stage : Stage) (op : Operation) : Stage :=
  op.interface?.elim stage (·.stageAfter stage)

end Operation

/-- The leaves of everything that operations in order declare on the interface. -/
def declaredLeaves : Stage → List Operation → List InterfaceLeaf
  | _, [] => []
  | stage, op :: rest => op.leaves stage ++ declaredLeaves (op.stageAfter stage) rest

namespace Session

variable {s s' : Session}

/-- An operation on the interface draws its leaves. -/
theorem draws_interface (hs : s.Sound) (op : InterfaceOperation) :
    (drawing (op.stageAfter s.stage) (· ∈ op.leaves s.stage)).Keeps op.action s := by
  cases op with
  | input p perPatch => exact Lower.draws_createInput ⟨hs, rfl⟩ fun _ => id
  | output p perPatch => exact Lower.draws_createOutput ⟨hs, rfl⟩ fun _ => id
  | hullOutput p points invocation =>
    exact Lower.draws_createHullOutput ⟨hs, rfl⟩ points invocation fun _ => id
  | locations => exact Lower.draws_decorateLocations ⟨hs, rfl⟩
  | entryPoint e => exact Lower.draws_entryPoint hs fun _ => id

/-- **An operation draws its leaves**, and an operation that is not one on the interface none. -/
theorem draws_after (hs : s.Sound) (op : Operation) :
    s.Draws (· ∈ op.leaves s.stage) (s.after op) ∧
      (s.after op).stage = op.stageAfter s.stage := by
  by_cases hop : op.isInterface = true
  · obtain ⟨op, rfl⟩ : ∃ i, op = .interface i := by
      cases op <;> first | exact ⟨_, rfl⟩ | cases hop
    have hkeeps := draws_interface hs op
    have hafter : s.after (.interface op) = (op.action.runOn s).2 :=
      congrArg Prod.snd (Lower.runOn_forget op.action s)
    rw [hafter]
    exact ⟨hkeeps.step, hkeeps.invariant.2⟩
  · obtain ⟨_, x, hx, hafter⟩ := s.exists_isOperation op
    have hgrows : s.Grows (s.after op) := hafter ▸ (hx.keeps hs).step
    have hsteps : Relation.ReflTransGen (Step False True) s (s.after op) :=
      s.steps_after (fun _ => trivial) False.elim
    have hnone : op.interface? = none := by
      simpa [Operation.isInterface] using hop
    have hkept := keepsInterface_of_not_isInterface hs (Bool.not_eq_true _ ▸ hop)
    refine ⟨draws_of_length hgrows (keepsTraits_of_steps hsteps) (congrArg _ hkept.interface), ?_⟩
    rw [Operation.stageAfter, hnone]
    exact hkept.stage

/-- Operations in order draw the leaves of what they declare. -/
theorem draws_run (ops : List Operation) {s : Session} (hs : s.Sound) :
    s.Draws (· ∈ declaredLeaves s.stage ops) (s.run ops) := by
  induction ops generalizing s with
  | nil => exact draws_of_length (.refl s) (.refl s) rfl
  | cons op rest ih =>
    obtain ⟨hfirst, hstage⟩ := draws_after hs op
    have hrest := ih (hs.after op)
    rw [hstage] at hrest
    exact (hfirst.mono fun _ => List.mem_append_left _).trans
      (hrest.mono fun _ => List.mem_append_right _)

/-- **Every variable at a location stands for a leaf of what was declared**, whatever operations
were run, answered or failed. -/
theorem standsFor_run (stage : Stage) (options : Options) (ops : List Operation)
    {u : InterfaceVariable} (hu : u ∈ ((start stage options).run ops).interface)
    (hlocated : u.isLocated = true) :
    ∃ l ∈ declaredLeaves stage ops, ((start stage options).run ops).emitter.StandsFor u l :=
  (draws_run ops (sound_start stage options)).exists_standsFor hu hlocated

end Session

end ShaderLowering
