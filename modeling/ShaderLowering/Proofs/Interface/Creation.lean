import ShaderLowering.Proofs.Interface.Flow

/-!
# Creation of interface variables

What a session has after it created the variables of some leaves, all of them allowed where they
stand: the labels of the leaves at locations, in order, and a variable for every builtin among them.
Packed leaves leave no trace.  `Session.Creates` states this relative to the leaves, and is composed
by appending them.

Every declaration comes down to leaves that are created in order (`Session.Lowers`), so what holds of
one leaf holds of a whole interface.
-/

namespace ShaderLowering

open Source (Ty Field Param Function)
open Spirv (Builtin StorageClass TypeId VariableId)

/-! ## Sites -/

namespace Placement

variable {b : Builtin} {p : Placement} {point : SignaturePoint}

/-- What is asked for by name is a builtin, but no array of distances. -/
theorem site_ofBuiltin? (h : ofBuiltin? b point = some p) :
    ∃ b', p.site = .builtin b' ∧ ∀ kind : DistanceKind, b' ≠ kind.builtin := by
  rw [ofBuiltin?.eq_def] at h
  -- a builtin is allowed everywhere, at some signature points, or nowhere
  split at h
  all_goals first
    | cases h
      exact ⟨_, rfl, by rintro ⟨⟩ <;> decide⟩
    | split at h
      · cases h
        exact ⟨_, rfl, by rintro ⟨⟩ <;> decide⟩
      · cases h
    | cases h

/-- No semantic is placed on the builtin of an array of distances. -/
theorem ne_distance_of_ofSemantic? {kind : SemanticKind} (h : ofSemantic? kind point = some p)
    (hsite : p.site = .builtin b) (distance : DistanceKind) : b ≠ distance.builtin := by
  cases kind <;> cases point <;> cases h <;> cases hsite <;> cases distance <;> decide

end Placement

namespace InterfaceLeaf

variable {stage : Stage} {l : InterfaceLeaf}

theorem site?_eq_some_iff {site : Site} : l.site? stage = some site ↔
    ∃ p, placementOf stage l.point l.decl l.semantic = .ok p ∧ p.site = site := by
  rw [site?]
  cases placementOf stage l.point l.decl l.semantic <;> simp [Except.toOption]

/-- The placements of a leaf, by name or by its semantic. -/
theorem ofBuiltin?_or_ofSemantic? {p : Placement}
    (h : placementOf stage l.point l.decl l.semantic = .ok p) :
    (∃ name b, l.decl.attributes.builtin = some name ∧
        Placement.namedBuiltins.lookup name = some b ∧ Placement.ofBuiltin? b l.point = some p) ∨
      l.decl.attributes.builtin = none ∧ ∃ semantic, l.semantic = some semantic ∧
        Placement.ofSemantic? semantic.kind l.point = some p := by
  rw [placementOf.eq_def] at h
  split at h
  · -- a builtin asked for by name comes before the semantic
    rename_i name hname
    split at h
    · cases h
    · rename_i b hb
      split at h
      · rename_i hplacement
        cases h
        exact .inl ⟨name, b, hname, hb, hplacement⟩
      · cases h
  · cases h
  · rename_i semantic hnone hsemantic
    split at h
    · cases h
    · split at h
      · rename_i hplacement
        cases h
        exact .inr ⟨hnone, semantic, hsemantic, hplacement⟩
      · cases h

theorem isSome_semantic_of_site? (h : l.site? stage = some .location) :
    l.semantic.isSome = true := by
  obtain ⟨p, hp, hsite⟩ := site?_eq_some_iff.1 h
  rcases ofBuiltin?_or_ofSemantic? hp with ⟨-, b, -, -, hb⟩ | ⟨-, semantic, hsemantic, -⟩
  · obtain ⟨b', hb', -⟩ := Placement.site_ofBuiltin? hb
    rw [hsite] at hb'
    cases hb'
  · rw [hsemantic]
    rfl

/-- No leaf is placed on the builtin of an array of distances. -/
theorem ne_distance_of_site? {b : Builtin} (h : l.site? stage = some (.builtin b))
    (kind : DistanceKind) : b ≠ kind.builtin := by
  obtain ⟨p, hp, hsite⟩ := site?_eq_some_iff.1 h
  rcases ofBuiltin?_or_ofSemantic? hp with ⟨-, b', -, -, hb'⟩ | ⟨-, semantic, -, hplacement⟩
  · obtain ⟨b'', hb'', hne⟩ := Placement.site_ofBuiltin? hb'
    rw [hsite] at hb''
    cases hb''
    exact hne kind
  · exact Placement.ne_distance_of_ofSemantic? hplacement hsite kind

end InterfaceLeaf

/-! ## Emitted variables -/

theorem provides_builtinDecorations {b b' : Builtin} {point : SignaturePoint} :
    .builtin b' ∈ builtinDecorations b point ↔ b' = b := by
  rw [builtinDecorations.eq_def]
  dsimp only
  generalize (point.isPatch && _) = patched
  cases patched <;> simp

theorem not_mem_interpolationDecorations {b : Builtin} {ty : Ty} {modes : Source.Interpolation} :
    .builtin b ∉ interpolationDecorations ty modes := by
  rw [interpolationDecorations]
  split <;> split <;> split <;> split <;> simp

theorem not_mem_locatedDecorations {b : Builtin} {options : Options} {point : SignaturePoint}
    {decl : Field} : .builtin b ∉ locatedDecorations options point decl := by
  have hinterpolation := @not_mem_interpolationDecorations b decl.ty decl.attributes.interpolation
  rw [locatedDecorations]
  split <;> split <;> split <;> cases decl.attributes.index <;> simp [hinterpolation]

namespace Emit

variable {e e' : Emitter} {decl : Field} {c : InterfaceContext}

theorem realizes_interfaceType (he : e.Sound) (ty : Ty) (vertices : Option Nat) :
    Realizes (interfaceType ty vertices) e
      (do return Written.overVertices (← Written.ofTy e.options ty .unlaid {} none) vertices)
      IsTree :=
  (realizes_ofTy ty .unlaid {} none he).bind fun _ _ _ he' _ hbase =>
    realizes_overVertices he' hbase vertices

theorem adds_builtinVariable (he : e.Sound) {b : Builtin} {var : VariableId}
    (h : (builtinVariable decl b c).runOn e = (.ok var, e')) :
    ∃ v, e.Adds e' [v] ∧ ∀ b' storage, v.Provides b' storage ↔
      b' = b ∧ storage = c.point.direction.storage := by
  obtain ⟨_, e₁, h₁, h⟩ := Action.runOn_bind_eq_ok_iff.1 h
  obtain ⟨ty, e₂, h₂, h⟩ := Action.runOn_bind_eq_ok_iff.1 h
  have hmove := adds_moveTo he h₁
  have htype := (realizes_interfaceType hmove.sound _ _).adds h₂
  have hvar := adds_addVariable htype.sound h
  refine ⟨_, (hmove.trans htype).trans hvar, fun b' storage => ?_⟩
  rw [Spirv.Variable.Provides, provides_builtinDecorations, and_comm, eq_comm (a := storage)]

/-- The capability of an input that is interpolated at every sample. -/
def requireSampling (decl : Field) (c : InterfaceContext) : Emit Unit :=
  if c.point = .pixelIn ∧ decl.attributes.interpolation.sample then require .sampleRateShading
  else return ()

/-- What the module has to declare for values of 16 bits on an interface. -/
def declareNarrow (options : Options) (ty : Ty) : Emit Unit :=
  if isNarrow options ty then declare (some .storageInputOutput16) (some .storage16Bit)
  else return ()

theorem locatedVariable_eq (decl : Field) (semantic : Semantic) (c : InterfaceContext) :
    locatedVariable decl semantic c = do
      let options := (← get).options
      moveTo decl.position
      let ty ← interfaceType decl.ty.onInterface c.vertices
      requireSampling decl c
      declareNarrow options decl.ty
      let count ← .ofChecked (Layout.locations options decl.ty)
      let var ← addVariable
        ⟨some (locatedName c.point.direction semantic), ty, c.point.direction.storage,
          locatedDecorations options c.point decl⟩
      return (var, count) := by
  rw [locatedVariable]
  simp only [requireSampling, declareNarrow]
  congr 1
  funext e
  split <;> split <;> rfl

theorem realizes_requireSampling (he : e.Sound) :
    Realizes (requireSampling decl c) e (.ok ()) Same := by
  rw [requireSampling]
  split
  · exact realizes_require he _
  · exact realizes_pure he rfl

theorem realizes_declareNarrow (he : e.Sound) (options : Options) (ty : Ty) :
    Realizes (declareNarrow options ty) e (.ok ()) Same := by
  rw [declareNarrow]
  split
  · exact realizes_declare he _ _
  · exact realizes_pure he rfl

theorem adds_locatedVariable (he : e.Sound) {semantic : Semantic} {r : VariableId × Nat}
    (h : (locatedVariable decl semantic c).runOn e = (.ok r, e')) :
    (∃ v, e.Adds e' [v] ∧ ∀ b storage, ¬v.Provides b storage) ∧
      Layout.locations e.options decl.ty = .ok r.2 := by
  rw [locatedVariable_eq] at h
  obtain ⟨_, _, h₀, h⟩ := Action.runOn_bind_eq_ok_iff.1 h
  cases h₀
  obtain ⟨_, e₁, h₁, h⟩ := Action.runOn_bind_eq_ok_iff.1 h
  obtain ⟨ty, e₂, h₂, h⟩ := Action.runOn_bind_eq_ok_iff.1 h
  obtain ⟨_, e₃, h₃, h⟩ := Action.runOn_bind_eq_ok_iff.1 h
  obtain ⟨_, e₄, h₄, h⟩ := Action.runOn_bind_eq_ok_iff.1 h
  obtain ⟨count, e₅, h₅, h⟩ := Action.runOn_bind_eq_ok_iff.1 h
  obtain ⟨var, e₆, h₆, h⟩ := Action.runOn_bind_eq_ok_iff.1 h
  cases h
  obtain ⟨hcount, rfl⟩ := Action.runOn_ofChecked_eq_ok_iff.1 h₅
  -- everything before the last step adds no variable
  have hmove := adds_moveTo he h₁
  have htype := hmove.trans ((realizes_interfaceType hmove.sound _ _).adds h₂)
  have hsampling := htype.trans ((realizes_requireSampling htype.sound).adds h₃)
  have hnarrow := hsampling.trans ((realizes_declareNarrow hsampling.sound _ _).adds h₄)
  have hvar := hnarrow.trans (adds_addVariable hnarrow.sound h₆)
  exact ⟨⟨_, hvar, fun b storage hprovides => not_mem_locatedDecorations hprovides.2⟩, hcount⟩

end Emit

/-! ## Created leaves -/

/-- Whether the module of a session has a variable for a builtin in a direction. -/
def Session.HasBuiltin (s : Session) (b : Builtin) (direction : Direction) : Prop :=
  s.emitter.target.HasBuiltin b direction.storage

/-- The emitter is sound, and the builtins that the session remembers exist. -/
structure Session.Ready (s : Session) : Prop where
  sound : s.emitter.Sound
  known : ∀ key known, s.builtins.lookup key = some known → s.HasBuiltin key.1 key.2

/-- A session of a stage in which no interface variable has been created yet. -/
structure Session.Blank (s : Session) (stage : Stage) : Prop where
  sound : s.emitter.Sound
  stage : s.stage = stage
  interface : s.interface = []
  builtins : s.builtins = []

theorem Session.Blank.ready {s : Session} {stage : Stage} (h : s.Blank stage) : s.Ready :=
  ⟨h.sound, fun key known hkey => by simp [h.builtins] at hkey⟩

theorem Session.blank_start (stage : Stage) (options : Options) :
    (Session.start stage options).Blank stage :=
  ⟨Emitter.sound_start options, rfl, rfl, rfl⟩

/-- The second session has what the first has and the variables of some leaves. -/
structure Session.Creates (s s' : Session) (leaves : List InterfaceLeaf) : Prop where
  ready : s'.Ready
  stage : s'.stage = s.stage
  distances : s'.distances = s.distances
  placed : ∀ l ∈ leaves, (l.site? s.stage).isSome
  located : s'.interface.filterMap (·.located?) =
    s.interface.filterMap (·.located?) ++ leaves.filterMap (·.located? s.stage)
  builtin : ∀ b direction, s'.HasBuiltin b direction ↔ s.HasBuiltin b direction ∨
    ∃ l ∈ leaves, l.site? s.stage = some (.builtin b) ∧ l.direction = direction

namespace Session.Creates

variable {s s' s'' : Session} {leaves leaves' : List InterfaceLeaf}

theorem refl (hs : s.Ready) : s.Creates s [] := ⟨hs, rfl, rfl, by simp, by simp, by simp⟩

theorem trans (h : s.Creates s' leaves) (h' : s'.Creates s'' leaves') :
    s.Creates s'' (leaves ++ leaves') where
  ready := h'.ready
  stage := h'.stage.trans h.stage
  distances := h'.distances.trans h.distances
  placed l hl := by
    rcases List.mem_append.1 hl with hl | hl
    · exact h.placed l hl
    · rw [← h.stage]
      exact h'.placed l hl
  located := by
    rw [h'.located, h.located, h.stage, List.filterMap_append, List.append_assoc]
  builtin b direction := by
    rw [h'.builtin, h.builtin, h.stage, or_assoc]
    simp only [List.mem_append, or_and_right, exists_or]

/-- A part that adds no variable creates nothing. -/
theorem of_adds (hs : s.Ready) {e' : Emitter} (h : s.emitter.Adds e' []) :
    s.Creates { s with emitter := e' } [] := by
  have hbuiltin : ∀ b direction, HasBuiltin { s with emitter := e' } b direction ↔
      s.HasBuiltin b direction := fun b direction => by
    rw [HasBuiltin, h.hasBuiltin_iff]
    simp [HasBuiltin]
  refine ⟨⟨h.sound, fun key known hknown => ?_⟩, rfl, rfl, by simp, by simp, by simp [hbuiltin]⟩
  exact (hbuiltin _ _).2 (hs.known key known hknown)

/-- A variable of a builtin is told apart by no label. -/
theorem of_addInterface (hs : s.Ready) {v : InterfaceVariable} (hv : v.located? = none) :
    s.Creates { s with interface := s.interface ++ [v] } [] :=
  ⟨⟨hs.sound, hs.known⟩, rfl, rfl, by simp, by simp [List.filterMap_append, hv],
    fun _ _ => by simp [HasBuiltin]⟩

end Session.Creates

namespace Lower

variable {s s' : Session} {decl : Field} {semantic : Option Semantic} {c : InterfaceContext}
  {b : Builtin}

theorem runOn_emit_eq_ok_iff {α : Type} {x : Emit α} {a : α} :
    (emit x).runOn s = (.ok a, s') ↔
      ∃ e', x.runOn s.emitter = (.ok a, e') ∧ s' = { s with emitter := e' } := by
  show emit x s = _ ↔ _
  rw [emit]
  rcases x.runOn s.emitter with ⟨r, e'⟩
  constructor
  · intro h
    cases h
    exact ⟨e', rfl, rfl⟩
  · rintro ⟨_, h, rfl⟩
    cases h
    rfl

/-- A leaf with a builtin variable that is there already. -/
theorem creates_known (hs : s.Ready) {l : InterfaceLeaf}
    (hsite : l.site? s.stage = some (.builtin b)) (h : s.HasBuiltin b l.direction) :
    s.Creates s [l] := by
  refine ⟨hs, rfl, rfl, by simp [hsite], by simp [InterfaceLeaf.located?, hsite], ?_⟩
  intro b' direction
  constructor
  · exact .inl
  · rintro (hbuiltin | ⟨_, hl, hsite', rfl⟩)
    · exact hbuiltin
    · cases List.mem_singleton.1 hl
      rw [hsite] at hsite'
      cases hsite'
      exact h

theorem creates_builtinVariable (hs : s.Ready)
    (hsite : InterfaceLeaf.site? s.stage ⟨c.point, decl, semantic⟩ = some (.builtin b))
    {r : VariableId × SignaturePoint}
    (h : (builtinVariable decl b c).runOn s = (.ok r, s')) :
    s.Creates s' [⟨c.point, decl, semantic⟩] := by
  obtain ⟨_, _, h₀, h⟩ := Action.runOn_bind_eq_ok_iff.1 h
  cases h₀
  split at h
  · rename_i hknown
    cases h
    exact creates_known hs hsite (hs.known _ _ hknown)
  · obtain ⟨var, s₁, h₁, h⟩ := Action.runOn_bind_eq_ok_iff.1 h
    obtain ⟨e₁, hrun, rfl⟩ := runOn_emit_eq_ok_iff.1 h₁
    cases h
    obtain ⟨v, hadds, hprovides⟩ := Emit.adds_builtinVariable hs.sound hrun
    have hbuiltin : ∀ b' direction, e₁.target.HasBuiltin b' direction.storage ↔
        s.HasBuiltin b' direction ∨ (b' = b ∧ direction = c.point.direction) := by
      intro b' direction
      rw [hadds.hasBuiltin_iff]
      simp only [List.mem_singleton, exists_eq_left, hprovides, Direction.storage_inj]
      rfl
    refine ⟨⟨hadds.sound, fun key known hkey => (hbuiltin _ _).2 ?_⟩, rfl, rfl, by simp [hsite],
      by simp [InterfaceLeaf.located?, hsite], fun b' direction => (hbuiltin _ _).trans ?_⟩
    · -- the builtin that is remembered now is the one that was added
      change List.lookup key (((b, c.point.direction), _) :: s.builtins) = _ at hkey
      rw [List.lookup_cons] at hkey
      split at hkey
      · rename_i heq
        cases eq_of_beq heq
        exact .inr ⟨rfl, rfl⟩
      · exact .inl (hs.known key known hkey)
    · simp only [List.mem_singleton, exists_eq_left, hsite, Option.some.injEq, Site.builtin.injEq,
        InterfaceLeaf.direction, eq_comm]

theorem creates_createBuiltin (hs : s.Ready)
    (hsite : InterfaceLeaf.site? s.stage ⟨c.point, decl, semantic⟩ = some (.builtin b))
    (h : (createBuiltin decl semantic b c).runOn s = (.ok (), s')) :
    s.Creates s' [⟨c.point, decl, semantic⟩] := by
  obtain ⟨⟨var, point⟩, s₁, h₁, h⟩ := Action.runOn_bind_eq_ok_iff.1 h
  have hvar := creates_builtinVariable hs hsite h₁
  dsimp only at h
  split at h
  · cases h
    exact hvar.trans (.of_addInterface hvar.ready rfl)
  · cases h
    exact hvar

theorem creates_createLocated (hs : s.Ready) {semantic : Semantic}
    (hsite : InterfaceLeaf.site? s.stage ⟨c.point, decl, some semantic⟩ = some .location)
    (h : (createLocated decl semantic c).runOn s = (.ok (), s')) :
    s.Creates s' [⟨c.point, decl, some semantic⟩] := by
  obtain ⟨⟨var, count⟩, s₁, h₁, h⟩ := Action.runOn_bind_eq_ok_iff.1 h
  obtain ⟨e₁, hrun, rfl⟩ := runOn_emit_eq_ok_iff.1 h₁
  obtain ⟨⟨v, hadds, hprovides⟩, -⟩ := Emit.adds_locatedVariable hs.sound hrun
  cases h
  have hbuiltin : ∀ b direction, e₁.target.HasBuiltin b direction.storage ↔
      s.HasBuiltin b direction := by
    intro b direction
    rw [hadds.hasBuiltin_iff]
    simp [hprovides, Session.HasBuiltin]
  refine ⟨⟨hadds.sound, fun key known hkey => (hbuiltin _ _).2 (hs.known key known hkey)⟩, rfl,
    rfl, by simp [hsite], ?_, fun b direction => (hbuiltin b direction).trans ?_⟩
  · simp [InterfaceLeaf.located?, InterfaceLeaf.label, hsite, InterfaceVariable.located?,
      InterfaceVariable.isLocated]
  · simp [hsite]

/-- A packed leaf is part of arrays that are created elsewhere. -/
theorem creates_packed (hs : s.Ready) {l : InterfaceLeaf} (hsite : l.site? s.stage = some .packed) :
    s.Creates s [l] :=
  ⟨hs, rfl, rfl, by simp [hsite], by simp [InterfaceLeaf.located?, hsite], by simp [hsite]⟩

/-- A leaf with which nothing is wrong is created where it is placed. -/
theorem creates_createLeaf (hs : s.Ready)
    (h : (createLeaf decl semantic c).runOn s = (.ok true, s')) :
    s.Creates s' [⟨c.point, decl, semantic⟩] := by
  obtain ⟨_, _, h₀, h⟩ := Action.runOn_bind_eq_ok_iff.1 h
  cases h₀
  split at h
  · obtain ⟨_, s₁, -, h⟩ := Action.runOn_bind_eq_ok_iff.1 h
    cases h
  rename_i placement hplacement
  obtain ⟨_, s₁, h₁, h⟩ := Action.runOn_bind_eq_ok_iff.1 h
  obtain ⟨e₁, hrun, rfl⟩ := runOn_emit_eq_ok_iff.1 h₁
  have hdeclare := Session.Creates.of_adds hs
    ((Emit.realizes_declare hs.sound placement.capability placement.extension).adds hrun)
  have hsite : InterfaceLeaf.site? s.stage ⟨c.point, decl, semantic⟩ = some placement.site :=
    InterfaceLeaf.site?_eq_some_iff.2 ⟨placement, hplacement, rfl⟩
  refine hdeclare.trans ?_
  obtain ⟨site, capability, extension⟩ := placement
  -- what is created depends on the site, and a leaf at a location always has a semantic
  match site, semantic, h, hsite with
  | .packed, _, h, hsite =>
    cases h
    exact creates_packed hdeclare.ready hsite
  | .builtin b, _, h, hsite =>
    obtain ⟨_, s₂, h₂, h⟩ := Action.runOn_bind_eq_ok_iff.1 h
    cases h
    exact creates_createBuiltin hdeclare.ready hsite h₂
  | .location, some semantic, h, hsite =>
    obtain ⟨_, s₂, h₂, h⟩ := Action.runOn_bind_eq_ok_iff.1 h
    cases h
    exact creates_createLocated hdeclare.ready hsite h₂
  | .location, none, _, hsite =>
    have hsemantic := InterfaceLeaf.isSome_semantic_of_site? hsite
    cases hsemantic

end Lower

/-! ## Leaves in order -/

/-- The second session arises from the first by creating some leaves in order, with nothing wrong
with any.  On the way there may be something to report. -/
inductive Session.Lowers : Session → List InterfaceLeaf → Session → Prop
  | nil {s : Session} : Lowers s [] s
  | leaf {s s' s'' : Session} {decl : Field} {semantic : Option Semantic} {c : InterfaceContext}
      {leaves : List InterfaceLeaf} :
      (Lower.createLeaf decl semantic c).runOn s = (.ok true, s') → Lowers s' leaves s'' →
      Lowers s (⟨c.point, decl, semantic⟩ :: leaves) s''
  | remark {s s' s'' : Session} {finding : Finding} {position : Source.Position}
      {leaves : List InterfaceLeaf} :
      (Lower.report finding position).runOn s = (.ok (), s') → Lowers s' leaves s'' →
      Lowers s leaves s''

namespace Session.Lowers

variable {s s' s'' : Session} {leaves leaves' : List InterfaceLeaf}

theorem trans (h : s.Lowers leaves s') (h' : s'.Lowers leaves' s'') :
    s.Lowers (leaves ++ leaves') s'' := by
  induction h with
  | nil => exact h'
  | leaf hleaf _ ih => exact .leaf hleaf (ih h')
  | remark hreport _ ih => exact .remark hreport (ih h')

/-- Leaves that are created in order are all created. -/
theorem creates (h : s.Lowers leaves s') (hs : s.Ready) : s.Creates s' leaves := by
  induction h with
  | nil => exact .refl hs
  | leaf hleaf _ ih =>
    have hfirst := Lower.creates_createLeaf hs hleaf
    exact hfirst.trans (ih hfirst.ready)
  | @remark _ _ _ finding position _ hreport _ ih =>
    obtain ⟨e₁, hrun, rfl⟩ := Lower.runOn_emit_eq_ok_iff.1 hreport
    have hadds := (Emit.realizes_report hs.sound finding position).adds hrun
    have hfirst := Session.Creates.of_adds hs hadds
    exact hfirst.trans (ih hfirst.ready)

theorem stage (h : s.Lowers leaves s') (hs : s.Ready) : s'.stage = s.stage :=
  (h.creates hs).stage

end Session.Lowers

namespace Lower

variable {s s' : Session} {decl : Field} {c : InterfaceContext}

theorem lowers_createItem {item : InterfaceItem}
    (h : (createItem c item).runOn s = (.ok true, s')) :
    s.Lowers (item.leaf? c.point).toList s' := by
  cases item with
  | leaf decl semantic => exact .leaf h .nil
  | remark finding position =>
    obtain ⟨_, s₁, h₁, h⟩ := Action.runOn_bind_eq_ok_iff.1 h
    rw [Action.runOn_pure, Prod.mk.injEq] at h
    exact h.2 ▸ .remark h₁ .nil

theorem lowers_createItems : {items : List InterfaceItem} → {s s' : Session} →
    (createItems c items).runOn s = (.ok true, s') →
    s.Lowers (items.filterMap (·.leaf? c.point)) s'
  | [], s, _, h => by
    cases h
    exact .nil
  | item :: rest, s, s', h => by
    obtain ⟨s₁, hitem, hrest⟩ := Action.runOn_and_eq_ok_iff.1 h
    have hall := (lowers_createItem hitem).trans (lowers_createItems hrest)
    rw [List.filterMap_cons]
    -- a remark is reported on the way, but it is no leaf
    cases hleaf : item.leaf? c.point with
    | none =>
      rw [hleaf] at hall
      exact hall
    | some l =>
      rw [hleaf] at hall
      exact hall

/-! ## Declarations and parameters -/

theorem lowers_createDeclaration {point : Option SignaturePoint}
    {vertices invocation : Option Nat}
    (h : (createDeclaration decl point vertices invocation).runOn s = (.ok true, s')) :
    s.Lowers (InterfaceLeaf.ofDeclaration decl point) s' := by
  rw [createDeclaration.eq_def] at h
  rw [InterfaceLeaf.ofDeclaration.eq_def]
  split at h
  · rename_i hvoid
    rw [if_pos hvoid]
    cases h
    exact .nil
  · rename_i hvoid
    rw [if_neg hvoid]
    cases point with
    | none =>
      obtain ⟨_, s₁, -, h⟩ := Action.runOn_bind_eq_ok_iff.1 h
      obtain ⟨_, s₂, -, h⟩ := Action.runOn_bind_eq_ok_iff.1 h
      cases h
    | some point => exact lowers_createItems h

theorem lowers_createInput {p : Param} {perPatch : Bool}
    (h : (createInput p perPatch).runOn s = (.ok true, s')) :
    s.Lowers (p.inputLeaves s.stage perPatch) s' := by
  rw [createInput] at h
  rw [Param.inputLeaves]
  split at h
  · rename_i hstream
    rw [if_pos hstream]
    cases h
    exact .nil
  · rename_i hstream
    rw [if_neg hstream]
    obtain ⟨_, _, h₀, h⟩ := Action.runOn_bind_eq_ok_iff.1 h
    cases h₀
    dsimp only at h
    rcases hvertex : p.perVertex s.stage perPatch with ⟨_ | ty, vertices⟩ <;> rw [hvertex] at h
    · cases h
      exact .nil
    · exact lowers_createDeclaration h

theorem lowers_createOutput {p : Param} {perPatch : Bool}
    (h : (createOutput p perPatch).runOn s = (.ok true, s')) :
    s.Lowers (p.outputLeaves s.stage perPatch) s' := by
  obtain ⟨_, _, h₀, h⟩ := Action.runOn_bind_eq_ok_iff.1 h
  cases h₀
  dsimp only at h
  rw [Param.outputLeaves]
  split at h
  · -- the control points of a hull shader pass values of their own
    rename_i hhull
    rw [if_pos hhull]
    obtain ⟨_, _, h₁, h⟩ := Action.runOn_bind_eq_ok_iff.1 h
    cases h₁
    cases hpoints : s.outputPoints with
    | none =>
      rw [hpoints] at h
      obtain ⟨_, _, -, h⟩ := Action.runOn_bind_eq_ok_iff.1 h
      cases h
    | some points =>
      rw [hpoints] at h
      exact lowers_createDeclaration h
  · rename_i hhull
    rw [if_neg hhull]
    cases hty : (p.perVertex s.stage perPatch).1 with
    | none =>
      rw [hty] at h
      cases h
      exact .nil
    | some ty =>
      rw [hty] at h
      exact lowers_createDeclaration h

/-- The variables of the values that a parameter passes in. -/
def createIn (p : Param) (perPatch : Bool) : Lower Bool :=
  if p.isInput then createInput p perPatch else return true

/-- The variables of the values that a parameter passes out. -/
def createOut (p : Param) (perPatch : Bool) : Lower Bool :=
  if p.isOutput then createOutput p perPatch else return true

theorem lowers_createIn {p : Param} {perPatch : Bool}
    (h : (createIn p perPatch).runOn s = (.ok true, s')) :
    s.Lowers (p.inLeaves s.stage perPatch) s' := by
  rw [createIn] at h
  rw [Param.inLeaves]
  split at h
  · rename_i hin
    rw [if_pos hin]
    exact lowers_createInput h
  · rename_i hin
    rw [if_neg hin]
    cases h
    exact .nil

theorem lowers_createOut {p : Param} {perPatch : Bool}
    (h : (createOut p perPatch).runOn s = (.ok true, s')) :
    s.Lowers (p.outLeaves s.stage perPatch) s' := by
  rw [createOut] at h
  rw [Param.outLeaves]
  split at h
  · rename_i hout
    rw [if_pos hout]
    exact lowers_createOutput h
  · rename_i hout
    rw [if_neg hout]
    cases h
    exact .nil

theorem createParam_eq (p : Param) : createParam p = do
    let inputs ← createIn p false
    let outputs ← createOut p false
    return inputs && outputs := by
  rw [createParam, createIn, createOut]
  split <;> split <;> rfl

theorem lowers_createParam (hs : s.Ready) {p : Param}
    (h : (createParam p).runOn s = (.ok true, s')) :
    s.Lowers (p.inLeaves s.stage false ++ p.outLeaves s.stage false) s' := by
  rw [createParam_eq] at h
  obtain ⟨s₁, hin, hout⟩ := Action.runOn_and_eq_ok_iff.1 h
  have hinputs := lowers_createIn hin
  have houtputs := lowers_createOut hout
  rw [hinputs.stage hs] at houtputs
  exact hinputs.trans houtputs

theorem outputLeaves_of_isVoid {p : Param} {stage : Stage} {perPatch : Bool}
    (h : p.ty.isVoid = true) : p.outputLeaves stage perPatch = [] := by
  have hshape : p.ty.shape = .void := by
    rw [Ty.isVoid] at h
    split at h
    · assumption
    · cases h
  have hvertex : p.perVertex stage perPatch = (some p.ty, none) := by
    simp [Param.perVertex, Param.perVertex.ofShape, Ty.resource?, hshape]
  have hdecl : ∀ point, InterfaceLeaf.ofDeclaration (declarationOf p p.ty) point = [] := by
    intro point
    rw [InterfaceLeaf.ofDeclaration.eq_def]
    exact if_pos h
  rw [Param.outputLeaves, hvertex]
  split <;> exact hdecl _

theorem lowers_createReturn {f : Function} {perPatch : Bool}
    (h : (createReturn f perPatch).runOn s = (.ok true, s')) :
    s.Lowers (f.returnParam.outputLeaves s.stage perPatch) s' := by
  rw [createReturn] at h
  split at h
  · -- nothing is created for `void`, which has no leaves
    rename_i hvoid
    cases h
    rw [outputLeaves_of_isVoid hvoid]
    exact .nil
  · exact lowers_createOutput h

/-- A list of checks creates what each of them does. -/
theorem lowers_forAll {α : Type} {check : α → Lower Bool} (leaves : Stage → α → List InterfaceLeaf)
    (hcheck : ∀ {a s s'}, s.Ready → (check a).runOn s = (.ok true, s') →
      s.Lowers (leaves s.stage a) s') :
    {l : List α} → {s s' : Session} → s.Ready → (forAll check l).runOn s = (.ok true, s') →
    s.Lowers (l.flatMap (leaves s.stage)) s'
  | [], s, _, _, h => by
    cases h
    exact .nil
  | a :: rest, s, s', hs, h => by
    obtain ⟨s₁, hfirst, hrest⟩ := Action.runOn_and_eq_ok_iff.1 h
    have ha := hcheck hs hfirst
    have hothers := lowers_forAll leaves hcheck (ha.creates hs).ready hrest
    rw [ha.stage hs] at hothers
    exact ha.trans hothers

/-- The parameters and the return value of an entry point. -/
theorem lowers_function (hs : s.Ready) {f : Function} {s₁ : Session}
    (hparams : (forAll createParam f.params).runOn s = (.ok true, s₁))
    (hresult : (createReturn f false).runOn s₁ = (.ok true, s')) :
    s.Lowers (f.leaves s.stage false) s' := by
  have hfirst := lowers_forAll (fun stage p => p.inLeaves stage false ++ p.outLeaves stage false)
    (fun ha hrun => lowers_createParam ha hrun) hs hparams
  have hlast := lowers_createReturn hresult
  rw [hfirst.stage hs] at hlast
  exact hfirst.trans hlast

theorem lowers_createPatchFunction (hs : s.Ready) {f : Function}
    (h : (createPatchFunction f).runOn s = (.ok true, s')) :
    s.Lowers (f.patchLeaves s.stage) s' := by
  obtain ⟨s₁, hparams, hresult⟩ := Action.runOn_and_eq_ok_iff.1 h
  have hfirst := lowers_forAll (fun stage p => p.inLeaves stage true)
    (fun _ hrun => lowers_createIn hrun) hs hparams
  have hlast := lowers_createReturn hresult
  rw [hfirst.stage hs] at hlast
  exact hfirst.trans hlast

end Lower

end ShaderLowering
