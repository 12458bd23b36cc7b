import ShaderLowering.Proofs.Session.Interface
import ShaderLowering.Proofs.Session.Linkages
import ShaderLowering.Proofs.Session.Semantics

/-!
# Declarations in another order

In alphabetical order, locations do not depend on the order in which declarations are created.  Which
builtins are listed does: one that is used at several signature points is listed at the point of its
first use.  So whether a semantic is found to be used twice may depend on the order of declarations
(`Lower.linkages_perm_of_perm`).
-/

namespace ShaderLowering

open Source (Param)
open Spirv (Builtin)

/-! ## Builtins of outputs -/

/-- Whether a builtin is one of the tessellation factors. -/
def Spirv.Builtin.isTessLevel : Builtin → Bool
  | .tessLevelOuter | .tessLevelInner => true
  | _ => false

namespace InterfaceLeaf

variable {stage : Stage} {l m : InterfaceLeaf} {leaves leaves' : List InterfaceLeaf} {b : Builtin}

theorem isTessLevel_of_patchConstantOut (hpoint : l.point = .patchConstantOut)
    (hsite : l.site? stage = some (.builtin b)) : b.isTessLevel = true := by
  obtain ⟨p, hp, hb⟩ := site?_eq_some_iff.1 hsite
  rcases ofBuiltin?_or_ofSemantic? hp with ⟨-, b', -, -, hplacement⟩ | ⟨-, a, -, hplacement⟩ <;>
    rw [hpoint] at hplacement
  · cases b' <;> cases hplacement
  · generalize a.kind = kind at hplacement
    cases kind <;> cases hplacement <;> cases hb
    all_goals rfl

theorem not_isTessLevel_of_hullPointOut (hpoint : l.point = .hullPointOut)
    (hsite : l.site? stage = some (.builtin b)) : b.isTessLevel = false := by
  obtain ⟨p, hp, hb⟩ := site?_eq_some_iff.1 hsite
  rcases ofBuiltin?_or_ofSemantic? hp with ⟨-, b', -, -, hplacement⟩ | ⟨-, a, -, hplacement⟩ <;>
    rw [hpoint] at hplacement
  · cases b' <;> cases hplacement
    cases hb
    rfl
  · generalize a.kind = kind at hplacement
    cases kind <;> cases hplacement <;> cases hb
    all_goals rfl

/-- No builtin is an output of one stage at two signature points. -/
theorem point_eq_of_outputs {role role' : Role}
    (hl : SignaturePoint.of? stage .output role = some l.point)
    (hm : SignaturePoint.of? stage .output role' = some m.point)
    (hsite : l.site? stage = some (.builtin b)) (hsite' : m.site? stage = some (.builtin b)) :
    l.point = m.point := by
  by_cases hhull : stage = .hull
  · subst hhull
    have hcases : ∀ {role : Role} {point : SignaturePoint},
        SignaturePoint.of? .hull .output role = some point →
          point = .hullPointOut ∨ point = .patchConstantOut := by
      intro role point h
      cases role <;> cases h <;> simp
    rcases hcases hl with hl | hl <;> rcases hcases hm with hm | hm
    · exact hl.trans hm.symm
    · cases (not_isTessLevel_of_hullPointOut hl hsite).symm.trans
        (isTessLevel_of_patchConstantOut hm hsite')
    · cases (not_isTessLevel_of_hullPointOut hm hsite').symm.trans
        (isTessLevel_of_patchConstantOut hl hsite)
    · exact hl.trans hm.symm
  · have hsame : SignaturePoint.of? stage .output role = SignaturePoint.of? stage .output role' := by
      cases stage <;> first | rfl | exact absurd rfl hhull
    exact Option.some.inj (hl.symm.trans (hsame.trans hm))

theorem SpelledAlike.symm (h : l.SpelledAlike m) : m.SpelledAlike l := by
  obtain ⟨a, b, ha, hb, hkey⟩ := h
  exact ⟨b, a, hb, ha, hkey.symm⟩

/-- If no builtin is used at two points, the order does not matter to what is listed. -/
theorem listed_perm (hperm : leaves.Perm leaves') (hone : UsedAtOnePoint stage leaves)
    (hplaced : ∀ l ∈ leaves, (l.site? stage).isSome = true) :
    (listed stage leaves).Perm (listed stage leaves') := by
  have hone' : UsedAtOnePoint stage leaves' := fun l hl m hm =>
    hone l (hperm.mem_iff.2 hl) m (hperm.mem_iff.2 hm)
  rw [listed_of_usedAtOnePoint hone hplaced,
    listed_of_usedAtOnePoint hone' fun l hl => hplaced l (hperm.mem_iff.2 hl)]
  exact hperm.filter _

end InterfaceLeaf

/-! ## Declarations of one direction -/

/-- The leaves of a declaration in a direction; the second component tells whether it is one of a
per-patch function. -/
def createdLeaves (direction : Direction) (stage : Stage) (d : Param × Bool) : List InterfaceLeaf :=
  match direction with
  | .input => d.1.inputLeaves stage d.2
  | .output => d.1.outputLeaves stage d.2

theorem exists_role_of_mem_createdLeaves {direction : Direction} {stage : Stage} {d : Param × Bool}
    {l : InterfaceLeaf} (h : l ∈ createdLeaves direction stage d) :
    ∃ role, SignaturePoint.of? stage direction role = some l.point := by
  cases direction with
  | input =>
    change l ∈ d.1.inputLeaves stage d.2 at h
    rw [Param.inputLeaves] at h
    split at h
    · cases h
    · split at h
      · cases h
      · exact ⟨_, InterfaceLeaf.point_of_mem_ofDeclaration h⟩
  | output =>
    change l ∈ d.1.outputLeaves stage d.2 at h
    rw [Param.outputLeaves] at h
    split at h
    · rename_i hhull
      refine ⟨.plain, ?_⟩
      rw [hhull.1]
      exact InterfaceLeaf.point_of_mem_ofDeclaration h
    · split at h
      · cases h
      · exact ⟨_, InterfaceLeaf.point_of_mem_ofDeclaration h⟩

/-- Outputs use every builtin at one point. -/
theorem usedAtOnePoint_outputs (stage : Stage) (ds : List (Param × Bool)) :
    InterfaceLeaf.UsedAtOnePoint stage (ds.flatMap (createdLeaves .output stage)) := by
  intro l hl m hm b hsite hsite' _
  obtain ⟨d, -, hl⟩ := List.mem_flatMap.1 hl
  obtain ⟨d', -, hm⟩ := List.mem_flatMap.1 hm
  obtain ⟨role, hrole⟩ := exists_role_of_mem_createdLeaves hl
  obtain ⟨role', hrole'⟩ := exists_role_of_mem_createdLeaves hm
  exact InterfaceLeaf.point_eq_of_outputs hrole hrole' hsite hsite'

namespace Lower

/-- Creates the variables of a declaration in a direction. -/
def create (direction : Direction) (d : Param × Bool) : Lower Bool :=
  match direction with
  | .input => createInput d.1 d.2
  | .output => createOutput d.1 d.2

variable {direction : Direction} {stage : Stage} {options : Options} {ds ds' : List (Param × Bool)}
  {s s₁ s₂ s' s₁' : Session}

theorem lowers_create {d : Param × Bool} (h : (create direction d).runOn s = (.ok true, s')) :
    s.Lowers (createdLeaves direction s.stage d) s' := by
  cases direction
  · exact lowers_createInput h
  · exact lowers_createOutput h

theorem keeps_create (d : Param × Bool) (hs : s.Sound) :
    Session.contract.Keeps (create direction d) s := by
  cases direction
  · exact keeps_createInput hs
  · exact keeps_createOutput hs

/-- What a session is after declarations of one direction were created with nothing wrong. -/
theorem created_of_runOn
    (h : (forAll (create direction) ds).runOn (.start stage options) = (.ok true, s)) :
    s.Sound ∧ s.Flows direction ∧
      s.Lists options stage (ds.flatMap (createdLeaves direction stage)) ∧
      ∀ l ∈ ds.flatMap (createdLeaves direction stage), (l.site? stage).isSome = true := by
  have hblank := Session.blank_start stage options
  have hlowers : (Session.start stage options).Lowers
      (ds.flatMap (createdLeaves direction stage)) s :=
    lowers_forAll (createdLeaves direction) (fun _ hrun => lowers_create hrun) hblank.ready h
  have hsound := ((keeps_forAll ds (fun d _ _ hs => keeps_create d hs)
    (Session.sound_start stage options)).of_run h).1
  refine ⟨hsound, hlowers.of_start fun l hl => ?_⟩
  obtain ⟨d, -, hl⟩ := List.mem_flatMap.1 hl
  obtain ⟨role, hrole⟩ := exists_role_of_mem_createdLeaves hl
  exact SignaturePoint.direction_of? hrole

/-- Nothing is reported about the only direction exactly if no two listed leaves are spelled
alike. -/
theorem repeatedIn_eq_nil_iff_of_flows {leaves : List InterfaceLeaf} (hflows : s.Flows direction)
    (hlists : s.Lists options stage leaves) : repeatedIn direction s = [] ↔
      (InterfaceLeaf.listed stage leaves).Pairwise fun l m => ¬l.SpelledAlike m := by
  have hdirection : ∀ l ∈ InterfaceLeaf.listed stage leaves, l.direction = direction := by
    intro l hl
    have hmem := List.mem_map_of_mem (f := (·.entry options stage)) hl
    rw [← hlists.entries] at hmem
    obtain ⟨v, hv, hentry⟩ := List.mem_map.1 hmem
    have hpoint := congrArg (·.point.direction) hentry
    exact hpoint.symm.trans (hflows v hv)
  rw [repeatedIn_eq_nil_iff, hlists.entries, InterfaceLeaf.nodup_keysIn_iff]
  exact ⟨fun h => h.imp_of_mem fun hl hm hapart => hapart (hdirection _ hl) (hdirection _ hm),
    fun h => h.imp fun hapart _ _ => hapart⟩

/-- Variables at locations that are spelled apart have different strings. -/
theorem nodup_key_linkages {leaves : List InterfaceLeaf} (hlists : s.Lists options stage leaves)
    (h : (InterfaceLeaf.listed stage leaves).Pairwise fun l m => ¬l.SpelledAlike m) :
    (s.linkages.map (·.key)).Nodup := by
  have hkey : ∀ {l : InterfaceLeaf} {k : Linkage}, l.linkage? options stage = some k →
      ∃ a, l.semantic = some a ∧ k.key = a.string := by
    intro l k hk
    rw [InterfaceLeaf.linkage?] at hk
    split at hk
    · rename_i hsite
      obtain ⟨count, -, rfl⟩ := Option.map_eq_some_iff.1 hk
      obtain ⟨a, ha⟩ := Option.isSome_iff_exists.1 (InterfaceLeaf.isSome_semantic_of_site? hsite)
      exact ⟨a, ha, by simp [Linkage.key, ha]⟩
    · cases hk
  rw [hlists.linkages_listed, List.Nodup, List.pairwise_map, List.pairwise_filterMap]
  refine h.imp fun {l m} hapart k hk k' hk' heq => hapart ?_
  obtain ⟨a, ha, hstring⟩ := hkey hk
  obtain ⟨b, hb, hstring'⟩ := hkey hk'
  refine ⟨a, b, ha, hb, ?_⟩
  rw [Semantic.key, Semantic.key, ← hstring, heq, hstring']

/-- Sessions of one direction with the same linkages, in whatever order, keep having the same linkages
after locations were given out in alphabetical order. -/
theorem exists_linkages_perm (hsound₁ : s₁.Sound) (hsound₂ : s₂.Sound)
    (hflows₁ : s₁.Flows direction) (hflows₂ : s₂.Flows direction)
    (horder₁ : s₁.emitter.options.order = .alphabetical)
    (horder₂ : s₂.emitter.options.order = .alphabetical)
    (hperm : s₁.linkages.Perm s₂.linkages) (hkeys : (s₁.linkages.map (·.key)).Nodup)
    (hrun : decorateLocations.runOn s₁ = (.ok true, s₁')) :
    ∃ s₂', decorateLocations.runOn s₂ = (.ok (repeatedIn direction s₂).isEmpty, s₂') ∧
      s₂'.linkages.Perm s₁'.linkages ∧ (s₁'.linkages.map (·.key)).Nodup := by
  obtain ⟨plan, -, hplan, -, hanswer, -⟩ := exists_plan_of_runOn hsound₁ hflows₁ hrun
  rw [Eq.comm, Bool.and_eq_true, List.isEmpty_iff, List.isEmpty_iff] at hanswer
  rw [horder₁] at hplan
  rw [← Session.map_linkage_locatedVariables hflows₁] at hperm hkeys
  rw [← Session.map_linkage_locatedVariables hflows₂] at hperm
  obtain ⟨plan', ps, ps', hplan', hnil', hps, hps', hplacings⟩ :=
    LocationPlan.exists_of_perm hperm hkeys hplan hanswer.2
  rw [← horder₁] at hplan
  rw [← horder₂] at hplan'
  obtain ⟨s, hrun₁, hinterface₁⟩ := runOn_decorateLocations_of_flows hsound₁ hflows₁ hplan hps
  obtain ⟨s₂', hrun₂, hinterface₂⟩ := runOn_decorateLocations_of_flows hsound₂ hflows₂ hplan' hps'
  obtain rfl : s = s₁' := (Prod.mk.inj (hrun₁.symm.trans hrun)).2
  have hfinal₁ := Session.linkages_settled_perm hflows₁ hps
  have hfinal₂ := Session.linkages_settled_perm hflows₂ hps'
  rw [Session.linkages, ← hinterface₁] at hfinal₁
  rw [Session.linkages, ← hinterface₂] at hfinal₂
  rw [hnil', List.isEmpty_nil, Bool.and_true] at hrun₂
  refine ⟨s₂', hrun₂, hfinal₂.trans (hplacings.symm.trans hfinal₁.symm), ?_⟩
  -- a variable has the same string at its location
  have hplaced := hps.numbered.map fun v => v.1.linkage.key
  rw [List.map_map] at hplaced hkeys
  refine (hfinal₁.map (·.key)).nodup_iff.2 ?_
  rw [List.map_map]
  exact hplaced.nodup_iff.2 hkeys

/-- Declarations that were created in another order get their locations too, and they are the same. -/
theorem exists_decorateLocations_of_perm (hperm : ds.Perm ds')
    (horder : options.order = .alphabetical)
    (h₁ : (forAll (create direction) ds).runOn (.start stage options) = (.ok true, s₁))
    (h₂ : (forAll (create direction) ds').runOn (.start stage options) = (.ok true, s₂))
    (hrun : decorateLocations.runOn s₁ = (.ok true, s₁')) :
    ∃ s₂', decorateLocations.runOn s₂ = (.ok (repeatedIn direction s₂).isEmpty, s₂') ∧
      s₂'.linkages.Perm s₁'.linkages ∧ (s₁'.linkages.map (·.key)).Nodup := by
  obtain ⟨hsound₁, hflows₁, hlists₁, -⟩ := created_of_runOn h₁
  obtain ⟨hsound₂, hflows₂, hlists₂, -⟩ := created_of_runOn h₂
  have hlinkages : s₁.linkages.Perm s₂.linkages := by
    rw [hlists₁.linkages, hlists₂.linkages]
    exact (hperm.flatMap_right (createdLeaves direction stage)).filterMap _
  have happart := (repeatedIn_eq_nil_iff_of_flows hflows₁ hlists₁).1 (repeatedIn_eq_nil hrun)
  exact exists_linkages_perm hsound₁ hsound₂ hflows₁ hflows₂ (hlists₁.sameOptions ▸ horder)
    (hlists₂.sameOptions ▸ horder) hlinkages (nodup_key_linkages hlists₁ happart) hrun

/-- **Alphabetical locations.**  If declarations of one direction are created in two orders, each
time with nothing wrong, and giving out locations finds nothing wrong in the first order, then in the
second order it comes to an end and gives every semantic string the same location.  It finds nothing
wrong exactly if the leaves that are listed in the second order are spelled apart.  They are if no
builtin is used at two signature points, and those of outputs always are. -/
theorem linkages_perm_of_perm (hperm : ds.Perm ds') (horder : options.order = .alphabetical)
    (h₁ : (forAll (create direction) ds).runOn (.start stage options) = (.ok true, s₁))
    (h₂ : (forAll (create direction) ds').runOn (.start stage options) = (.ok true, s₂))
    (hrun : decorateLocations.runOn s₁ = (.ok true, s₁')) :
    ∃ b s₂', decorateLocations.runOn s₂ = (.ok b, s₂') ∧ s₂'.linkages.Perm s₁'.linkages ∧
      (s₁'.linkages.map (·.key)).Nodup ∧
      (b = true ↔ (InterfaceLeaf.listed stage
        (ds'.flatMap (createdLeaves direction stage))).Pairwise fun l m => ¬l.SpelledAlike m) ∧
      (InterfaceLeaf.UsedAtOnePoint stage (ds.flatMap (createdLeaves direction stage)) → b = true) ∧
      (direction = .output → b = true) := by
  obtain ⟨s₂', hrun₂, hfinal, hkeys⟩ := exists_decorateLocations_of_perm hperm horder h₁ h₂ hrun
  obtain ⟨-, hflows₁, hlists₁, hplaced⟩ := created_of_runOn h₁
  obtain ⟨-, hflows₂, hlists₂, -⟩ := created_of_runOn h₂
  have happart := (repeatedIn_eq_nil_iff_of_flows hflows₁ hlists₁).1 (repeatedIn_eq_nil hrun)
  have hverdict := repeatedIn_eq_nil_iff_of_flows hflows₂ hlists₂
  rw [← List.isEmpty_iff] at hverdict
  have hone : InterfaceLeaf.UsedAtOnePoint stage (ds.flatMap (createdLeaves direction stage)) →
      (repeatedIn direction s₂).isEmpty = true := by
    intro hone
    have hleaves := hperm.flatMap_right (createdLeaves direction stage)
    have hsymm : ∀ {l m : InterfaceLeaf}, ¬l.SpelledAlike m → ¬m.SpelledAlike l :=
      fun hlm hml => hlm hml.symm
    exact hverdict.2 (((InterfaceLeaf.listed_perm hleaves hone hplaced).pairwise_iff hsymm).1 happart)
  refine ⟨_, s₂', hrun₂, hfinal, hkeys, hverdict, hone, ?_⟩
  rintro rfl
  exact hone (usedAtOnePoint_outputs stage ds)

end Lower

/-- A builtin as the value `A` of a geometry shader. -/
def ownIndex : Param × Bool :=
  ({ id := 1
     name := "a"
     ty := .scalar .int32
     attributes := { semantic := some "A", builtin := some "DeviceIndex" } }, false)

/-- The same builtin as the value `B` of each of its vertices. -/
def vertexIndices : Param × Bool :=
  ({ id := 2
     name := "b"
     ty := .array (.scalar .int32) (some 3)
     primitive := some .triangle
     attributes := { semantic := some "B", builtin := some "DeviceIndex" } }, false)

/-- A value at a location with the second semantic. -/
def locatedValue : Param × Bool :=
  ({ id := 3
     name := "c"
     ty := .vector .single 4
     attributes := { semantic := some "B" } }, false)

/-- The session after inputs of a geometry shader were created, with alphabetical locations. -/
def geometryInputs (ds : List (Param × Bool)) : Session :=
  ((Lower.forAll (Lower.create .input) ds).runOn
    (.start .geometry { order := .alphabetical })).2

namespace Lower

theorem runOn_geometryInputs (ds : List (Param × Bool))
    (h : ((forAll (create .input) ds).runOn (.start .geometry { order := .alphabetical })).1 =
      .ok true) :
    (forAll (create .input) ds).runOn (.start .geometry { order := .alphabetical }) =
      (.ok true, geometryInputs ds) :=
  Prod.ext h rfl

theorem runOn_decorateLocations_snd (s : Session) (b : Bool)
    (h : (decorateLocations.runOn s).1 = .ok b) :
    decorateLocations.runOn s = (.ok b, (decorateLocations.runOn s).2) :=
  Prod.ext h rfl

theorem linkages_perm_of_perm_locatedValue :
    [ownIndex, locatedValue].Perm [locatedValue, ownIndex] ∧
    ({ order := .alphabetical } : Options).order = .alphabetical ∧
    (forAll (create .input) [ownIndex, locatedValue]).runOn
      (.start .geometry { order := .alphabetical }) =
        (.ok true, geometryInputs [ownIndex, locatedValue]) ∧
    (forAll (create .input) [locatedValue, ownIndex]).runOn
      (.start .geometry { order := .alphabetical }) =
        (.ok true, geometryInputs [locatedValue, ownIndex]) ∧
    ∃ s₁' b s₂',
      decorateLocations.runOn (geometryInputs [ownIndex, locatedValue]) = (.ok true, s₁') ∧
      decorateLocations.runOn (geometryInputs [locatedValue, ownIndex]) = (.ok b, s₂') ∧
      s₂'.linkages.Perm s₁'.linkages := by
  have hperm : [ownIndex, locatedValue].Perm [locatedValue, ownIndex] := .swap _ _ _
  have h₁ := runOn_geometryInputs [ownIndex, locatedValue] (by decide +kernel)
  have h₂ := runOn_geometryInputs [locatedValue, ownIndex] (by decide +kernel)
  have hrun := runOn_decorateLocations_snd (geometryInputs [ownIndex, locatedValue]) true
    (by decide +kernel)
  obtain ⟨b, s₂', hrun₂, hlinkages, -⟩ := linkages_perm_of_perm hperm rfl h₁ h₂ hrun
  exact ⟨hperm, rfl, h₁, h₂, _, b, s₂', hrun, hrun₂, hlinkages⟩

/-- With the builtin for every vertex first, its semantic is found to be used twice. -/
theorem not_locations_ok_of_perm :
    [ownIndex, vertexIndices, locatedValue].Perm [vertexIndices, ownIndex, locatedValue] ∧
    (forAll (create .input) [ownIndex, vertexIndices, locatedValue]).runOn
      (.start .geometry { order := .alphabetical }) =
        (.ok true, geometryInputs [ownIndex, vertexIndices, locatedValue]) ∧
    (forAll (create .input) [vertexIndices, ownIndex, locatedValue]).runOn
      (.start .geometry { order := .alphabetical }) =
        (.ok true, geometryInputs [vertexIndices, ownIndex, locatedValue]) ∧
    ∃ s₁' s₂',
      decorateLocations.runOn (geometryInputs [ownIndex, vertexIndices, locatedValue]) =
        (.ok true, s₁') ∧
      decorateLocations.runOn (geometryInputs [vertexIndices, ownIndex, locatedValue]) =
        (.ok false, s₂') := by
  have hperm : [ownIndex, vertexIndices, locatedValue].Perm
      [vertexIndices, ownIndex, locatedValue] := .swap _ _ _
  have h₁ := runOn_geometryInputs [ownIndex, vertexIndices, locatedValue] (by decide +kernel)
  have h₂ := runOn_geometryInputs [vertexIndices, ownIndex, locatedValue] (by decide +kernel)
  have hrun := runOn_decorateLocations_snd
    (geometryInputs [ownIndex, vertexIndices, locatedValue]) true (by decide +kernel)
  have hrepeated : (repeatedIn .input
      (geometryInputs [vertexIndices, ownIndex, locatedValue])).isEmpty = false := by decide +kernel
  obtain ⟨s₂', hrun₂, -⟩ := exists_decorateLocations_of_perm hperm rfl h₁ h₂ hrun
  rw [hrepeated] at hrun₂
  exact ⟨hperm, h₁, h₂, _, s₂', hrun, hrun₂⟩

end Lower

end ShaderLowering
