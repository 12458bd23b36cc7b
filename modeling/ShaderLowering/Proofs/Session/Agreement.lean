import ShaderLowering.Proofs.Session.Interface
import ShaderLowering.Proofs.Session.Linkages

/-!
# Stages that agree

A value that a stage passes on to the pixel shader is declared on both sides.  The declaration is
taken apart alike, and where a leaf is allowed on both sides it is at locations on both or a builtin
on both or packed on both, so both sides number and place their variables alike.
-/

namespace ShaderLowering

open Source (Ty Field Param)
open Spirv (Builtin)

/-- Whether the values at a signature point may be read by a pixel shader. -/
def SignaturePoint.feedsPixels : SignaturePoint → Bool
  | vertexOut | domainOut | geometryOut => true
  | _ => false

/-- Whether two sites are of one kind. -/
def Site.Alike (a b : Site) : Prop := (a = .location ↔ b = .location) ∧ (a = .packed ↔ b = .packed)

namespace Placement

variable {p q : Placement} {point : SignaturePoint}

theorem alike_of_ofBuiltin? {b : Builtin} {point' : SignaturePoint}
    (hp : ofBuiltin? b point = some p) (hq : ofBuiltin? b point' = some q) : p.site.Alike q.site := by
  obtain ⟨b₁, hp, -⟩ := site_ofBuiltin? hp
  obtain ⟨b₂, hq, -⟩ := site_ofBuiltin? hq
  simp [Site.Alike, hp, hq]

/-- A semantic lives at a site of the same kind on both sides of the rasterizer. -/
theorem alike_of_ofSemantic? {kind : SemanticKind} (hpoint : point.feedsPixels = true)
    (hp : ofSemantic? kind point = some p) (hq : ofSemantic? kind .pixelIn = some q) :
    p.site.Alike q.site := by
  -- most semantics are not allowed on one of the sides
  cases kind <;> cases hq <;> cases point <;> cases hpoint <;> cases hp <;> simp [Site.Alike] <;>
    decide

end Placement

/-! ## Leaves on both sides -/

namespace InterfaceLeaf

variable {stage stage' : Stage} {options : Options} {l : InterfaceLeaf} {point : SignaturePoint}

/-- The leaf at another signature point. -/
def movedTo (point : SignaturePoint) (l : InterfaceLeaf) : InterfaceLeaf := { l with point }

/-- A declaration has the same leaves at all signature points. -/
theorem ofDeclaration_movedTo (decl : Field) (point point' : SignaturePoint) :
    ofDeclaration decl (some point') = (ofDeclaration decl (some point)).map (·.movedTo point') := by
  rw [ofDeclaration, ofDeclaration]
  split
  · rfl
  · rw [List.map_filterMap]
    refine List.filterMap_congr fun item _ => ?_
    cases item <;> rfl

theorem alike_movedTo (hpoint : l.point.feedsPixels = true) {a b : Site}
    (ha : l.site? stage = some a) (hb : (l.movedTo .pixelIn).site? stage' = some b) : a.Alike b := by
  obtain ⟨p, hp, rfl⟩ := site?_eq_some_iff.1 ha
  obtain ⟨q, hq, rfl⟩ := site?_eq_some_iff.1 hb
  rcases ofBuiltin?_or_ofSemantic? hp with
      ⟨name, b, hname, hb, hp⟩ | ⟨hnone, a, hsemantic, hp⟩ <;>
    rcases ofBuiltin?_or_ofSemantic? hq with
      ⟨name', b', hname', hb', hq⟩ | ⟨hnone', a', hsemantic', hq⟩
  · cases hname.symm.trans hname'
    cases hb.symm.trans hb'
    exact Placement.alike_of_ofBuiltin? hp hq
  · cases hname.symm.trans hnone'
  · cases hnone.symm.trans hname'
  · cases hsemantic.symm.trans hsemantic'
    exact Placement.alike_of_ofSemantic? hpoint hp hq

end InterfaceLeaf

/-! ## Declarations on both sides -/

namespace Source.Param

variable {p : Param} {stage : Stage}

/-- Whether a parameter is an ordinary value: no vertices of a primitive, no control points and no
stream. -/
def isValue (p : Param) : Bool :=
  p.primitive.isNone && p.ty.resource?.all fun r => !r.1.isStageInterface

theorem perVertex_of_isValue (h : p.isValue = true) (perPatch : Bool) :
    p.perVertex stage perPatch = (some p.ty, none) := by
  rw [isValue, Bool.and_eq_true, Option.isNone_iff_eq_none] at h
  obtain ⟨hprimitive, hresource⟩ := h
  rw [perVertex.eq_def]
  split
  · rename_i hinput
    rw [hinput] at hresource
    cases hresource
  · rename_i houtput
    rw [houtput] at hresource
    cases hresource
  · rename_i hstream
    rw [hstream] at hresource
    cases hresource
  · rw [perVertex.ofShape, hprimitive]
    simp

theorem isStream_of_isValue (h : p.isValue = true) : p.isStream = false := by
  rw [isValue, Bool.and_eq_true] at h
  rw [isStream.eq_def]
  split
  · rename_i hstream
    rw [hstream] at h
    cases h.2
  · rfl

theorem outputLeaves_of_isValue (h : p.isValue = true) (hstage : stage ≠ .hull) :
    p.outputLeaves stage false = InterfaceLeaf.ofDeclaration (Lower.declarationOf p p.ty)
      (SignaturePoint.of? stage .output .plain) := by
  rw [outputLeaves, perVertex_of_isValue h, if_neg fun hhull => hstage hhull.1]
  rfl

theorem inputLeaves_of_isValue (h : p.isValue = true) :
    p.inputLeaves .pixel false = InterfaceLeaf.ofDeclaration (Lower.declarationOf p p.ty)
      (some .pixelIn) := by
  rw [inputLeaves, isStream_of_isValue h, perVertex_of_isValue h]
  rfl

end Source.Param

namespace Session

variable {s s₁ s₂ s₁' s₂' : Session} {options : Options} {stage stage' : Stage}
  {leaves : List InterfaceLeaf} {point : SignaturePoint}

/-- Both sides number their variables alike, with the same linkages. -/
theorem map_linkage?_eq (hpoint : ∀ l ∈ leaves, l.point = point) (hfeeds : point.feedsPixels = true)
    (h₁ : s₁.Lists options stage leaves)
    (h₂ : s₂.Lists options stage' (leaves.map (·.movedTo .pixelIn)))
    (hplaced₁ : ∀ l ∈ leaves, (l.site? stage).isSome = true)
    (hplaced₂ : ∀ l ∈ leaves.map (·.movedTo .pixelIn), (l.site? stage').isSome = true) :
    s₁.interface.map (·.linkage?) = s₂.interface.map (·.linkage?) := by
  have hone₁ : InterfaceLeaf.UsedAtOnePoint stage leaves :=
    fun l hl m hm _ _ _ _ => (hpoint l hl).trans (hpoint m hm).symm
  have hone₂ : InterfaceLeaf.UsedAtOnePoint stage' (leaves.map (·.movedTo .pixelIn)) := by
    intro l hl m hm _ _ _ _
    obtain ⟨_, -, rfl⟩ := List.mem_map.1 hl
    obtain ⟨_, -, rfl⟩ := List.mem_map.1 hm
    rfl
  have halike : ∀ l ∈ leaves, ∃ a b, l.site? stage = some a ∧
      (l.movedTo .pixelIn).site? stage' = some b ∧ a.Alike b := by
    intro l hl
    obtain ⟨a, ha⟩ := Option.isSome_iff_exists.1 (hplaced₁ l hl)
    obtain ⟨b, hb⟩ := Option.isSome_iff_exists.1 (hplaced₂ _ (List.mem_map_of_mem hl))
    exact ⟨a, b, ha, hb, InterfaceLeaf.alike_movedTo ((hpoint l hl).symm ▸ hfeeds) ha hb⟩
  rw [h₁.map_linkage?, h₂.map_linkage?, InterfaceLeaf.listed_of_usedAtOnePoint hone₁ hplaced₁,
    InterfaceLeaf.listed_of_usedAtOnePoint hone₂ hplaced₂, List.filter_map, List.map_map]
  -- what is packed on one side is packed on the other, and what is at locations is there on both
  have hfilter : leaves.filter (fun l => l.site? stage ≠ some .packed) =
      leaves.filter ((fun l => l.site? stage' ≠ some .packed) ∘ (·.movedTo .pixelIn)) := by
    refine List.filter_congr fun l hl => ?_
    obtain ⟨a, b, ha, hb, -, hpacked⟩ := halike l hl
    simp [ha, hb, hpacked]
  rw [← hfilter]
  refine List.map_congr_left fun l hl => ?_
  obtain ⟨a, b, ha, hb, hlocation, -⟩ := halike l (List.mem_of_mem_filter hl)
  rw [Function.comp_apply, InterfaceLeaf.linkage?, InterfaceLeaf.linkage?, ha, hb]
  simp only [Option.some.injEq, hlocation]
  rfl

/-- Sessions of one direction each that have equal linkages in equal order still have them after
locations were given out. -/
theorem linkages_decorateLocations_eq (hs₁ : s₁.Sound) (hs₂ : s₂.Sound)
    (hoptions : s₁.emitter.options = s₂.emitter.options) {direction₁ direction₂ : Direction}
    (hflows₁ : s₁.Flows direction₁) (hflows₂ : s₂.Flows direction₂)
    (hsame : s₁.interface.map (·.linkage?) = s₂.interface.map (·.linkage?)) {b₁ b₂ : Bool}
    (hrun₁ : Lower.decorateLocations.runOn s₁ = (.ok b₁, s₁'))
    (hrun₂ : Lower.decorateLocations.runOn s₂ = (.ok b₂, s₂')) : s₁'.linkages = s₂'.linkages := by
  obtain ⟨plan₁, ps₁, hplan₁, hps₁, -, hinterface₁⟩ :=
    Lower.exists_plan_of_runOn hs₁ hflows₁ hrun₁
  obtain ⟨plan₂, ps₂, hplan₂, hps₂, -, hinterface₂⟩ :=
    Lower.exists_plan_of_runOn hs₂ hflows₂ hrun₂
  have hplaced : plan₁.placed = plan₂.placed := by
    rw [← hoptions] at hplan₂
    refine LocationPlan.placed_congr ?_ hplan₁ hplan₂
    rw [map_numberedLinkage_locatedVariables hflows₁, map_numberedLinkage_locatedVariables hflows₂,
      hsame]
  have hfinal : s₁'.interface.map (·.linkage?) = s₂'.interface.map (·.linkage?) := by
    rw [hinterface₁, hinterface₂, map_linkage?_settled_foldl, map_linkage?_settled_foldl,
      ← hps₁.placed, ← hps₂.placed, hplaced, hsame]
  have hreduce := congrArg (List.filterMap id) hfinal
  rw [List.filterMap_map, List.filterMap_map] at hreduce
  exact hreduce

end Session

namespace Lower

variable {p : Param} {stage : Stage} {options : Options} {s₁ s₂ s₁' s₂' : Session} {b₁ b₂ : Bool}

/-- **Stages agree.**  If an ordinary value is an allowed output of a vertex, domain or geometry
shader and an allowed input of a pixel shader, then giving out locations on either side, as far as it
comes to an end, leaves both with the same linkages in the same order. -/
theorem linkages_eq_of_outputs_of_inputs (hvalue : p.isValue = true)
    (hstage : stage = .vertex ∨ stage = .domain ∨ stage = .geometry)
    (houtput : (createOutput p false).runOn (.start stage options) = (.ok true, s₁))
    (hinput : (createInput p false).runOn (.start .pixel options) = (.ok true, s₂))
    (hrun₁ : decorateLocations.runOn s₁ = (.ok b₁, s₁'))
    (hrun₂ : decorateLocations.runOn s₂ = (.ok b₂, s₂')) : s₁'.linkages = s₂'.linkages := by
  obtain ⟨hhull, point, hpoint, hfeeds⟩ : stage ≠ .hull ∧
      ∃ point, SignaturePoint.of? stage .output .plain = some point ∧ point.feedsPixels = true := by
    rcases hstage with rfl | rfl | rfl <;> exact ⟨by decide, _, rfl, rfl⟩
  -- both declarations have the same leaves, up to the signature point
  have hsound₁ : s₁.Sound := ((keeps_createOutput (Session.sound_start stage options)).of_run
    houtput).1
  have hsound₂ : s₂.Sound := ((keeps_createInput (Session.sound_start .pixel options)).of_run
    hinput).1
  have hlowers₁ := lowers_createOutput houtput
  have hlowers₂ := lowers_createInput hinput
  change Session.Lowers _ (p.outputLeaves stage false) _ at hlowers₁
  change Session.Lowers _ (p.inputLeaves .pixel false) _ at hlowers₂
  rw [Source.Param.outputLeaves_of_isValue hvalue hhull, hpoint] at hlowers₁
  rw [Source.Param.inputLeaves_of_isValue hvalue,
    InterfaceLeaf.ofDeclaration_movedTo _ point] at hlowers₂
  have hpoints : ∀ l ∈ InterfaceLeaf.ofDeclaration (declarationOf p p.ty) (some point),
      l.point = point :=
    fun l hl => (Option.some.inj (InterfaceLeaf.point_of_mem_ofDeclaration hl)).symm
  -- each session has variables of the one direction only, and lists exactly these leaves
  obtain ⟨hflows₁, hlists₁, hplaced₁⟩ : s₁.Flows .output ∧ _ ∧ _ :=
    hlowers₁.of_start fun l hl => by
      rw [InterfaceLeaf.direction, hpoints l hl]
      exact SignaturePoint.direction_of? hpoint
  obtain ⟨hflows₂, hlists₂, hplaced₂⟩ : s₂.Flows .input ∧ _ ∧ _ :=
    hlowers₂.of_start fun l hl => by
      obtain ⟨m, -, rfl⟩ := List.mem_map.1 hl
      rfl
  refine Session.linkages_decorateLocations_eq hsound₁ hsound₂
    (hlists₁.sameOptions.trans hlists₂.sameOptions.symm) hflows₁ hflows₂ ?_ hrun₁ hrun₂
  exact Session.map_linkage?_eq hpoints hfeeds hlists₁ hlists₂ hplaced₁ hplaced₂

end Lower

/-- A structure with a builtin, a nested structure whose semantic is inherited, and a field with a
location of its own. -/
def sharedValue : Param where
  id := 1
  name := "v"
  ty := .struct "V" .absent
    (.cons "position" (.vector .single 4) { semantic := some "SV_Position" } {}
      (.cons "uv" (.struct "UV" .absent
          (.cons "a" (.vector .single 2) {} {} (.cons "b" (.matrix .single 2 3) {} {} .nil)))
          { semantic := some "TEXCOORD3" } {}
        (.cons "n" (.vector .single 3) { semantic := some "NORMAL", location := some 1 } {} .nil)))

/-- The session with it as an output of a vertex shader. -/
def sharedOutputs : Session := ((Lower.createOutput sharedValue false).runOn (.start .vertex {})).2

/-- The session with it as an input of a pixel shader. -/
def sharedInputs : Session := ((Lower.createInput sharedValue false).runOn (.start .pixel {})).2

namespace Lower

theorem linkages_eq_of_outputs_of_inputs_sharedValue :
    sharedValue.isValue = true ∧
    (createOutput sharedValue false).runOn (.start .vertex {}) = (.ok true, sharedOutputs) ∧
    (createInput sharedValue false).runOn (.start .pixel {}) = (.ok true, sharedInputs) ∧
    ∃ s₁ s₂, decorateLocations.runOn sharedOutputs = (.ok true, s₁) ∧
      decorateLocations.runOn sharedInputs = (.ok true, s₂) ∧ s₁.linkages = s₂.linkages ∧
      s₂.linkages = [⟨some "TEXCOORD3", some 0, none, 1⟩, ⟨some "TEXCOORD4", some 2, none, 2⟩,
        ⟨some "NORMAL", some 1, none, 1⟩] := by
  have hvalue : sharedValue.isValue = true := by decide
  have houtput : (createOutput sharedValue false).runOn (.start .vertex {}) =
      (.ok true, sharedOutputs) := Prod.ext (by decide +kernel) rfl
  have hinput : (createInput sharedValue false).runOn (.start .pixel {}) =
      (.ok true, sharedInputs) := Prod.ext (by decide +kernel) rfl
  have hrun₁ : decorateLocations.runOn sharedOutputs =
      (.ok true, (decorateLocations.runOn sharedOutputs).2) := Prod.ext (by decide +kernel) rfl
  have hrun₂ : decorateLocations.runOn sharedInputs =
      (.ok true, (decorateLocations.runOn sharedInputs).2) := Prod.ext (by decide +kernel) rfl
  exact ⟨hvalue, houtput, hinput, _, _, hrun₁, hrun₂,
    linkages_eq_of_outputs_of_inputs hvalue (.inl rfl) houtput hinput hrun₁ hrun₂, by decide +kernel⟩

end Lower

end ShaderLowering
