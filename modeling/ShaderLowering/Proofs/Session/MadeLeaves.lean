import ShaderLowering.Proofs.Interface.Listed
import ShaderLowering.Proofs.Session.Outcome

/-!
# Leaves, whatever is wrong with them

The leaves of an entry point are created one after the other, also when something is wrong with some
of them.  It is settled by the leaves alone whether this comes to an end: a type has to be written
for each variable that is made, and its locations have to be counted (`creations`).  If it does, the
session lists one variable for each leaf that is placed at a location, in order, and remembers the
builtins among them (`Session.Made`).

`Lower.Makes` states both of an action relative to the leaves that it creates, and is composed by
appending them.
-/

namespace ShaderLowering

open Source (Ty Field Param Function EntryPoint)
open Spirv (Builtin)
open ShaderLowering.Action (ComesTo comesTo_pure comesTo_of_runOn comesTo_get_bind)

/-! ## Leaves -/

namespace InterfaceLeaf

variable (options : Options) (stage : Stage) (l : InterfaceLeaf)

/-- The number of locations of the leaf, if a type can be written for it. -/
def locationCount : Written Nat := do
  let _ ← Written.ofTy options l.decl.ty.onInterface .unlaid {} none
  Written.ofChecked (Layout.locations options l.decl.ty)

/-- Whether the leaf can be created behind others.  A builtin that is there already is not created
again, and a leaf that is packed or not allowed gets no variable. -/
def creation (before : List InterfaceLeaf) : Written Unit :=
  match l.site? stage with
  | some .location => do
    let _ ← l.locationCount options
    return ()
  | some (.builtin b) =>
    if (firstUse? stage before b l.direction).isSome then return ()
    else do
      let _ ← Written.ofTy options (builtinType b l.decl.ty) .unlaid {} none
      return ()
  | some .packed | none => return ()

/-- The variable of the leaf, if it is placed at a location. -/
def interfaceVariable? : Option InterfaceVariable :=
  if l.site? stage = some .location then
    l.semantic.map fun semantic => Lower.locatedInterface l.decl semantic ⟨l.point, none, none⟩
      (0, (l.locationCount options).toOption.getD 0)
  else none

variable {options stage l}

theorem interfaceVariable?_spec {v : InterfaceVariable}
    (h : l.interfaceVariable? options stage = some v) :
    v.isLocated = true ∧ v.unnumbered = v := by
  rw [interfaceVariable?] at h
  split at h
  · obtain ⟨semantic, -, rfl⟩ := Option.map_eq_some_iff.1 h
    exact ⟨rfl, rfl⟩
  · cases h

end InterfaceLeaf

namespace Source

/-- The leaves that are created for what a parameter or return value passes out.  The control points
of a hull shader get none as long as their number is missing. -/
def Param.createdOutputs (stage : Stage) (points : Option Nat) (perPatch : Bool) (p : Param) :
    List InterfaceLeaf :=
  if stage = .hull ∧ !perPatch ∧ points = none then [] else p.outputLeaves stage perPatch

/-- The leaves that are created for a function of an entry point. -/
def Function.createdLeaves (stage : Stage) (points : Option Nat) (f : Function) :
    List InterfaceLeaf :=
  f.params.flatMap (fun p => p.inLeaves stage false ++
      if p.isOutput then p.createdOutputs stage points false else [])
    ++ f.returnParam.createdOutputs stage points false

/-- The leaves that are created for an entry point. -/
def EntryPoint.createdLeaves (e : EntryPoint) : List InterfaceLeaf :=
  e.function.createdLeaves e.stage e.outputPoints
    ++ e.patchFunction.elim [] (·.patchLeaves e.stage)

end Source

/-- The variables at locations that are listed for an entry point. -/
def Source.EntryPoint.locatedVariables (options : Options) (e : EntryPoint) :
    List InterfaceVariable :=
  e.createdLeaves.filterMap (·.interfaceVariable? options e.stage)

theorem Source.EntryPoint.map_unnumbered_locatedVariables (options : Options) (e : EntryPoint) :
    ((e.locatedVariables options).filter (·.isLocated)).map (·.unnumbered) =
      e.locatedVariables options := by
  have hspec : ∀ v ∈ e.locatedVariables options, v.isLocated = true ∧ v.unnumbered = v := by
    intro v hv
    obtain ⟨l, -, hl⟩ := List.mem_filterMap.1 hv
    exact InterfaceLeaf.interfaceVariable?_spec hl
  rw [List.filter_eq_self.2 fun v hv => (hspec v hv).1]
  exact (List.map_congr_left fun v hv => (hspec v hv).2).trans (List.map_id _)

/-- Whether leaves can be created in order, behind others. -/
def creations (options : Options) (stage : Stage) :
    List InterfaceLeaf → List InterfaceLeaf → Written Unit
  | _, [] => .ok ()
  | before, l :: rest => do
    l.creation options stage before
    creations options stage (before ++ [l]) rest

variable {options : Options} {stage : Stage} {points : Option Nat}

theorem creations_singleton (before : List InterfaceLeaf) (l : InterfaceLeaf) :
    creations options stage before [l] = l.creation options stage before := by
  rw [creations]
  cases l.creation options stage before <;> rfl

theorem creations_append (before leaves leaves' : List InterfaceLeaf) :
    creations options stage before (leaves ++ leaves') = (do
      creations options stage before leaves
      creations options stage (before ++ leaves) leaves') := by
  induction leaves generalizing before with
  | nil =>
    rw [List.nil_append, List.append_nil]
    rfl
  | cons l rest ih =>
    rw [List.cons_append, creations, creations, bind_assoc]
    simp only [ih, List.append_assoc, List.cons_append, List.nil_append]

/-! ## Sessions -/

/-- The session lists the variables of leaves at locations and remembers builtins among them. -/
structure Session.ListsLocated (s : Session) (options : Options) (stage : Stage)
    (points : Option Nat) (leaves : List InterfaceLeaf) : Prop where
  located : (s.interface.filter (·.isLocated)).map (·.unnumbered) =
    leaves.filterMap (·.interfaceVariable? options stage)
  builtins : ∀ b direction, (s.builtins.lookup (b, direction)).isSome =
    (InterfaceLeaf.firstUse? stage leaves b direction).isSome
  outputPoints : s.outputPoints = points
  stage : s.stage = stage

/-- The leaves were created in the session. -/
structure Session.Made (s : Session) (options : Options) (stage : Stage) (points : Option Nat)
    (leaves : List InterfaceLeaf) : Prop extends s.ListsLocated options stage points leaves where
  sound : s.Sound
  options : s.emitter.options = options

namespace Session.ListsLocated

variable {s : Session} {before : List InterfaceLeaf} {l : InterfaceLeaf}

theorem withEmitter (hs : s.ListsLocated options stage points before) (e : Emitter) :
    ListsLocated { s with emitter := e } options stage points before :=
  ⟨hs.located, hs.builtins, hs.outputPoints, hs.stage⟩

/-- A variable of a builtin is not listed at a location. -/
theorem addInterface (hs : s.ListsLocated options stage points before) {v : InterfaceVariable}
    (hv : v.isLocated = false) :
    ListsLocated { s with interface := s.interface ++ [v] } options stage points before := by
  refine { hs with located := ?_ }
  rw [List.filter_append, List.filter_singleton, hv, cond_false, List.append_nil, hs.located]

/-- A leaf that is no builtin leaves the first uses of builtins as they are. -/
theorem builtins_append (hs : s.ListsLocated options stage points before)
    (hsite : ∀ b, l.site? stage ≠ some (.builtin b)) (b : Builtin) (direction : Direction) :
    (s.builtins.lookup (b, direction)).isSome =
      (InterfaceLeaf.firstUse? stage (before ++ [l]) b direction).isSome := by
  rw [hs.builtins, InterfaceLeaf.firstUse?_append, InterfaceLeaf.firstUse?_singleton,
    if_neg fun h => hsite b h.1, Option.or_none]

/-- A leaf that is not at a location lists no variable there. -/
theorem located_append (hs : s.ListsLocated options stage points before)
    (hsite : l.site? stage ≠ some .location) :
    (s.interface.filter (·.isLocated)).map (·.unnumbered) =
      (before ++ [l]).filterMap (·.interfaceVariable? options stage) := by
  have hnone : l.interfaceVariable? options stage = none := if_neg hsite
  rw [hs.located, List.filterMap_append, List.filterMap_cons_none hnone, List.filterMap_nil,
    List.append_nil]

/-- A leaf that is packed or not allowed. -/
theorem append_unlisted (hs : s.ListsLocated options stage points before)
    (hsite : l.site? stage = none ∨ l.site? stage = some .packed) :
    s.ListsLocated options stage points (before ++ [l]) := by
  have hlocation : l.site? stage ≠ some .location := by rcases hsite with h | h <;> simp [h]
  have hbuiltin (b : Builtin) : l.site? stage ≠ some (.builtin b) := by
    rcases hsite with h | h <;> simp [h]
  exact { hs with
    located := hs.located_append hlocation
    builtins := hs.builtins_append hbuiltin }

/-- A builtin that is there already. -/
theorem append_known (hs : s.ListsLocated options stage points before) {b : Builtin}
    (hsite : l.site? stage = some (.builtin b))
    (hknown : (s.builtins.lookup (b, l.direction)).isSome = true) :
    s.ListsLocated options stage points (before ++ [l]) := by
  refine { hs with located := hs.located_append (by simp [hsite]), builtins := ?_ }
  intro b' direction
  rw [InterfaceLeaf.firstUse?_append, InterfaceLeaf.firstUse?_singleton, hsite]
  split
  · rename_i hsame
    obtain ⟨hb, rfl⟩ := hsame
    cases hb
    rw [hknown, Option.isSome_or, ← hs.builtins, hknown, Bool.true_or]
  · rw [Option.or_none, hs.builtins]

/-- A builtin that is remembered. -/
theorem remember (hs : s.ListsLocated options stage points before) {b : Builtin}
    (hsite : l.site? stage = some (.builtin b)) (r : Spirv.VariableId × SignaturePoint) :
    ListsLocated { s with builtins := ((b, l.direction), r) :: s.builtins } options stage points
      (before ++ [l]) := by
  refine { hs with located := hs.located_append (by simp [hsite]), builtins := ?_ }
  intro b' direction
  rw [InterfaceLeaf.firstUse?_append, InterfaceLeaf.firstUse?_singleton, hsite, List.lookup_cons]
  by_cases hkey : (b', direction) = (b, l.direction)
  · cases hkey
    rw [if_pos ⟨rfl, rfl⟩, Option.isSome_or, beq_self_eq_true]
    simp
  · rw [beq_false_of_ne hkey, if_neg, Option.or_none]
    · exact hs.builtins b' direction
    · rintro ⟨hb, hdirection⟩
      cases hb
      exact hkey (hdirection ▸ rfl)

/-- A variable at a location is listed. -/
theorem addLocated (hs : s.ListsLocated options stage points before) {v : InterfaceVariable}
    (hv : v.isLocated = true) (hvariable : l.interfaceVariable? options stage = some v.unnumbered)
    (hsite : l.site? stage = some .location) :
    ListsLocated { s with interface := s.interface ++ [v] } options stage points
      (before ++ [l]) := by
  refine { hs with located := ?_, builtins := hs.builtins_append (by simp [hsite]) }
  rw [List.filter_append, List.filter_singleton, hv, cond_true, List.map_append, hs.located,
    List.filterMap_append, List.filterMap_cons_some hvariable]
  rfl

end Session.ListsLocated

/-! ## Creation of one leaf -/

namespace Lower

variable {s : Session} {before : List InterfaceLeaf} {decl : Field} {c : InterfaceContext}

/-- A builtin is created unless it is there. -/
theorem comesTo_builtinVariable (hs : s.ListsLocated options stage points before)
    (he : s.emitter.Sound) (hoptions : s.emitter.options = options) {l : InterfaceLeaf}
    {b : Builtin} (hsite : l.site? stage = some (.builtin b)) (hdecl : l.decl = decl)
    (hpoint : l.point = c.point) :
    ComesTo (builtinVariable decl b c) s (l.creation options stage before) fun s' _ _ =>
      s'.ListsLocated options stage points (before ++ [l]) := by
  subst hdecl hoptions
  have hdirection : c.point.direction = l.direction := by rw [← hpoint, InterfaceLeaf.direction]
  have hcreation : l.creation s.emitter.options stage before =
      if (InterfaceLeaf.firstUse? stage before b l.direction).isSome then .ok ()
      else do
        let _ ← Written.ofTy s.emitter.options (builtinType b l.decl.ty) .unlaid {} none
        return () := by
    rw [InterfaceLeaf.creation, hsite]
    rfl
  rw [hcreation, ← hs.builtins, builtinVariable]
  refine comesTo_get_bind ?_
  rw [hdirection]
  cases hknown : s.builtins.lookup (b, l.direction) with
  | some known =>
    rw [Option.isSome_some, if_pos rfl]
    exact comesTo_pure (hs.append_known hsite (by rw [hknown, Option.isSome_some]))
  | none =>
    rw [Option.isSome_none, if_neg Bool.false_ne_true]
    refine (comesTo_emit (Emit.comesTo_builtinVariable he l.decl b c)).bind
      fun s₁ var _ hvar => ?_
    have hs₁ := hvar.1
    have hlists := hs.withEmitter s₁.emitter
    rw [← hs₁] at hlists
    exact comesTo_of_runOn rfl (hlists.remember hsite _)

theorem comesTo_createBuiltin (hs : s.ListsLocated options stage points before)
    (he : s.emitter.Sound) (hoptions : s.emitter.options = options) {l : InterfaceLeaf}
    {b : Builtin} (hsite : l.site? stage = some (.builtin b)) (hdecl : l.decl = decl)
    (hpoint : l.point = c.point) (semantic : Option Semantic) :
    ComesTo (createBuiltin decl semantic b c) s (l.creation options stage before) fun s' _ _ =>
      s'.ListsLocated options stage points (before ++ [l]) := by
  refine (comesTo_builtinVariable hs he hoptions hsite hdecl hpoint).bind_total
    fun s₁ r _ hs₁ => ?_
  dsimp only
  split
  · exact comesTo_of_runOn rfl (hs₁.addInterface rfl)
  · exact comesTo_pure hs₁

/-- A leaf at a location gets a variable of its own. -/
theorem comesTo_createLocated (hs : s.ListsLocated options stage points before)
    (he : s.emitter.Sound) (hoptions : s.emitter.options = options) {semantic : Semantic}
    (hsite : InterfaceLeaf.site? stage ⟨c.point, decl, some semantic⟩ = some .location)
    (hinvocation : c.invocation = none) :
    ComesTo (createLocated decl semantic c) s
      (InterfaceLeaf.creation options stage ⟨c.point, decl, some semantic⟩ before) fun s' _ _ =>
        s'.ListsLocated options stage points (before ++ [⟨c.point, decl, some semantic⟩]) := by
  subst hoptions
  rw [createLocated_eq, InterfaceLeaf.creation, hsite]
  refine (comesTo_emit (Emit.comesTo_locatedVariable he decl semantic c)).bind_of_ok
    fun s₁ r count hcount ⟨hs₁, hr⟩ => ?_
  have hlists := hs.withEmitter s₁.emitter
  rw [← hs₁] at hlists
  refine comesTo_of_runOn rfl (hlists.addLocated rfl ?_ hsite)
  have hlocations : InterfaceLeaf.locationCount s.emitter.options ⟨c.point, decl, some semantic⟩ =
      .ok count := hcount
  rw [InterfaceLeaf.interfaceVariable?, if_pos hsite, Option.map_some, hlocations]
  simp only [locatedInterface, InterfaceVariable.unnumbered, hinvocation, hr, Except.toOption,
    Option.getD_some]

theorem comesTo_createLeaf (hs : s.Made options stage points before)
    (semantic : Option Semantic) (hinvocation : c.invocation = none) :
    ComesTo (createLeaf decl semantic c) s
      (InterfaceLeaf.creation options stage ⟨c.point, decl, semantic⟩ before) fun s' _ _ =>
        s'.ListsLocated options stage points (before ++ [⟨c.point, decl, semantic⟩]) := by
  refine comesTo_get_bind ?_
  rw [hs.stage]
  cases hplacement : placementOf stage c.point decl semantic with
  | error finding =>
    have hsite : InterfaceLeaf.site? stage ⟨c.point, decl, semantic⟩ = none := by
      rw [InterfaceLeaf.site?, hplacement]
      rfl
    -- the leaf is reported, and no variable is made for it
    rw [InterfaceLeaf.creation, hsite]
    refine (comesTo_report finding decl.position).step fun s₁ _ hs₁ => ?_
    have hlists := hs.toListsLocated.withEmitter s₁.emitter
    rw [← hs₁] at hlists
    exact comesTo_pure (hlists.append_unlisted (.inl hsite))
  | ok placement =>
    have hsite : InterfaceLeaf.site? stage ⟨c.point, decl, semantic⟩ = some placement.site :=
      InterfaceLeaf.site?_eq_some_iff.2 ⟨placement, hplacement, rfl⟩
    obtain ⟨site, capability, extension⟩ := placement
    refine (comesTo_emit (Emit.realizes_declare hs.sound.emitter capability extension).comesTo).step
      fun s₁ _ hdeclared => ?_
    obtain ⟨hs₁, he₁, hgrows, -⟩ := hdeclared
    have hlists := hs.toListsLocated.withEmitter s₁.emitter
    rw [← hs₁] at hlists
    have hoptions := hgrows.options.trans hs.options
    cases site with
    | packed =>
      rw [InterfaceLeaf.creation, hsite]
      exact comesTo_pure (hlists.append_unlisted (.inr hsite))
    | builtin b =>
      refine (comesTo_createBuiltin hlists he₁ hoptions hsite rfl rfl semantic).bind_total
        fun s₂ _ _ hs₂ => ?_
      exact comesTo_pure hs₂
    | location =>
      obtain ⟨semantic, rfl⟩ :=
        Option.isSome_iff_exists.1 (InterfaceLeaf.isSome_semantic_of_site? hsite)
      refine (comesTo_createLocated hlists he₁ hoptions hsite hinvocation).bind_total
        fun s₂ _ _ hs₂ => ?_
      exact comesTo_pure hs₂

/-! ## Leaves in order -/

/-- Whatever leaves there are already, the action creates some more, or fails where this cannot be
done. -/
def Makes {α : Type} (options : Options) (stage : Stage) (points : Option Nat) (x : Lower α)
    (leaves : List InterfaceLeaf) : Prop :=
  ∀ ⦃before : List InterfaceLeaf⦄ ⦃s : Session⦄, s.Made options stage points before →
    ComesTo x s (creations options stage before leaves) fun s' _ _ =>
      s'.Made options stage points (before ++ leaves)

variable {α β : Type} {leaves leaves' : List InterfaceLeaf}

theorem makes_pure (a : α) : Makes options stage points (pure a) [] := fun before s hs =>
  comesTo_pure (by rwa [List.append_nil])

theorem Makes.bind {x : Lower α} {f : α → Lower β} (hx : Makes options stage points x leaves)
    (hf : ∀ a, Makes options stage points (f a) leaves') :
    Makes options stage points (x >>= f) (leaves ++ leaves') := by
  intro before s hs
  rw [creations_append, ← List.append_assoc]
  exact (hx hs).bind fun s' a _ hs' => hf a hs'

/-- A last part that creates nothing. -/
theorem Makes.map {x : Lower α} (hx : Makes options stage points x leaves) (f : α → β) :
    Makes options stage points (do let a ← x; return f a) leaves := by
  have hbind := hx.bind fun a => makes_pure (f a)
  rwa [List.append_nil] at hbind

theorem Makes.and {x y : Lower Bool} (hx : Makes options stage points x leaves)
    (hy : Makes options stage points y leaves') :
    Makes options stage points (do let a ← x; let b ← y; return a && b) (leaves ++ leaves') :=
  hx.bind fun a => hy.map (a && ·)

theorem makes_get_bind {f : Session → Lower α}
    (h : ∀ s, s.stage = stage → s.outputPoints = points →
      Makes options stage points (f s) leaves) :
    Makes options stage points (get >>= f) leaves := fun _ s hs =>
  comesTo_get_bind (h s hs.stage hs.outputPoints hs)

theorem makes_report (f : Finding) (position : Source.Position) :
    Makes options stage points (report f position) [] := by
  intro before s hs
  have hkeeps := (keeps_report hs.sound f position).of_run (runOn_emit _ s)
  refine comesTo_of_runOn (runOn_emit _ s) ?_
  rw [List.append_nil]
  exact ⟨hs.toListsLocated.withEmitter _, hkeeps.1, hkeeps.2.emitter.options.trans hs.options⟩

theorem makes_forAll {check : α → Lower Bool} {made : α → List InterfaceLeaf} :
    (l : List α) → (∀ a ∈ l, Makes options stage points (check a) (made a)) →
      Makes options stage points (forAll check l) (l.flatMap made)
  | [], _ => makes_pure true
  | _ :: rest, h => by
    obtain ⟨hfirst, hrest⟩ := List.forall_mem_cons.1 h
    exact hfirst.and (makes_forAll rest hrest)

theorem makes_createLeaf (semantic : Option Semantic) (hinvocation : c.invocation = none) :
    Makes options stage points (createLeaf decl semantic c) [⟨c.point, decl, semantic⟩] := by
  intro before s hs
  rw [creations_singleton]
  exact ((comesTo_createLeaf hs semantic hinvocation).and_keeps (keeps_createLeaf hs.sound)).imp
    fun s' _ _ ⟨hlists, hsound, hgrows⟩ =>
      ⟨hlists, hsound, hgrows.emitter.options.trans hs.options⟩

/-! ## Declarations and parameters -/

theorem makes_createItems (hinvocation : c.invocation = none) : (items : List InterfaceItem) →
    Makes options stage points (createItems c items) (items.filterMap (·.leaf? c.point))
  | [] => makes_pure true
  | .leaf _ semantic :: rest =>
    (makes_createLeaf semantic hinvocation).and (makes_createItems hinvocation rest)
  | .remark finding position :: rest =>
    ((makes_report finding position).map _).and (makes_createItems hinvocation rest)

theorem makes_createDeclaration (decl : Field) (point : Option SignaturePoint)
    (vertices : Option Nat) :
    Makes options stage points (createDeclaration decl point vertices none)
      (InterfaceLeaf.ofDeclaration decl point) := by
  rw [createDeclaration.eq_def, InterfaceLeaf.ofDeclaration.eq_def]
  split
  · exact makes_pure true
  · cases point with
    | none => exact makes_get_bind fun s _ _ => (makes_report _ _).map _
    | some point => exact makes_createItems rfl _

theorem makes_createInput (p : Param) (perPatch : Bool) :
    Makes options stage points (createInput p perPatch) (p.inputLeaves stage perPatch) := by
  rw [createInput, Param.inputLeaves]
  split
  · exact makes_pure true
  · refine makes_get_bind fun s hstage _ => ?_
    dsimp only
    rw [hstage]
    rcases p.perVertex stage perPatch with ⟨_ | ty, vertices⟩
    · exact makes_pure true
    · exact makes_createDeclaration _ _ vertices

theorem makes_createOutput (p : Param) (perPatch : Bool) :
    Makes options stage points (createOutput p perPatch)
      (p.createdOutputs stage points perPatch) := by
  refine makes_get_bind fun s hstage _ => ?_
  dsimp only
  rw [hstage]
  by_cases hhull : stage = .hull ∧ !perPatch
  · rw [if_pos hhull]
    refine makes_get_bind fun s' _ hpoints => ?_
    rw [hpoints]
    cases points with
    | none =>
      rw [Param.createdOutputs, if_pos ⟨hhull.1, hhull.2, rfl⟩]
      exact (makes_report _ _).map _
    | some points =>
      rw [Param.createdOutputs, if_neg (by simp), Param.outputLeaves, if_pos hhull]
      exact makes_createDeclaration _ _ _
  · have hnone : ¬(stage = .hull ∧ !perPatch ∧ points = none) := fun h => hhull ⟨h.1, h.2.1⟩
    rw [if_neg hhull, Param.createdOutputs, if_neg hnone, Param.outputLeaves, if_neg hhull]
    cases (p.perVertex stage perPatch).1 with
    | none => exact makes_pure true
    | some ty => exact makes_createDeclaration _ _ _

theorem makes_createIn (p : Param) (perPatch : Bool) :
    Makes options stage points (createIn p perPatch) (p.inLeaves stage perPatch) := by
  rw [createIn, Param.inLeaves]
  split
  · exact makes_createInput p perPatch
  · exact makes_pure true

theorem makes_createParam (p : Param) :
    Makes options stage points (createParam p) (p.inLeaves stage false ++
      if p.isOutput then p.createdOutputs stage points false else []) := by
  rw [createParam_eq, createOut]
  refine (makes_createIn p false).and ?_
  split
  · exact makes_createOutput p false
  · exact makes_pure true

/-- Nothing is created for `void`, which has no leaves. -/
theorem makes_createReturn (f : Function) (perPatch : Bool) :
    Makes options stage points (createReturn f perPatch)
      (f.returnParam.createdOutputs stage points perPatch) := by
  rw [createReturn]
  split
  · rename_i hvoid
    rw [Param.createdOutputs, outputLeaves_of_isVoid hvoid, ite_self]
    exact makes_pure true
  · exact makes_createOutput _ perPatch

theorem makes_createPatchFunction (f : Function) :
    Makes options stage points (createPatchFunction f) (f.patchLeaves stage) := by
  have hresult : Makes options stage points (createReturn f true)
      (f.returnParam.createdOutputs stage points true) := makes_createReturn f true
  rw [Param.createdOutputs, if_neg (by simp)] at hresult
  exact (makes_forAll f.params fun p _ => makes_createIn p true).and hresult

theorem makes_createPatch (e : EntryPoint) :
    Makes options stage points (createPatch e)
      (e.patchFunction.elim [] (·.patchLeaves stage)) := by
  rw [createPatch.eq_def]
  cases e.patchFunction with
  | none => exact makes_pure true
  | some f => exact makes_createPatchFunction f

/-- The leaves of an entry point are created, and then locations are given out. -/
theorem comesTo_createEntry {e : EntryPoint} {s : Session}
    (hs : s.Made options e.stage e.outputPoints []) (recorded : Bool × Bool) :
    ComesTo (createEntry e recorded) s (do
      creations options e.stage [] e.createdLeaves
      Written.plans options.order (e.locatedVariables options)) fun _ _ _ => True := by
  have hparams : Makes options e.stage e.outputPoints (forAll createParam e.function.params) _ :=
    makes_forAll _ fun p _ => makes_createParam p
  have hresult : Makes options e.stage e.outputPoints (createReturn e.function false) _ :=
    makes_createReturn e.function false
  have hlocated := e.map_unnumbered_locatedVariables options
  rw [EntryPoint.locatedVariables, EntryPoint.createdLeaves, Function.createdLeaves] at hlocated ⊢
  rw [creations_append, creations_append, bind_assoc, bind_assoc]
  refine (hparams hs).bind fun s₁ _ _ hs₁ => ?_
  refine (hresult hs₁).bind fun s₂ _ _ hs₂ => ?_
  refine (makes_createPatch e hs₂).bind fun s₃ _ _ hs₃ => ?_
  have hplans := comesTo_decorateLocations hs₃.sound
  rw [hs₃.options, Written.plans_congr (hs₃.located.trans hlocated.symm)] at hplans
  exact hplans.bind_total fun _ _ _ _ => comesTo_pure trivial

end Lower

end ShaderLowering
