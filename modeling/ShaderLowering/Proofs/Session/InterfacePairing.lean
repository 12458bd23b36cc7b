import ShaderLowering.Proofs.Interface.Renumbering
import ShaderLowering.Proofs.Session.Frames

/-!
# Interface operations in pairs

Two sessions have the same interface if they differ in the numbers of their interface variables at
most, whatever else was created in either of them (`Session.InterfaceAlike`).  An operation on the
interface then does the same to both: it answers alike, leaves them alike, and leaves the resources
and the counters of either alone (`Session.InterfaceStep`).
-/

namespace ShaderLowering

open Source (Ty Field Param Function EntryPoint Position)
open Spirv (Builtin VariableId)

/-! ## Variables of the emitter -/

namespace Emit

open Emitter (pairing)
open Action.Pairing (keeps_pure keeps_ofChecked keeps_get_bind)

variable {e f : Emitter} (h : e.Alike f)
include h

theorem pair_interfaceType (ty : Ty) (vertices : Option Nat) :
    pairing.Keeps (fun _ _ => True) (interfaceType ty vertices) (interfaceType ty vertices) e f :=
  (realizes_interfaceType h.left ty vertices).pairType
    (h.options ▸ realizes_interfaceType h.right ty vertices) h.options

theorem pair_builtinVariable (decl : Field) (b : Builtin) (c : InterfaceContext) :
    pairing.Keeps (fun _ _ => True) (builtinVariable decl b c) (builtinVariable decl b c) e f :=
  (pair_moveTo h _).bind fun _ _ _ _ h₁ _ _ _ =>
    (pair_interfaceType h₁ _ _).bind fun _ _ _ _ h₂ _ _ _ => pair_addVariable h₂ _ _

/-- The variables of a leaf at a location take the same number of locations. -/
theorem pair_locatedVariable (decl : Field) (semantic : Semantic) (c : InterfaceContext) :
    pairing.Keeps (fun r r' => r.2 = r'.2) (locatedVariable decl semantic c)
      (locatedVariable decl semantic c) e f := by
  rw [locatedVariable_eq]
  refine keeps_get_bind ?_
  dsimp only
  rw [h.options]
  refine (pair_moveTo h _).bind fun _ _ _ _ h₁ _ _ _ => ?_
  refine (pair_interfaceType h₁ _ _).bind fun _ _ _ _ h₂ _ _ _ => ?_
  refine ((realizes_requireSampling h₂.left).pairSame (realizes_requireSampling h₂.right)
    h₂.options).bind fun _ _ _ _ h₃ _ _ _ => ?_
  refine ((realizes_declareNarrow h₃.left _ _).pairSame (realizes_declareNarrow h₃.right _ _)
    h₃.options).bind fun _ _ _ _ h₄ _ _ _ => ?_
  refine (keeps_ofChecked h₄ _).bind fun count _ _ _ h₅ hcount _ _ => ?_
  exact (pair_addVariable h₅ _ _).bind fun _ _ _ _ h₆ _ _ _ => keeps_pure h₆ hcount

theorem pair_distanceArray (direction : Direction) (kind : DistanceKind) (total : Nat)
    (vertices : Option Nat) :
    pairing.Keeps (fun _ _ => True) (distanceArray direction kind total vertices)
      (distanceArray direction kind total vertices) e f := by
  rw [distanceArray_eq]
  refine ((realizes_distanceType h.left total vertices).pairType
    (realizes_distanceType h.right total vertices) h.options).bind fun _ _ _ _ h₁ _ _ _ => ?_
  refine (pair_addVariable h₁ _ _).bind fun _ _ _ _ h₂ _ _ _ => ?_
  exact ((realizes_require h₂.left _).pairSame (realizes_require h₂.right _) h₂.options).bind
    fun _ _ _ _ h₃ _ _ _ => keeps_pure h₃ trivial

omit h in
theorem pair_distanceArraysFor (inputVertices outputVertices : Option Nat) :
    (keys : List (Direction × DistanceKind)) → {a b : DistanceArrays} →
    a.unnumbered = b.unnumbered → {e f : Emitter} → e.Alike f →
    pairing.Keeps (fun r r' => r.2.unnumbered = r'.2.unnumbered)
      (distanceArraysFor inputVertices outputVertices keys a)
      (distanceArraysFor inputVertices outputVertices keys b) e f
  | [], _, _, hab, _, _, h => keeps_pure h hab
  | (direction, kind) :: rest, a, b, hab, _, _, h => by
    have htotal := DistanceArrays.total_unnumbered hab direction kind
    rw [distanceArraysFor.eq_def, distanceArraysFor.eq_def _ _ (_ :: _) b]
    dsimp only
    by_cases hzero : (a.get direction kind).total = 0
    · rw [if_pos hzero, if_pos (htotal ▸ hzero)]
      exact pair_distanceArraysFor inputVertices outputVertices rest hab h
    · rw [if_neg hzero, if_neg (htotal ▸ hzero)]
      refine (htotal ▸ pair_distanceArray h direction kind _ _ : pairing.Keeps (fun _ _ => True)
        (distanceArray direction kind (a.get direction kind).total _)
        (distanceArray direction kind (b.get direction kind).total _) _ _).bind
        fun var var' _ _ h₁ _ _ _ => ?_
      refine (pair_distanceArraysFor inputVertices outputVertices rest
        (DistanceArrays.set_var_unnumbered hab direction kind _ _) h₁).bind ?_
      exact fun _ _ _ _ h₂ hr _ _ => keeps_pure h₂ hr

end Emit

/-! ## Sessions with the same interface -/

/-- A lookup does not depend on what is kept of the values. -/
theorem lookup_map_snd {α β γ : Type} [BEq α] (f : β → γ) (a : α) (l : List (α × β)) :
    (l.map fun p => (p.1, f p.2)).lookup a = (l.lookup a).map f := by
  induction l with
  | nil => rfl
  | cons p rest ih =>
    rw [List.map_cons, List.lookup_cons, List.lookup_cons, ih]
    split <;> rfl

theorem map_modify {α β : Type} {f : α → β} {g : α → α} {k : β → β}
    (h : ∀ a, f (g a) = k (f a)) :
    (l : List α) → (i : Nat) → (l.modify i g).map f = (l.map f).modify i k
  | [], i => by rw [List.modify_nil, List.map_nil, List.modify_nil]
  | a :: rest, 0 => by
    rw [List.modify_zero_cons, List.map_cons, List.map_cons, List.modify_zero_cons, h]
  | a :: rest, i + 1 => by
    rw [List.modify_succ_cons, List.map_cons, List.map_cons, List.modify_succ_cons,
      map_modify h rest i]

namespace Session

/-- The variables that interface operations decorate or refer to exist. -/
structure HoldsInterface (s : Session) : Prop where
  interface : ∀ v ∈ s.interface, v.var < s.size
  builtins : ∀ entry ∈ s.builtins, entry.2.1 < s.size

/-- The signature points at which builtins have their variables. -/
def builtinPoints (s : Session) : List ((Builtin × Direction) × SignaturePoint) :=
  s.builtins.map fun b => (b.1, b.2.2)

/-- The sessions have the same interface, but for the numbers of its variables. -/
structure InterfaceAlike (s t : Session) : Prop where
  emitter : s.emitter.Alike t.emitter
  stage : s.stage = t.stage
  outputPoints : s.outputPoints = t.outputPoints
  interface : s.interface.map (·.unnumbered) = t.interface.map (·.unnumbered)
  builtins : s.builtinPoints = t.builtinPoints
  distances : s.distances.unnumbered = t.distances.unnumbered
  left : s.HoldsInterface
  right : t.HoldsInterface

/-- What an interface operation leaves alone. -/
structure InterfaceStep (s s' : Session) : Prop extends s.KeepsResources s' where
  counters : s'.counters = s.counters

variable {s s' t : Session}

theorem HoldsInterface.withEmitter (h : s.HoldsInterface) {e : Emitter}
    (he : s.emitter.KeepsSlots e) : HoldsInterface { s with emitter := e } where
  interface v hv := he.target.lt_size (h.interface v hv)
  builtins entry hentry := he.target.lt_size (h.builtins entry hentry)

theorem Sound.holdsInterface (hs : s.Sound) : s.HoldsInterface :=
  ⟨hs.held.interface, hs.held.builtins⟩

theorem InterfaceStep.refl (s : Session) : s.InterfaceStep s := ⟨.refl s, rfl⟩

/-- Interface operations in pairs. -/
def interfacePairing : Action.Pairing Session where
  alike := InterfaceAlike
  step := InterfaceStep
  refl := .refl
  trans h h' := ⟨h.toKeepsResources.trans h'.toKeepsResources, h'.counters.trans h.counters⟩

/-- The builtin has a variable in both sessions or in neither, for the same signature point. -/
theorem InterfaceAlike.lookup_builtins (h : s.InterfaceAlike t) (key : Builtin × Direction) :
    (s.builtins.lookup key).map (·.2) = (t.builtins.lookup key).map (·.2) := by
  have hlookup := congrArg (·.lookup key) h.builtins
  simp only [builtinPoints, lookup_map_snd (fun p : VariableId × SignaturePoint => p.2)] at hlookup
  exact hlookup

theorem InterfaceAlike.filter_interface (h : s.InterfaceAlike t) (direction : Direction) :
    (s.interface.filter (·.direction = direction)).map (·.unnumbered) =
      (t.interface.filter (·.direction = direction)).map (·.unnumbered) := by
  have hfilter : ∀ vs : List InterfaceVariable,
      (vs.filter (·.direction = direction)).map (·.unnumbered) =
        (vs.map (·.unnumbered)).filter (·.direction = direction) := by
    intro vs
    rw [List.filter_map]
    rfl
  rw [hfilter, hfilter, h.interface]

end Session

/-! ## Operations -/

theorem Lower.pair_forget {α β : Type} {P : Action.Pairing Session} {Q : α → β → Prop}
    {x : Lower α} {y : Lower β} {s t : Session} (hxy : P.Keeps Q x y s t) :
    P.Keeps (fun _ _ => True) (forget x) (forget y) s t :=
  hxy.bind fun _ _ _ _ h₁ _ _ _ => Action.Pairing.keeps_pure h₁ trivial

/-- The variable that a builtin has is in the module. -/
theorem Lower.lt_size_of_builtinVariable {s s' : Session} (he : s.emitter.Sound)
    (hs : s.HoldsInterface) {decl : Field} {b : Builtin} {c : InterfaceContext}
    {r : VariableId × SignaturePoint} (h : (builtinVariable decl b c).runOn s = (.ok r, s')) :
    r.1 < s'.size := by
  obtain ⟨_, _, h₀, h⟩ := Action.runOn_bind_eq_ok_iff.1 h
  cases h₀
  split at h
  · rename_i known hknown
    cases h
    obtain ⟨_, _, hsplit, -⟩ := List.lookup_eq_some_iff.1 hknown
    exact hs.builtins _ (hsplit ▸ List.mem_append_right _ List.mem_cons_self)
  · obtain ⟨var, s₁, hvar, h⟩ := Action.runOn_bind_eq_ok_iff.1 h
    cases h
    obtain ⟨e', hrun, rfl⟩ := runOn_emit_eq_ok_iff.1 hvar
    exact ((Emit.makesVariable_builtinVariable he decl b c).fresh _ _ hrun).2

namespace Session.InterfaceAlike

open Lower
open Action.Pairing (keeps_pure keeps_throw keeps_ofChecked keeps_get_bind keeps_forM)

variable {α β : Type} {Q : α → β → Prop} {s t : Session} (h : s.InterfaceAlike t)
include h

/-! ### Emitter and findings -/

theorem pair_emit {x : Emit α} {y : Emit β}
    (hxy : Emitter.pairing.Keeps Q x y s.emitter t.emitter) :
    interfacePairing.Keeps Q (emit x) (emit y) s t where
  alike := { h with
    emitter := hxy.alike
    left := h.left.withEmitter hxy.left
    right := h.right.withEmitter hxy.right }
  left := { InterfaceStep.refl s with emitter := hxy.left }
  right := { InterfaceStep.refl t with emitter := hxy.right }
  agree := hxy.agree

theorem pair_options : interfacePairing.Keeps Eq options options s t :=
  keeps_get_bind (keeps_pure h h.emitter.options)

theorem pair_report (finding : Finding) (position : Position) :
    interfacePairing.Keeps Eq (report finding position) (report finding position) s t :=
  h.pair_emit (Emit.pair_report h.emitter finding position)

theorem pair_reportAll (findings : List (Finding × Position)) :
    interfacePairing.Keeps Eq (reportAll findings) (reportAll findings) s t :=
  keeps_forM findings (fun f _ _ h => h.pair_report f.1 f.2) h

theorem pair_reportThen (finding : Finding) (position : Position) (b : Bool) :
    interfacePairing.Keeps Eq (do report finding position; return b)
      (do report finding position; return b) s t :=
  (h.pair_report finding position).bind fun _ _ _ _ h₁ _ _ _ => keeps_pure h₁ rfl

omit h in
/-- Two checks in a row. -/
theorem pair_and {x y x' y' : Lower Bool} (hx : interfacePairing.Keeps Eq x x' s t)
    (hy : ∀ s' t' : Session, s'.InterfaceAlike t' → interfacePairing.Keeps Eq y y' s' t') :
    interfacePairing.Keeps Eq (do let a ← x; let b ← y; return a && b)
      (do let a ← x'; let b ← y'; return a && b) s t := by
  refine hx.bind fun a _ s₁ t₁ h₁ hab _ _ => ?_
  subst hab
  refine (hy s₁ t₁ h₁).bind fun b _ _ _ h₂ hab _ _ => ?_
  subst hab
  exact keeps_pure h₂ rfl

omit h in
theorem pair_forAll {γ : Type} {check : γ → Lower Bool}
    (hcheck : ∀ c (s t : Session), s.InterfaceAlike t →
      interfacePairing.Keeps Eq (check c) (check c) s t) :
    (l : List γ) → {s t : Session} → s.InterfaceAlike t →
      interfacePairing.Keeps Eq (forAll check l) (forAll check l) s t
  | [], _, _, h => keeps_pure h rfl
  | c :: rest, _, _, h => pair_and (hcheck c _ _ h) fun _ _ h₁ => pair_forAll hcheck rest h₁

/-! ### Leaves -/

theorem pair_addInterface {v w : InterfaceVariable} (hvw : v.unnumbered = w.unnumbered)
    (hv : v.var < s.size) (hw : w.var < t.size) :
    interfacePairing.Keeps Eq (addInterface v) (addInterface w) s t := by
  have hmem : ∀ {l : List InterfaceVariable} {u : InterfaceVariable} {n : Nat},
      (∀ v ∈ l, v.var < n) → u.var < n → ∀ v ∈ l ++ [u], v.var < n := by
    intro l u n hl hu v hv
    rcases List.mem_append.1 hv with hv | hv
    · exact hl v hv
    · exact List.mem_singleton.1 hv ▸ hu
  refine Action.Pairing.keeps_modify { h with interface := ?_, left := ?_, right := ?_ } ?_ ?_
  · rw [List.map_append, List.map_append, h.interface, List.map_singleton, List.map_singleton, hvw]
  · exact ⟨hmem h.left.interface hv, h.left.builtins⟩
  · exact ⟨hmem h.right.interface hw, h.right.builtins⟩
  · exact { InterfaceStep.refl s with }
  · exact { InterfaceStep.refl t with }

theorem pair_builtinVariable (decl : Field) (b : Builtin) (c : InterfaceContext) :
    interfacePairing.Keeps (fun r r' => r.2 = r'.2) (builtinVariable decl b c)
      (builtinVariable decl b c) s t := by
  refine keeps_get_bind ?_
  have hlookup := h.lookup_builtins (b, c.point.direction)
  cases hs : s.builtins.lookup (b, c.point.direction) with
  | some known =>
    cases ht : t.builtins.lookup (b, c.point.direction) with
    | some known' =>
      rw [hs, ht] at hlookup
      exact keeps_pure h (Option.some.inj hlookup)
    | none => rw [hs, ht] at hlookup; cases hlookup
  | none =>
    cases ht : t.builtins.lookup (b, c.point.direction) with
    | some known' => rw [hs, ht] at hlookup; cases hlookup
    | none =>
      have hmakes := Emit.makesVariable_builtinVariable h.emitter.left decl b c
      have hmakes' := Emit.makesVariable_builtinVariable h.emitter.right decl b c
      refine (h.pair_emit (Emit.pair_builtinVariable h.emitter decl b c)).bind
        fun var var' s₁ t₁ h₁ _ hvar hvar' => ?_
      obtain ⟨e, hrun, rfl⟩ := runOn_emit_eq_ok_iff.1 hvar
      obtain ⟨e', hrun', rfl⟩ := runOn_emit_eq_ok_iff.1 hvar'
      have hlt := (hmakes.fresh _ _ hrun).2
      have hlt' := (hmakes'.fresh _ _ hrun').2
      refine (Action.Pairing.keeps_modify (P := interfacePairing)
        { h₁ with builtins := ?_, left := ⟨h₁.left.interface, ?_⟩,
                  right := ⟨h₁.right.interface, ?_⟩ }
        { InterfaceStep.refl _ with } { InterfaceStep.refl _ with }).bind
        fun _ _ _ _ h₂ _ _ _ => keeps_pure h₂ rfl
      · exact congrArg (_ :: ·) h₁.builtins
      · exact List.forall_mem_cons.2 ⟨hlt, h₁.left.builtins⟩
      · exact List.forall_mem_cons.2 ⟨hlt', h₁.right.builtins⟩

theorem pair_createBuiltin (decl : Field) (semantic : Option Semantic) (b : Builtin)
    (c : InterfaceContext) : interfacePairing.Keeps Eq (createBuiltin decl semantic b c)
      (createBuiltin decl semantic b c) s t := by
  refine (h.pair_builtinVariable decl b c).bind fun r r' s₁ t₁ h₁ hpoint hrun hrun' => ?_
  have hlt := lt_size_of_builtinVariable h.emitter.left h.left hrun
  have hlt' := lt_size_of_builtinVariable h.emitter.right h.right hrun'
  dsimp only
  rw [hpoint]
  split
  · exact h₁.pair_addInterface rfl hlt hlt'
  · exact keeps_pure h₁ rfl

theorem pair_createLocated (decl : Field) (semantic : Semantic) (c : InterfaceContext) :
    interfacePairing.Keeps Eq (createLocated decl semantic c) (createLocated decl semantic c)
      s t := by
  have hmakes := Emit.makesVariable_locatedVariable h.emitter.left decl semantic c
  have hmakes' := Emit.makesVariable_locatedVariable h.emitter.right decl semantic c
  refine (h.pair_emit (Emit.pair_locatedVariable h.emitter decl semantic c)).bind
    fun r r' s₁ t₁ h₁ hcount hvar hvar' => ?_
  obtain ⟨e, hrun, rfl⟩ := runOn_emit_eq_ok_iff.1 hvar
  obtain ⟨e', hrun', rfl⟩ := runOn_emit_eq_ok_iff.1 hvar'
  refine h₁.pair_addInterface ?_ (hmakes.fresh _ _ hrun).2 (hmakes'.fresh _ _ hrun').2
  simp only [InterfaceVariable.unnumbered, hcount]

theorem pair_createLeaf (decl : Field) (semantic : Option Semantic) (c : InterfaceContext) :
    interfacePairing.Keeps Eq (createLeaf decl semantic c) (createLeaf decl semantic c) s t := by
  refine keeps_get_bind ?_
  rw [h.stage]
  cases placementOf t.stage c.point decl semantic with
  | error finding => exact h.pair_reportThen finding _ _
  | ok placement =>
    refine (h.pair_emit (Emit.pair_declare h.emitter _ _)).bind fun _ _ _ _ h₁ _ _ _ => ?_
    split
    · exact keeps_pure h₁ rfl
    · exact (h₁.pair_createBuiltin _ _ _ _).bind fun _ _ _ _ h₂ _ _ _ => keeps_pure h₂ rfl
    · exact (h₁.pair_createLocated _ _ _).bind fun _ _ _ _ h₂ _ _ _ => keeps_pure h₂ rfl
    · exact keeps_pure h₁ rfl

theorem pair_createItem (c : InterfaceContext) (item : InterfaceItem) :
    interfacePairing.Keeps Eq (createItem c item) (createItem c item) s t := by
  cases item with
  | leaf decl semantic => exact h.pair_createLeaf decl semantic c
  | remark finding position => exact h.pair_reportThen finding position _

omit h in
theorem pair_createItems (c : InterfaceContext) : (items : List InterfaceItem) →
    {s t : Session} → s.InterfaceAlike t →
    interfacePairing.Keeps Eq (createItems c items) (createItems c items) s t
  | [], _, _, h => keeps_pure h rfl
  | item :: rest, _, _, h => pair_and (h.pair_createItem c item) fun _ _ h₁ =>
    pair_createItems c rest h₁

theorem pair_createDeclaration (decl : Field) (point : Option SignaturePoint)
    (vertices invocation : Option Nat) :
    interfacePairing.Keeps Eq (createDeclaration decl point vertices invocation)
      (createDeclaration decl point vertices invocation) s t := by
  rw [createDeclaration.eq_def]
  split
  · exact keeps_pure h rfl
  · cases point with
    | none =>
      refine keeps_get_bind ?_
      rw [h.stage]
      exact h.pair_reportThen _ _ _
    | some point => exact pair_createItems _ _ h

theorem pair_createInput (p : Param) (perPatch : Bool) :
    interfacePairing.Keeps Eq (createInput p perPatch) (createInput p perPatch) s t := by
  rw [createInput]
  split
  · exact keeps_pure h rfl
  · refine keeps_get_bind ?_
    rw [h.stage]
    dsimp only
    split
    · exact keeps_pure h rfl
    · exact h.pair_createDeclaration _ _ _ _

theorem pair_createHullOutput (p : Param) (points : Nat) (invocation : Option Nat) :
    interfacePairing.Keeps Eq (createHullOutput p points invocation)
      (createHullOutput p points invocation) s t :=
  h.pair_createDeclaration _ _ _ _

theorem pair_createOutput (p : Param) (perPatch : Bool) :
    interfacePairing.Keeps Eq (createOutput p perPatch) (createOutput p perPatch) s t := by
  refine keeps_get_bind ?_
  rw [h.stage]
  dsimp only
  split
  · refine keeps_get_bind ?_
    rw [h.outputPoints]
    cases t.outputPoints with
    | none => exact h.pair_reportThen _ _ _
    | some points => exact h.pair_createHullOutput p points none
  · cases (p.perVertex t.stage perPatch).1 with
    | none => exact keeps_pure h rfl
    | some ty => exact h.pair_createDeclaration _ _ _ _

/-! ### Locations -/

theorem pair_checkSemantics (direction : Direction) :
    interfacePairing.Keeps Eq (checkSemantics direction) (checkSemantics direction) s t := by
  refine keeps_get_bind ?_
  have hfindings : repeatedSemantics direction [] (s.interface.filter (·.direction = direction)) =
      repeatedSemantics direction [] (t.interface.filter (·.direction = direction)) := by
    rw [← repeatedSemantics_unnumbered, h.filter_interface, repeatedSemantics_unnumbered]
  dsimp only
  rw [hfindings]
  exact (h.pair_reportAll _).bind fun _ _ _ _ h₁ _ _ _ => keeps_pure h₁ rfl

theorem pair_setLocation (i location : Nat) :
    interfacePairing.Keeps Eq (setLocation i location) (setLocation i location) s t := by
  -- a variable can be placed before or after its number is left out
  have hplaced : ∀ vs : List InterfaceVariable,
      (vs.modify i (.placedAt location)).map (·.unnumbered) =
        (vs.map (·.unnumbered)).modify i (.placedAt location) :=
    fun vs => map_modify (f := InterfaceVariable.unnumbered) (g := .placedAt location)
      (k := .placedAt location) (fun _ => rfl) vs i
  have hheld : ∀ {vs : List InterfaceVariable} {n : Nat}, (∀ v ∈ vs, v.var < n) →
      ∀ v ∈ vs.modify i (.placedAt location), v.var < n := by
    intro vs n hvs v hv
    obtain ⟨j, hj⟩ := List.mem_iff_getElem?.1 hv
    rw [List.getElem?_modify] at hj
    obtain ⟨u, hu, rfl⟩ := Option.map_eq_some_iff.1 hj
    have hlt := hvs u (List.mem_of_getElem? hu)
    split <;> exact hlt
  refine (Action.Pairing.keeps_modify (P := interfacePairing)
    { h with interface := ?_, left := ⟨hheld h.left.interface, h.left.builtins⟩,
             right := ⟨hheld h.right.interface, h.right.builtins⟩ }
    { InterfaceStep.refl _ with } { InterfaceStep.refl _ with }).bind
    fun _ _ s₁ t₁ h₁ _ _ _ => keeps_get_bind ?_
  · exact (hplaced _).trans ((congrArg _ h.interface).trans (hplaced _).symm)
  · -- the two lists have a variable at the same positions
    have hboth := congrArg (·[i]?) h₁.interface
    simp only [List.getElem?_map] at hboth
    cases hv : s₁.interface[i]? with
    | none =>
      cases hw : t₁.interface[i]? with
      | none => exact keeps_pure h₁ rfl
      | some w => rw [hv, hw] at hboth; cases hboth
    | some v =>
      cases hw : t₁.interface[i]? with
      | none => rw [hv, hw] at hboth; cases hboth
      | some w =>
        exact h₁.pair_emit (Emit.pair_decorate_location h₁.emitter
          (h₁.left.interface v (List.mem_of_getElem? hv))
          (h₁.right.interface w (List.mem_of_getElem? hw)) location)

theorem pair_assignLocations (direction : Direction) :
    interfacePairing.Keeps Eq (assignLocations direction) (assignLocations direction) s t := by
  refine h.pair_options.bind fun options _ s₁ t₁ h₁ hoptions _ _ => ?_
  subst hoptions
  refine keeps_get_bind ?_
  rw [LocationPlan.of_unnumbered h₁.interface]
  refine (keeps_ofChecked h₁ _).bind fun plan _ s₂ t₂ h₂ hplan _ _ => ?_
  subst hplan
  refine (h₂.pair_reportAll _).bind fun _ _ _ _ h₃ _ _ _ => ?_
  refine (keeps_forM plan.placed (fun p s t (h : s.InterfaceAlike t) => ?_) h₃).bind
    fun _ _ _ _ h₄ _ _ _ => keeps_pure h₄ rfl
  exact h.pair_setLocation p.1 p.2

theorem pair_decorateLocations :
    interfacePairing.Keeps Eq decorateLocations decorateLocations s t := by
  refine (h.pair_checkSemantics .input).bind fun a _ _ _ h₁ ha _ _ => ?_
  refine (h₁.pair_checkSemantics .output).bind fun b _ _ _ h₂ hb _ _ => ?_
  refine (h₂.pair_assignLocations .input).bind fun c _ _ _ h₃ hc _ _ => ?_
  refine (h₃.pair_assignLocations .output).bind fun d _ _ _ h₄ hd _ _ => ?_
  subst ha hb hc hd
  exact keeps_pure h₄ rfl

/-! ### Distances -/

theorem pair_recordIn (direction : Direction) (ty : Ty) (p : Param) :
    interfacePairing.Keeps Eq (recordIn direction ty p) (recordIn direction ty p) s t := by
  refine keeps_get_bind ?_
  have hs := DistanceArrays.recordLeaves_unnumbered direction
    (distanceLeaves ty p.attributes.semantic p.position ty) s.distances
  have ht := DistanceArrays.recordLeaves_unnumbered direction
    (distanceLeaves ty p.attributes.semantic p.position ty) t.distances
  rw [h.distances, ht, Prod.mk.injEq] at hs
  obtain ⟨hfindings, hdistances⟩ := hs
  dsimp only [DistanceArrays.record]
  rw [← hfindings]
  refine (Action.Pairing.keeps_modify (P := interfacePairing)
    { h with distances := hdistances.symm, left := ⟨h.left.interface, h.left.builtins⟩,
             right := ⟨h.right.interface, h.right.builtins⟩ }
    { InterfaceStep.refl _ with } { InterfaceStep.refl _ with }).bind
    fun _ _ _ _ h₁ _ _ _ => ?_
  exact (h₁.pair_reportAll _).bind fun _ _ _ _ h₂ _ _ _ => keeps_pure h₂ rfl

theorem pair_recordIf (flows : Bool) (direction : Direction) (ty : Ty) (p : Param) :
    interfacePairing.Keeps Eq (recordIf flows direction ty p) (recordIf flows direction ty p)
      s t := by
  rw [recordIf]
  split
  · exact h.pair_recordIn _ _ _
  · exact keeps_pure h rfl

theorem pair_recordDistances (p : Param) (perPatch : Bool) :
    interfacePairing.Keeps Eq (recordDistances p perPatch) (recordDistances p perPatch) s t := by
  rw [recordDistances_eq]
  refine keeps_get_bind ?_
  rw [h.stage]
  cases (p.perVertex t.stage perPatch).1 with
  | none => exact keeps_pure h rfl
  | some ty => exact pair_and (h.pair_recordIf _ _ _ _) fun _ _ h₁ => h₁.pair_recordIf _ _ _ _

theorem pair_createDistances (inputVertices outputVertices : Option Nat) :
    interfacePairing.Keeps Eq (createDistances inputVertices outputVertices)
      (createDistances inputVertices outputVertices) s t := by
  refine keeps_get_bind ?_
  have hcalculate : s.distances.calculate.map (·.unnumbered) =
      t.distances.calculate.map (·.unnumbered) := by
    rw [← DistanceArrays.calculate_unnumbered, h.distances, DistanceArrays.calculate_unnumbered]
  -- the arrays are measured alike, whatever their numbers are
  have hmeasured : interfacePairing.Keeps (fun a b => a.unnumbered = b.unnumbered)
      (Action.ofChecked s.distances.calculate) (Action.ofChecked t.distances.calculate) s t := by
    cases hs : s.distances.calculate with
    | error f =>
      cases ht : t.distances.calculate with
      | error g =>
        rw [hs, ht] at hcalculate
        exact keeps_throw h (congrArg (Failure.placeless ∘ Failure.fault)
          (Except.error.inj hcalculate))
      | ok b => rw [hs, ht] at hcalculate; cases hcalculate
    | ok a =>
      cases ht : t.distances.calculate with
      | error g => rw [hs, ht] at hcalculate; cases hcalculate
      | ok b =>
        rw [hs, ht] at hcalculate
        exact keeps_pure h (Except.ok.inj hcalculate)
  refine hmeasured.bind fun a b s₁ t₁ h₁ hab _ _ => ?_
  refine (h₁.pair_emit (Emit.pair_distanceArraysFor inputVertices outputVertices
    DistanceArrays.keys hab h₁.emitter)).bind fun r r' s₂ t₂ h₂ hr _ _ => ?_
  exact Action.Pairing.keeps_modify
    { h₂ with distances := hr, left := ⟨h₂.left.interface, h₂.left.builtins⟩,
              right := ⟨h₂.right.interface, h₂.right.builtins⟩ }
    { InterfaceStep.refl _ with } { InterfaceStep.refl _ with }

/-! ### Entry points -/

theorem pair_createIn (p : Param) (perPatch : Bool) :
    interfacePairing.Keeps Eq (createIn p perPatch) (createIn p perPatch) s t := by
  rw [createIn]
  split
  · exact h.pair_createInput _ _
  · exact keeps_pure h rfl

theorem pair_createOut (p : Param) (perPatch : Bool) :
    interfacePairing.Keeps Eq (createOut p perPatch) (createOut p perPatch) s t := by
  rw [createOut]
  split
  · exact h.pair_createOutput _ _
  · exact keeps_pure h rfl

theorem pair_createParam (p : Param) :
    interfacePairing.Keeps Eq (createParam p) (createParam p) s t := by
  rw [createParam_eq]
  exact pair_and (h.pair_createIn p false) fun _ _ h₁ => h₁.pair_createOut p false

theorem pair_createReturn (f : Function) (perPatch : Bool) :
    interfacePairing.Keeps Eq (createReturn f perPatch) (createReturn f perPatch) s t := by
  rw [createReturn]
  split
  · exact keeps_pure h rfl
  · exact h.pair_createOutput _ _

theorem pair_createPatchFunction (f : Function) :
    interfacePairing.Keeps Eq (createPatchFunction f) (createPatchFunction f) s t :=
  pair_and (pair_forAll (fun p _ _ h => h.pair_createIn p true) f.params h) fun _ _ h₁ =>
    h₁.pair_createReturn f true

theorem pair_recordPatch (e : EntryPoint) :
    interfacePairing.Keeps Eq (recordPatch e) (recordPatch e) s t := by
  rw [recordPatch.eq_def]
  split
  · exact keeps_pure h rfl
  · exact pair_forAll (fun p _ _ h => h.pair_recordDistances p true) _ h

theorem pair_createPatch (e : EntryPoint) :
    interfacePairing.Keeps Eq (createPatch e) (createPatch e) s t := by
  rw [createPatch.eq_def]
  split
  · exact keeps_pure h rfl
  · exact h.pair_createPatchFunction _

theorem pair_entryPoint (e : EntryPoint) :
    interfacePairing.Keeps Eq (entryPoint e) (entryPoint e) s t := by
  rw [entryPoint_eq]
  have hstage : interfacePairing.Keeps Eq
      (modify fun s => { s with stage := e.stage, outputPoints := e.outputPoints } : Lower Unit)
      (modify fun s => { s with stage := e.stage, outputPoints := e.outputPoints }) s t :=
    Action.Pairing.keeps_modify
      { h with stage := rfl, outputPoints := rfl, left := ⟨h.left.interface, h.left.builtins⟩,
               right := ⟨h.right.interface, h.right.builtins⟩ }
      { InterfaceStep.refl s with } { InterfaceStep.refl t with }
  refine hstage.bind fun _ _ _ _ h₀ _ _ _ => ?_
  refine (pair_forAll (fun p _ _ h => h.pair_recordDistances p false) _ h₀).bind
    fun recorded _ _ _ h₁ hrecorded _ _ => ?_
  refine (h₁.pair_recordPatch e).bind fun patchRecorded _ _ _ h₂ hpatchRecorded _ _ => ?_
  refine (h₂.pair_createDistances _ _).bind fun _ _ _ _ h₃ _ _ _ => ?_
  refine (pair_forAll (fun p _ _ h => h.pair_createParam p) _ h₃).bind
    fun params _ _ _ h₄ hparams _ _ => ?_
  refine (h₄.pair_createReturn _ _).bind fun result _ _ _ h₅ hresult _ _ => ?_
  refine (h₅.pair_createPatch e).bind fun patch _ _ _ h₆ hpatch _ _ => ?_
  refine h₆.pair_decorateLocations.bind fun located _ _ _ h₇ hlocated _ _ => ?_
  subst hrecorded hpatchRecorded hparams hresult hpatch hlocated
  exact keeps_pure h₇ rfl

/-- Every interface operation does the same to sessions with the same interface. -/
theorem pair_action (op : InterfaceOperation) :
    interfacePairing.Keeps Eq op.action op.action s t := by
  cases op with
  | input p perPatch => exact h.pair_createInput p perPatch
  | output p perPatch => exact h.pair_createOutput p perPatch
  | hullOutput p points invocation => exact h.pair_createHullOutput p points invocation
  | locations => exact h.pair_decorateLocations
  | entryPoint e => exact h.pair_entryPoint e

end Session.InterfaceAlike

end ShaderLowering
