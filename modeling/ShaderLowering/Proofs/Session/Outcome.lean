import ShaderLowering.Proofs.Interface.EntryPoint
import ShaderLowering.Proofs.Interface.Renumbering
import ShaderLowering.Proofs.Session.Interface
import ShaderLowering.Proofs.Session.Locations

/-!
# What an action comes to

Whether an action answers, or with which error it fails, is often settled by a value that is
computed without its state.  `Action.ComesTo` compares the two: related answers, or the same error
but for the place that it names.  Like the actions themselves it is composed along `>>=`.

Types, the variables of leaves and the plans of locations are compared with what is written for
them.
-/

namespace ShaderLowering

open Source (Field)
open Spirv (VariableId)

theorem Written.Agrees.imp {α β : Type} {R S : α → β → Prop} {x : Except Failure α} {d : Written β}
    (h : Written.Agrees R x d) (himp : ∀ a b, R a b → S a b) : Written.Agrees S x d := by
  cases x <;> cases d
  · exact h
  · exact h
  · exact h
  · exact himp _ _ h

namespace Action

variable {σ α β γ δ : Type} {s : σ}

/-- Run on a state, the action answers where there is a written value, its answer and the state that
it leaves related to it; and it fails where there is none, for the same reason. -/
def ComesTo (x : Action σ α) (s : σ) (d : Written β) (R : σ → α → β → Prop) : Prop :=
  Written.Agrees (R (x.runOn s).2) (x.runOn s).1 d

theorem ComesTo.imp {x : Action σ α} {d : Written β} {R S : σ → α → β → Prop}
    (hx : ComesTo x s d R) (himp : ∀ s' a b, R s' a b → S s' a b) : ComesTo x s d S :=
  Written.Agrees.imp hx (himp _)

/-- What is known of one answer can be said with another written value. -/
theorem ComesTo.imp_ok {x : Action σ α} {b : β} {c : γ} {R : σ → α → β → Prop}
    {S : σ → α → γ → Prop} (hx : ComesTo x s (.ok b) R) (himp : ∀ s' a, R s' a b → S s' a c) :
    ComesTo x s (.ok c) S := by
  rcases hrun : x.runOn s with ⟨failure | a, s'⟩ <;> rw [ComesTo, hrun] at hx ⊢
  · exact hx.elim
  · exact himp s' a hx

theorem comesTo_of_runOn {x : Action σ α} {s' : σ} {a : α} {b : β} {R : σ → α → β → Prop}
    (h : x.runOn s = (.ok a, s')) (hR : R s' a b) : ComesTo x s (.ok b) R := by
  rw [ComesTo, h]
  exact hR

theorem comesTo_pure {a : α} {b : β} {R : σ → α → β → Prop} (hR : R s a b) :
    ComesTo (pure a) s (.ok b) R := hR

theorem comesTo_modify (f : σ → σ) :
    ComesTo (modify f : Action σ Unit) s (.ok ()) fun s' _ _ => s' = f s := rfl

theorem comesTo_ofChecked (c : Checked α) :
    ComesTo (Action.ofChecked c) s (Written.ofChecked c) fun s' a b => s' = s ∧ a = b := by
  cases c with
  | ok a => exact ⟨rfl, rfl⟩
  | error f => exact rfl

theorem ComesTo.bind_of_ok {x : Action σ α} {f : α → Action σ γ} {d : Written β}
    {g : β → Written δ} {R : σ → α → β → Prop} {S : σ → γ → δ → Prop} (hx : ComesTo x s d R)
    (hf : ∀ s' a b, d = .ok b → R s' a b → ComesTo (f a) s' (g b) S) :
    ComesTo (x >>= f) s (d >>= g) S := by
  rcases hrun : x.runOn s with ⟨failure | a, s'⟩ <;> rw [ComesTo, hrun] at hx
  · rcases d with failure' | b
    · rw [ComesTo, runOn_bind_of_error hrun]
      exact hx
    · exact hx.elim
  · rcases d with failure' | b
    · exact hx.elim
    · rw [ComesTo, runOn_bind_of_ok hrun]
      exact hf s' a b rfl hx

theorem ComesTo.bind {x : Action σ α} {f : α → Action σ γ} {d : Written β} {g : β → Written δ}
    {R : σ → α → β → Prop} {S : σ → γ → δ → Prop} (hx : ComesTo x s d R)
    (hf : ∀ s' a b, R s' a b → ComesTo (f a) s' (g b) S) : ComesTo (x >>= f) s (d >>= g) S :=
  hx.bind_of_ok fun s' a b _ => hf s' a b

/-- A first part with a known answer. -/
theorem ComesTo.step {x : Action σ α} {f : α → Action σ γ} {b : β} {d : Written δ}
    {R : σ → α → β → Prop} {S : σ → γ → δ → Prop} (hx : ComesTo x s (.ok b) R)
    (hf : ∀ s' a, R s' a b → ComesTo (f a) s' d S) : ComesTo (x >>= f) s d S :=
  hx.bind_of_ok (g := fun _ => d) fun s' a b' hb hR => by
    cases hb
    exact hf s' a hR

/-- A last part that always answers. -/
theorem ComesTo.bind_total {x : Action σ α} {f : α → Action σ γ} {d : Written β}
    {R : σ → α → β → Prop} {S : σ → γ → β → Prop} (hx : ComesTo x s d R)
    (hf : ∀ s' a b, R s' a b → ComesTo (f a) s' (.ok b) S) : ComesTo (x >>= f) s d S := by
  rw [← bind_pure d]
  exact hx.bind hf

theorem comesTo_get_bind {f : σ → Action σ α} {d : Written β} {R : σ → α → β → Prop}
    (h : ComesTo (f s) s d R) : ComesTo (get >>= f) s d R := by
  rw [ComesTo, runOn_bind_of_ok (runOn_get s)]
  exact h

/-- An action that keeps a contract leaves a state of the contract. -/
theorem ComesTo.and_keeps {C : Contract σ} {x : Action σ α} {d : Written β}
    {R : σ → α → β → Prop} (hx : ComesTo x s d R) (hkeeps : C.Keeps x s) :
    ComesTo x s d fun s' a b => R s' a b ∧ C.invariant s' ∧ C.step s s' :=
  Written.Agrees.imp hx fun _ _ hR => ⟨hR, hkeeps.invariant, hkeeps.step⟩

/-- The fault is the same on both sides. -/
theorem ComesTo.fault_iff {x : Action σ α} {d : Written β} {R : σ → α → β → Prop}
    (hx : ComesTo x s d R) (f : Fault) :
    (x.runOn s).1 = .error (.fault f) ↔ d = .error (.fault f) := by
  rw [ComesTo] at hx
  cases hrun : (x.runOn s).1 with
  | error failure =>
    cases d with
    | error failure' =>
      rw [hrun] at hx
      have hplaceless : failure.placeless = failure' := hx
      subst hplaceless
      rw [Except.error.injEq, Except.error.injEq]
      rcases failure with (_ | _ | _ | _) | _ <;> simp [Failure.placeless]
    | ok b =>
      rw [hrun] at hx
      exact hx.elim
  | ok a =>
    cases d with
    | error failure' =>
      rw [hrun] at hx
      exact hx.elim
    | ok b => simp

theorem ComesTo.exists_ok_iff {x : Action σ α} {d : Written β} {R : σ → α → β → Prop}
    (hx : ComesTo x s d R) : (∃ a, (x.runOn s).1 = .ok a) ↔ ∃ b, d = .ok b := by
  rw [ComesTo] at hx
  cases hrun : (x.runOn s).1 <;> cases d <;> rw [hrun] at hx
  · simp
  · exact hx.elim
  · exact hx.elim
  · simp

end Action

open ShaderLowering.Action (ComesTo comesTo_pure comesTo_of_runOn comesTo_ofChecked
  comesTo_get_bind)

/-! ## Emitted types and variables -/

namespace Emit

variable {α β : Type} {e : Emitter} {decl : Field} {c : InterfaceContext}

theorem Realizes.comesTo {x : Emit α} {d : Written β} {R : Emitter → α → β → Prop}
    (hx : Realizes x e d R) :
    ComesTo x e d fun e' a b => e'.Sound ∧ e.Grows e' ∧ R e' a b :=
  Written.Agrees.imp hx.agrees fun _ _ hR => ⟨hx.sound, hx.grows, hR⟩

theorem comesTo_moveTo (he : e.Sound) (position : Source.Position) :
    ComesTo (moveTo position) e (.ok ()) fun e' _ _ => e'.Sound ∧ e'.options = e.options :=
  comesTo_of_runOn rfl ⟨⟨he.wellFormed, he.known⟩, rfl⟩

theorem comesTo_interfaceType (he : e.Sound) (ty : Source.Ty) (vertices : Option Nat) :
    ComesTo (interfaceType ty vertices) e (Written.ofTy e.options ty .unlaid {} none)
      fun e' _ _ => e'.Sound ∧ e'.options = e.options := by
  have htype : Realizes (type ty .unlaid) e _ IsTree := realizes_ofTy ty .unlaid {} none he
  refine htype.comesTo.bind_total fun e₁ id tree ⟨he₁, hgrows, htree⟩ => ?_
  exact (realizes_overVertices he₁ htree vertices).comesTo.imp_ok fun e₂ _ ⟨he₂, hgrows', _⟩ =>
    ⟨he₂, hgrows'.options.trans hgrows.options⟩

theorem comesTo_addVariable (e : Emitter) (v : Spirv.Variable) (b : β) :
    ComesTo (addVariable v) e (.ok b) fun _ _ _ => True :=
  comesTo_of_runOn rfl trivial

/-- A builtin gets its variable if its type can be written. -/
theorem comesTo_builtinVariable (he : e.Sound) (decl : Field) (b : Spirv.Builtin)
    (c : InterfaceContext) :
    ComesTo (builtinVariable decl b c) e
      (Written.ofTy e.options (builtinType b decl.ty) .unlaid {} none) fun _ _ _ => True := by
  rw [builtinVariable]
  refine (comesTo_moveTo he decl.position).step fun e₁ _ ⟨he₁, hoptions⟩ => ?_
  rw [← hoptions]
  refine (comesTo_interfaceType he₁ _ c.vertices).bind_total fun e₂ ty tree _ => ?_
  exact comesTo_addVariable e₂ _ tree

/-- A leaf at a location gets its variable if its type can be written and its locations can be
counted. -/
theorem comesTo_locatedVariable (he : e.Sound) (decl : Field) (semantic : Semantic)
    (c : InterfaceContext) :
    ComesTo (locatedVariable decl semantic c) e
      (do
        let _ ← Written.ofTy e.options decl.ty.onInterface .unlaid {} none
        Written.ofChecked (Layout.locations e.options decl.ty))
      fun _ r count => r.2 = count := by
  rw [locatedVariable_eq]
  refine comesTo_get_bind ((comesTo_moveTo he decl.position).step fun e₁ _ ⟨he₁, hoptions⟩ => ?_)
  rw [← hoptions]
  refine (comesTo_interfaceType he₁ _ c.vertices).bind fun e₂ ty _ ⟨he₂, _⟩ => ?_
  refine (realizes_requireSampling he₂).comesTo.step fun e₃ _ ⟨he₃, _, _⟩ => ?_
  refine (realizes_declareNarrow he₃ _ _).comesTo.step fun e₄ _ _ => ?_
  refine (comesTo_ofChecked _).bind_total fun e₅ count count' ⟨_, hcount⟩ => ?_
  refine (comesTo_addVariable e₅ _ ()).step fun e₆ var _ => ?_
  exact comesTo_pure hcount

end Emit

namespace Lower

variable {s : Session} {α β : Type}

/-- An action of the emitter comes to the same within a session. -/
theorem comesTo_emit {x : Emit α} {d : Written β} {R : Emitter → α → β → Prop}
    (hx : ComesTo x s.emitter d R) :
    ComesTo (emit x) s d fun s' a b =>
      s' = { s with emitter := s'.emitter } ∧ R s'.emitter a b := by
  rw [ComesTo, runOn_emit]
  exact Written.Agrees.imp hx fun _ _ hR => ⟨rfl, hR⟩

theorem comesTo_report (f : Finding) (position : Source.Position) :
    ComesTo (report f position) s (.ok ()) fun s' _ _ =>
      s' = { s with emitter := s'.emitter } :=
  comesTo_of_runOn (runOn_emit _ s) rfl

end Lower

/-! ## Plans -/

theorem map_fst_locatedVariables (direction : Direction) (vs : List InterfaceVariable) :
    (locatedVariables direction vs).map (·.1) =
      vs.filter fun v => v.direction = direction && v.isLocated := by
  conv => rhs; rw [← List.zipIdx_map_fst 0 vs]
  rw [List.filter_map]
  rfl

namespace LocationPlan

variable {order : LocationOrder} {direction : Direction} {vs ws : List InterfaceVariable}

/-- The variables of one direction that are bound to locations, without their numbers. -/
theorem map_renumbered_locatedVariables_zero (direction : Direction) (vs : List InterfaceVariable) :
    (locatedVariables direction vs).map (ShaderLowering.renumbered fun _ => 0) =
      (((vs.filter (·.isLocated)).map (·.unnumbered)).filter (·.direction = direction)).map
        (·, 0) := by
  have hrenumbered : (locatedVariables direction vs).map (ShaderLowering.renumbered fun _ => 0) =
      ((locatedVariables direction vs).map (·.1)).map fun v => (v.unnumbered, 0) := by
    rw [List.map_map]
    rfl
  rw [hrenumbered, map_fst_locatedVariables, ← List.filter_filter, List.filter_map, List.map_map]
  rfl

/-- Without numbers a plan depends on the variables at locations only, and not on their numbers in
the module. -/
theorem map_renumbered_of (h : (vs.filter (·.isLocated)).map (·.unnumbered) =
      (ws.filter (·.isLocated)).map (·.unnumbered)) :
    (LocationPlan.of order direction vs).map (·.renumbered fun _ => 0) =
      (LocationPlan.of order direction ws).map (·.renumbered fun _ => 0) := by
  have hforLocated : ∀ vs : List InterfaceVariable,
      (LocationPlan.of order direction vs).map (·.renumbered fun _ => 0) =
        forLocated order ((locatedVariables direction vs).map
          (ShaderLowering.renumbered fun _ => 0)) :=
    fun vs => (forLocated_renumbered _ (locatedVariables direction vs)).symm
  rw [hforLocated, hforLocated, map_renumbered_locatedVariables_zero,
    map_renumbered_locatedVariables_zero, h]

end LocationPlan

/-- Whether there are plans for both directions. -/
def Written.plans (order : LocationOrder) (vs : List InterfaceVariable) : Written Unit := do
  let _ ← Written.ofChecked (LocationPlan.of order .input vs)
  let _ ← Written.ofChecked (LocationPlan.of order .output vs)
  return ()

/-- Whether a computation breaks off does not depend on what is forgotten of its answer. -/
theorem Written.ofChecked_bind_congr {α : Type} {f : α → α} {c c' : Checked α}
    (h : c.map f = c'.map f) (x : Written Unit) :
    (do let _ ← Written.ofChecked c; x) = (do let _ ← Written.ofChecked c'; x) := by
  cases c <;> cases c'
  · cases h
    rfl
  · cases h
  · cases h
  · rfl

theorem Written.plans_congr {order : LocationOrder} {vs ws : List InterfaceVariable}
    (h : (vs.filter (·.isLocated)).map (·.unnumbered) =
      (ws.filter (·.isLocated)).map (·.unnumbered)) :
    Written.plans order vs = Written.plans order ws := by
  rw [plans, plans, ofChecked_bind_congr (LocationPlan.map_renumbered_of h)]
  cases Written.ofChecked (LocationPlan.of order .input ws) with
  | error failure => rfl
  | ok plan => exact ofChecked_bind_congr (LocationPlan.map_renumbered_of h) _

/-- Locations are given out if there are plans for them. -/
theorem Lower.comesTo_decorateLocations {s : Session} (hs : s.Sound) :
    ComesTo decorateLocations s (Written.plans s.emitter.options.order s.interface)
      fun _ _ _ => True := by
  by_cases hfault : (decorateLocations.runOn s).1 = .error (.fault .overflow)
  · -- there are no plans for both directions, since with them there is an answer
    have hplans : Written.plans s.emitter.options.order s.interface =
        .error (.fault .overflow) := by
      rw [Written.plans]
      cases hinputs : LocationPlan.of s.emitter.options.order .input s.interface with
      | error f =>
        cases LocationPlan.eq_overflow_of hinputs
        rfl
      | ok inputs =>
        cases houtputs : LocationPlan.of s.emitter.options.order .output s.interface with
        | error f =>
          cases LocationPlan.eq_overflow_of houtputs
          rfl
        | ok outputs =>
          obtain ⟨ps, hps⟩ := LocationPlan.serves_of hinputs
          obtain ⟨qs, hqs⟩ := LocationPlan.serves_of houtputs
          rw [runOn_decorateLocations_of_plans hs hinputs houtputs hps hqs] at hfault
          cases hfault
    rw [ComesTo, hplans, hfault]
    exact rfl
  · obtain ⟨inputs, outputs, hinputs, houtputs⟩ := exists_plans hs hfault
    obtain ⟨_, _, _, _, -, -, hrun⟩ := runOn_decorateLocations hs hfault
    rw [Written.plans, hinputs, houtputs]
    exact comesTo_of_runOn hrun trivial

end ShaderLowering
