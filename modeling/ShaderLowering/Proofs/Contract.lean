import ShaderLowering.Proofs.Action

/-!
# Contracts of actions

An action leaves a state behind whether it answers or fails.  A contract says what is to hold of
every such state, and how it may differ from the state before.  Since the difference is a preorder,
a contract is kept by a sequence of actions as soon as every part keeps it, wherever the sequence
breaks off.
-/

namespace ShaderLowering.Action

variable {σ α β : Type}

/-- What is demanded of the states that actions leave behind. -/
structure Contract (σ : Type) where
  /-- What holds of every state. -/
  invariant : σ → Prop
  /-- How a later state may differ from an earlier one. -/
  step : σ → σ → Prop
  refl : ∀ s, step s s
  trans : ∀ {s s' s''}, step s s' → step s' s'' → step s s''

/-- Run on a state, the action keeps the contract. -/
structure Contract.Keeps (C : Contract σ) (x : Action σ α) (s : σ) : Prop where
  invariant : C.invariant (x.runOn s).2
  step : C.step s (x.runOn s).2

namespace Contract

variable {C : Contract σ} {s : σ}

theorem Keeps.of_runOn {x : Action σ α} {r : Except Failure α} {s' : σ} (h : x.runOn s = (r, s'))
    (hinvariant : C.invariant s') (hstep : C.step s s') : C.Keeps x s :=
  ⟨h ▸ hinvariant, h ▸ hstep⟩

/-- What is known of the state that a run left. -/
theorem Keeps.of_run {x : Action σ α} {r : Except Failure α} {s' : σ} (hx : C.Keeps x s)
    (h : x.runOn s = (r, s')) : C.invariant s' ∧ C.step s s' := by
  obtain ⟨hinvariant, hstep⟩ := hx
  rw [h] at hinvariant hstep
  exact ⟨hinvariant, hstep⟩

theorem keeps_pure (hs : C.invariant s) (a : α) : C.Keeps (pure a) s := ⟨hs, C.refl s⟩

theorem keeps_get (hs : C.invariant s) : C.Keeps get s := ⟨hs, C.refl s⟩

theorem keeps_throw (hs : C.invariant s) (f : Failure) : C.Keeps (throw f : Action σ α) s :=
  ⟨hs, C.refl s⟩

theorem keeps_ofChecked (hs : C.invariant s) (c : Checked α) :
    C.Keeps (Action.ofChecked c : Action σ α) s := by
  cases c with
  | ok a => exact keeps_pure hs a
  | error f => exact keeps_throw hs (.fault f)

/-- A sequence keeps a contract if its first part does, and the rest does from every state that the
first part answers in. -/
theorem Keeps.bind {x : Action σ α} {f : α → Action σ β} (hx : C.Keeps x s)
    (hf : ∀ a s', C.invariant s' → C.step s s' → x.runOn s = (.ok a, s') → C.Keeps (f a) s') :
    C.Keeps (x >>= f) s := by
  obtain ⟨hinvariant, hstep⟩ := hx
  rcases hr : x.runOn s with ⟨err | a, s'⟩ <;> rw [hr] at hinvariant hstep
  · exact .of_runOn (runOn_bind_of_error hr) hinvariant hstep
  · obtain ⟨hinvariant', hstep'⟩ := hf a s' hinvariant hstep hr
    rw [← runOn_bind_of_ok hr] at hinvariant' hstep'
    exact ⟨hinvariant', C.trans hstep hstep'⟩

theorem keeps_get_bind {f : σ → Action σ β} (h : C.Keeps (f s) s) : C.Keeps (get >>= f) s := by
  have hrun : (get >>= f).runOn s = (f s).runOn s := runOn_bind_of_ok (runOn_get s)
  exact ⟨hrun ▸ h.invariant, hrun ▸ h.step⟩

/-- Two checks in a row. -/
theorem keeps_and {x y : Action σ Bool} (hx : C.Keeps x s)
    (hy : ∀ s', C.invariant s' → C.Keeps y s') :
    C.Keeps (do let a ← x; let b ← y; return a && b) s :=
  hx.bind fun _ s₁ hs₁ _ _ => (hy s₁ hs₁).bind fun _ _ hs₂ _ _ => keeps_pure hs₂ _

theorem keeps_mapM {f : α → Action σ β} (l : List α)
    (hf : ∀ a s, C.invariant s → C.Keeps (f a) s) (hs : C.invariant s) : C.Keeps (l.mapM f) s := by
  induction l generalizing s with
  | nil => exact keeps_pure hs []
  | cons a rest ih =>
    rw [List.mapM_cons]
    exact (hf a s hs).bind fun _ _ hs' _ _ => (ih hs').bind fun _ _ hs'' _ _ => keeps_pure hs'' _

theorem keeps_forM {f : α → Action σ Unit} (l : List α)
    (hf : ∀ a s, C.invariant s → C.Keeps (f a) s) (hs : C.invariant s) : C.Keeps (l.forM f) s := by
  induction l generalizing s with
  | nil => exact keeps_pure hs ()
  | cons a rest ih => exact (hf a s hs).bind fun _ s' hs' _ _ => ih hs'

end Contract

end ShaderLowering.Action
