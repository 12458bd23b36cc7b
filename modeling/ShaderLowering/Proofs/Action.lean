import ShaderLowering.Failure

/-!
# Running actions

What each way of building an action does to the state it runs on.  The state survives a failure,
so every lemma speaks of the answer and of the state after it.
-/

namespace ShaderLowering.Action

variable {σ α β : Type} (s : σ)

@[simp] theorem runOn_pure (a : α) : (pure a : Action σ α).runOn s = (.ok a, s) := rfl

@[simp] theorem runOn_throw (f : Failure) :
    (throw f : Action σ α).runOn s = (.error f, s) := rfl

@[simp] theorem runOn_get : (get : Action σ σ).runOn s = (.ok s, s) := rfl

@[simp] theorem runOn_modify (f : σ → σ) :
    (modify f : Action σ Unit).runOn s = (.ok (), f s) := rfl

@[simp] theorem runOn_modifyGet (f : σ → α × σ) :
    (modifyGet f : Action σ α).runOn s = (.ok (f s).1, (f s).2) := rfl

@[simp] theorem runOn_ofChecked_ok (a : α) :
    (Action.ofChecked (.ok a) : Action σ α).runOn s = (.ok a, s) := rfl

@[simp] theorem runOn_ofChecked_error (f : Fault) :
    (Action.ofChecked (.error f) : Action σ α).runOn s = (.error (.fault f), s) := rfl

variable {s}

/-- After an answer the rest goes on from the state that the first part left. -/
theorem runOn_bind_of_ok {x : Action σ α} {f : α → Action σ β} {a : α} {s' : σ}
    (h : x.runOn s = (.ok a, s')) : (x >>= f).runOn s = (f a).runOn s' := by
  show (x >>= f) s = (f a) s'
  change x s = _ at h
  simp only [bind, ExceptT.bind, ExceptT.mk, StateT.bind, h]
  rfl

/-- After a failure the rest is not run. -/
theorem runOn_bind_of_error {x : Action σ α} {f : α → Action σ β} {err : Failure} {s' : σ}
    (h : x.runOn s = (.error err, s')) : (x >>= f).runOn s = (.error err, s') := by
  show (x >>= f) s = _
  change x s = _ at h
  simp only [bind, ExceptT.bind, ExceptT.mk, StateT.bind, h]
  rfl

/-- A sequence answers exactly when its first part does and the rest does from the state left. -/
theorem runOn_bind_eq_ok_iff {x : Action σ α} {f : α → Action σ β} {b : β} {s' : σ} :
    (x >>= f).runOn s = (.ok b, s') ↔
      ∃ a s₁, x.runOn s = (.ok a, s₁) ∧ (f a).runOn s₁ = (.ok b, s') := by
  constructor
  · intro h
    rcases hx : x.runOn s with ⟨err | a, s₁⟩
    · rw [runOn_bind_of_error hx] at h
      cases h
    · rw [runOn_bind_of_ok hx] at h
      exact ⟨a, s₁, rfl, h⟩
  · rintro ⟨a, s₁, hx, h⟩
    rw [runOn_bind_of_ok hx]
    exact h

/-- A checked value answers with itself. -/
theorem runOn_ofChecked_eq_ok_iff {c : Checked α} {a : α} {s' : σ} :
    (Action.ofChecked c).runOn s = (.ok a, s') ↔ c = .ok a ∧ s' = s := by
  cases c with
  | ok b => simp [eq_comm]
  | error f => simp

/-- A loop whose body has a known effect wherever a condition holds that no round takes away. -/
theorem runOn_forM {f : α → Action σ Unit} {g : σ → α → σ} {P : α → σ → Prop}
    (hrun : ∀ a s, P a s → (f a).runOn s = (.ok (), g s a))
    (hkeep : ∀ a b s, P a s → P b s → P b (g s a)) :
    (l : List α) → {s : σ} → (∀ a ∈ l, P a s) → (l.forM f).runOn s = (.ok (), l.foldl g s)
  | [], _, _ => rfl
  | a :: rest, s, h => by
    have ha := h a List.mem_cons_self
    rw [List.foldl_cons]
    exact (runOn_bind_of_ok (hrun a s ha)).trans (runOn_forM hrun hkeep rest fun b hb =>
      hkeep a b s ha (h b (List.mem_cons_of_mem a hb)))

/-- Two checks in a row succeed together exactly when both do. -/
theorem runOn_and_eq_ok_iff {x y : Action σ Bool} {s' : σ} :
    (do let a ← x; let b ← y; return a && b : Action σ Bool).runOn s = (.ok true, s') ↔
      ∃ s₁, x.runOn s = (.ok true, s₁) ∧ y.runOn s₁ = (.ok true, s') := by
  constructor
  · intro h
    obtain ⟨a, s₁, hx, h⟩ := runOn_bind_eq_ok_iff.1 h
    obtain ⟨b, s₂, hy, h⟩ := runOn_bind_eq_ok_iff.1 h
    simp only [runOn_pure, Prod.mk.injEq, Except.ok.injEq, Bool.and_eq_true] at h
    obtain ⟨⟨rfl, rfl⟩, rfl⟩ := h
    exact ⟨s₁, hx, hy⟩
  · rintro ⟨s₁, hx, hy⟩
    rw [runOn_bind_of_ok hx, runOn_bind_of_ok hy]
    rfl

/-! ## Actions that always answer -/

/-- The action answers, wherever it is run. -/
def Total (x : Action σ α) : Prop := ∀ s, ∃ a s', x.runOn s = (.ok a, s')

theorem total_pure (a : α) : Total (pure a : Action σ α) := fun s => ⟨a, s, rfl⟩

theorem total_get : Total (get : Action σ σ) := fun s => ⟨s, s, rfl⟩

theorem total_modify (f : σ → σ) : Total (modify f : Action σ Unit) := fun s => ⟨(), f s, rfl⟩

theorem total_modifyGet (f : σ → α × σ) : Total (modifyGet f : Action σ α) := fun s =>
  ⟨(f s).1, (f s).2, rfl⟩

theorem Total.bind {x : Action σ α} {f : α → Action σ β} (hx : Total x) (hf : ∀ a, Total (f a)) :
    Total (x >>= f) := by
  intro s
  obtain ⟨a, s₁, hrun⟩ := hx s
  obtain ⟨b, s₂, hrun'⟩ := hf a s₁
  exact ⟨b, s₂, (runOn_bind_of_ok hrun).trans hrun'⟩

theorem total_mapM {f : α → Action σ β} (hf : ∀ a, Total (f a)) (l : List α) :
    Total (l.mapM f) := by
  induction l with
  | nil => exact total_pure []
  | cons a rest ih =>
    rw [List.mapM_cons]
    exact (hf a).bind fun _ => ih.bind fun _ => total_pure _

end ShaderLowering.Action
