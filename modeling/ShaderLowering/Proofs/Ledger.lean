import ShaderLowering.Proofs.Contract

/-!
# Ledgers of actions

A ledger is a contract that counts what has been reported in a state, and says which of the allowed
changes of a state are clean.  An action *accounts* for its outcome if it keeps the contract, counts
something where it fails with an error or owns up to a problem by its answer, and changes the state
cleanly where it answers without one.  Like the keeping of a contract this goes from the parts of a
sequence to the whole, wherever the sequence breaks off.
-/

namespace ShaderLowering.Action

variable {σ α β : Type}

/-- Two checks in a row, which succeed together exactly if both do. -/
def both (x y : Action σ Bool) : Action σ Bool := do
  let a ← x
  let b ← y
  return a && b

/-- A contract, what is counted in a state, and how a state may change where nothing is owed. -/
structure Ledger (σ : Type) extends Contract σ where
  count : σ → Nat
  le : ∀ {s s'}, step s s' → count s ≤ count s'
  clean : σ → σ → Prop
  clean_refl : ∀ s, clean s s
  clean_trans : ∀ {s s' s''}, clean s s' → clean s' s'' → clean s s''
  step_of_clean : ∀ {s s'}, clean s s' → step s s'

namespace Ledger

/-- The ledger for which every allowed change is clean. -/
def weak (L : Ledger σ) : Ledger σ where
  toContract := L.toContract
  count := L.count
  le := L.le
  clean := L.step
  clean_refl := L.refl
  clean_trans := L.trans
  step_of_clean := id

/-- The ledger of a part of the state, where something is fixed about the rest. -/
def on {τ : Type} (L : Ledger σ) (view : τ → σ) (fixed : τ → Prop) : Ledger τ where
  invariant t := L.invariant (view t) ∧ fixed t
  step t t' := L.step (view t) (view t')
  refl t := L.refl (view t)
  trans := L.trans
  count t := L.count (view t)
  le := L.le
  clean t t' := L.clean (view t) (view t')
  clean_refl t := L.clean_refl (view t)
  clean_trans := L.clean_trans
  step_of_clean := L.step_of_clean

/-- Run on a state, the action accounts for its outcome.  An answer may owe that something was
counted. -/
structure Accounts (L : Ledger σ) (owes : α → Prop) (x : Action σ α) (s : σ) : Prop
    extends L.toContract.Keeps x s where
  error : ∀ e, (x.runOn s).1 = .error (.error e) → L.count s < L.count (x.runOn s).2
  counted : ∀ a, (x.runOn s).1 = .ok a → owes a → L.count s < L.count (x.runOn s).2
  clean : ∀ a, (x.runOn s).1 = .ok a → ¬owes a → L.clean s (x.runOn s).2

/-- Every answer owes that something was counted, if `p` holds. -/
abbrev Owes (L : Ledger σ) (p : Prop) (x : Action σ α) (s : σ) : Prop :=
  L.Accounts (fun _ => p) x s

/-- No answer owes anything. -/
abbrev Settles (L : Ledger σ) (x : Action σ α) (s : σ) : Prop := L.Owes False x s

/-- The answer `false` owes that something was counted. -/
abbrev Judges (L : Ledger σ) (x : Action σ Bool) (s : σ) : Prop := L.Accounts (· = false) x s

variable {L : Ledger σ} {s : σ} {P P' : α → Prop} {Q : β → Prop} {p q : Prop}

theorem Accounts.congr {x : Action σ α} (hx : L.Accounts P x s) (h : ∀ a, P a ↔ P' a) :
    L.Accounts P' x s := (funext fun a => propext (h a) : P = P') ▸ hx

/-- Where every change is clean, an answer need not own up to what it owes. -/
theorem Accounts.weak_of_imp {x : Action σ α} (hx : L.Accounts P x s) (h : ∀ a, P' a → P a) :
    L.weak.Accounts P' x s where
  invariant := hx.invariant
  step := hx.step
  error := hx.error
  counted a ha hP := hx.counted a ha (h a hP)
  clean _ _ _ := hx.step

theorem Accounts.weak {x : Action σ α} (hx : L.Accounts P x s) : L.weak.Settles x s :=
  hx.weak_of_imp fun _ => False.elim

/-! ## Single steps -/

theorem accounts_pure (hs : L.invariant s) {a : α} (ha : ¬P a) : L.Accounts P (pure a) s where
  invariant := hs
  step := L.refl s
  error := nofun
  counted b hb hP := by
    cases hb
    exact absurd hP ha
  clean _ _ _ := L.clean_refl s

theorem settles_pure (hs : L.invariant s) (a : α) : L.Settles (pure a) s :=
  accounts_pure hs not_false

theorem judges_true (hs : L.invariant s) : L.Judges (pure true) s :=
  accounts_pure hs Bool.true_eq_false.mp

/-- A fault that changes nothing is no error. -/
theorem accounts_of_fault (hs : L.invariant s) {x : Action σ α} {f : Fault}
    (h : x.runOn s = (.error (.fault f), s)) : L.Accounts P x s := by
  refine ⟨⟨h ▸ hs, h ▸ L.refl s⟩, fun e he => ?_, fun b hb => ?_, fun b hb => ?_⟩
  · rw [h] at he
    cases he
  · rw [h] at hb
    cases hb
  · rw [h] at hb
    cases hb

theorem settles_ofChecked (hs : L.invariant s) (c : Checked α) :
    L.Settles (Action.ofChecked c : Action σ α) s := by
  cases c with
  | ok a => exact settles_pure hs a
  | error f => exact accounts_of_fault hs rfl

/-- A change of the state that is clean. -/
theorem settles_modify {f : σ → σ} (hs : L.invariant (f s)) (hclean : L.clean s (f s)) :
    L.Settles (modify f : Action σ Unit) s where
  invariant := hs
  step := L.step_of_clean hclean
  error := nofun
  counted _ _ := False.elim
  clean _ _ _ := hclean

/-- A change of the state that counts something. -/
theorem owes_modify {f : σ → σ} (hs : L.invariant (f s)) (hstep : L.step s (f s))
    (hlt : L.count s < L.count (f s)) : L.Owes True (modify f : Action σ Unit) s where
  invariant := hs
  step := hstep
  error := nofun
  counted _ _ _ := hlt
  clean _ _ h := absurd trivial h

/-! ## Sequences -/

/-- A sequence accounts for its outcome if its first part does, and so does the rest in every state
in which the first part answers and owes nothing.  Where it owes something, the rest has to keep the
contract and to hand the debt on. -/
theorem Accounts.bind_owing {x : Action σ α} {f : α → Action σ β} (hx : L.Accounts P x s)
    (hf : ∀ a s', L.invariant s' → x.runOn s = (.ok a, s') → ¬P a → L.Accounts Q (f a) s')
    (howing : ∀ a s', L.invariant s' → x.runOn s = (.ok a, s') → P a →
      L.toContract.Keeps (f a) s' ∧ ∀ b, ((f a).runOn s').1 = .ok b → Q b) :
    L.Accounts Q (x >>= f) s := by
  obtain ⟨⟨hinvariant, hstep⟩, herror, hcounted, hclean⟩ := hx
  rcases hr : x.runOn s with ⟨err | a, s'⟩ <;> rw [hr] at hinvariant hstep herror hcounted hclean
  · have hrun := Action.runOn_bind_of_error (f := f) hr
    refine ⟨⟨hrun ▸ hinvariant, hrun ▸ hstep⟩, fun e h => ?_, fun b h => ?_, fun b h => ?_⟩ <;>
      rw [hrun] at h
    · cases h
      exact hrun ▸ herror e rfl
    · cases h
    · cases h
  · have hrun := Action.runOn_bind_of_ok (f := f) hr
    by_cases hP : P a
    · obtain ⟨⟨hinvariant', hstep'⟩, hQ⟩ := howing a s' hinvariant hr hP
      have hlt := Nat.lt_of_lt_of_le (hcounted a rfl hP) (L.le hstep')
      refine ⟨⟨hrun ▸ hinvariant', hrun ▸ L.trans hstep hstep'⟩, fun _ _ => hrun ▸ hlt,
        fun _ _ _ => hrun ▸ hlt, fun b h hb => ?_⟩
      exact absurd (hQ b (hrun ▸ h)) hb
    · obtain ⟨⟨hinvariant', hstep'⟩, herror', hcounted', hclean'⟩ := hf a s' hinvariant hr hP
      refine ⟨⟨hrun ▸ hinvariant', hrun ▸ L.trans hstep hstep'⟩, fun e h => ?_, fun b h hb => ?_,
        fun b h hb => ?_⟩ <;> rw [hrun] at h ⊢
      · exact Nat.lt_of_le_of_lt (L.le hstep) (herror' e h)
      · exact Nat.lt_of_le_of_lt (L.le hstep) (hcounted' b h hb)
      · exact L.clean_trans (hclean a rfl hP) (hclean' b h hb)

theorem Accounts.bind {x : Action σ α} {f : α → Action σ β} (hx : L.Settles x s)
    (hf : ∀ a s', L.invariant s' → x.runOn s = (.ok a, s') → L.Accounts Q (f a) s') :
    L.Accounts Q (x >>= f) s :=
  hx.bind_owing (fun a s' hs' h _ => hf a s' hs' h) fun _ _ _ _ => False.elim

/-- Once something was counted, the rest may fail in any way, or give an answer that owes it. -/
theorem Accounts.bind_counted {x : Action σ α} {f : α → Action σ β} (hx : L.Owes True x s)
    (hf : ∀ a s', L.invariant s' →
      L.toContract.Keeps (f a) s' ∧ ∀ b, ((f a).runOn s').1 = .ok b → Q b) :
    L.Accounts Q (x >>= f) s :=
  hx.bind_owing (fun _ _ _ _ h => absurd trivial h) fun a s' hs' _ _ => hf a s' hs'

/-- A debt is paid by a rest that answers and makes the whole change clean. -/
theorem Accounts.bind_pays {x : Action σ α} {f : α → Action σ β} (hx : L.Owes True x s)
    (hf : ∀ a s', L.invariant s' → L.step s s' → L.count s < L.count s' →
      ∃ b s'', (f a).runOn s' = (.ok b, s'') ∧ L.invariant s'' ∧ L.clean s s'') :
    L.Settles (x >>= f) s := by
  obtain ⟨⟨hinvariant, hstep⟩, herror, hcounted, -⟩ := hx
  rcases hr : x.runOn s with ⟨err | a, s'⟩ <;> rw [hr] at hinvariant hstep herror hcounted
  · have hrun := Action.runOn_bind_of_error (f := f) hr
    refine ⟨⟨hrun ▸ hinvariant, hrun ▸ hstep⟩, fun e h => ?_, fun _ _ => False.elim, fun b h => ?_⟩
    · rw [hrun] at h
      cases h
      exact hrun ▸ herror e rfl
    · rw [hrun] at h
      cases h
  · obtain ⟨b, s'', hrest, hinvariant', hclean⟩ := hf a s' hinvariant hstep (hcounted a rfl trivial)
    have hrun := (Action.runOn_bind_of_ok hr).trans hrest
    refine ⟨⟨hrun ▸ hinvariant', hrun ▸ L.step_of_clean hclean⟩, fun e h => ?_,
      fun _ _ => False.elim, fun _ _ _ => hrun ▸ hclean⟩
    rw [hrun] at h
    cases h

/-- A sequence owes what either part owes. -/
theorem Accounts.bind_owes {x : Action σ α} {f : α → Action σ β} (hx : L.Owes p x s)
    (hf : ∀ a s', L.invariant s' → x.runOn s = (.ok a, s') → L.Owes q (f a) s') :
    L.Owes (p ∨ q) (x >>= f) s :=
  hx.bind_owing (fun a s' hs' h hp => (hf a s' hs' h).congr fun _ => (or_iff_right hp).symm)
    fun a s' hs' h hp => ⟨(hf a s' hs' h).toKeeps, fun _ _ => .inl hp⟩

/-- What comes after without owing anything leaves the debt as it is. -/
theorem Accounts.bind_settles {x : Action σ α} {f : α → Action σ β} (hx : L.Owes p x s)
    (hf : ∀ a s', L.invariant s' → x.runOn s = (.ok a, s') → L.Settles (f a) s') :
    L.Owes p (x >>= f) s :=
  (hx.bind_owes hf).congr fun _ => or_iff_left not_false

theorem accounts_get_bind {f : σ → Action σ β} (h : L.Accounts Q (f s) s) :
    L.Accounts Q (get >>= f) s := by
  have hrun : (get >>= f).runOn s = (f s).runOn s := Action.runOn_bind_of_ok (Action.runOn_get s)
  exact ⟨⟨hrun ▸ h.invariant, hrun ▸ h.step⟩, hrun ▸ h.error, hrun ▸ h.counted, hrun ▸ h.clean⟩

/-- Of two checks in a row the second one is made whatever the first one finds. -/
theorem Accounts.both {x y : Action σ Bool} (hx : L.Judges x s)
    (hy : ∀ a s', L.invariant s' → x.runOn s = (.ok a, s') → L.Judges y s') :
    L.Judges (both x y) s := by
  refine hx.bind_owing (fun a s' hs' hr ha => ?_) fun a s' hs' hr ha => ⟨?_, fun b h => ?_⟩
  · obtain rfl : a = true := eq_true_of_ne_false ha
    refine (hy true s' hs' hr).bind_owing (fun b s'' hs'' _ hb => accounts_pure hs'' hb)
      fun b s'' hs'' _ hb => ⟨Contract.keeps_pure hs'' _, fun c h => ?_⟩
    cases h
    exact hb
  · exact (hy a s' hs' hr).toKeeps.bind fun _ _ hs'' _ _ => Contract.keeps_pure hs'' _
  · subst ha
    rcases hr' : y.runOn s' with ⟨err | c, s''⟩
    · rw [Action.runOn_bind_of_error hr'] at h
      cases h
    · rw [Action.runOn_bind_of_ok hr'] at h
      cases h
      rfl

/-- An action whose answer does not matter. -/
theorem Accounts.succeeds {x : Action σ α} (hx : L.Settles x s) :
    L.Judges (do let _ ← x; return true) s :=
  hx.bind fun _ _ hs' _ => judges_true hs'

theorem settles_mapM {f : α → Action σ β} (l : List α)
    (hf : ∀ a s, L.invariant s → L.Settles (f a) s) (hs : L.invariant s) :
    L.Settles (l.mapM f) s := by
  induction l generalizing s with
  | nil => exact settles_pure hs []
  | cons a rest ih =>
    rw [List.mapM_cons]
    exact (hf a s hs).bind fun _ _ hs' _ => (ih hs').bind fun _ _ hs'' _ => settles_pure hs'' _

end Ledger

end ShaderLowering.Action
