import ShaderLowering.Proofs.Emission.Interning
import ShaderLowering.Proofs.Emission.Totality
import ShaderLowering.Proofs.Pairing
import ShaderLowering.Proofs.Session.Growth

/-!
# Requests that cannot be told apart

Two requests for types are interchangeable in a state if they answer with the same number or fail
alike, be it that each of them is made in that state or one after the other.  In every state that a
client can bring an emitter into, this is so exactly if the same type is written for them
(`Emit.interchangeable_iff`): one after the other they find one entry, since the table holds it
once, and each on its own they enter the type in the same order.
-/

namespace ShaderLowering

open Source (Ty)
open Spirv (TypeTree TypeId)

/-! ## Attained emitters hold nothing twice -/

/-- What is canonical depends on the tables of types and constants alone. -/
theorem Spirv.Module.Canonical.of_bare {m m' : Spirv.Module} (hm : m.Canonical)
    (h : m'.bare = m.bare) : m'.Canonical := by
  have htypes : m'.bare.types = m.bare.types := congrArg Spirv.Module.types h
  have hconstants : m'.bare.constants = m.bare.constants := congrArg Spirv.Module.constants h
  change m'.types = m.types at htypes
  change m'.constants = m.constants at hconstants
  exact ⟨htypes ▸ hm.types, hconstants ▸ hm.constants, by rw [htypes, hconstants]; exact hm.words⟩

namespace Session

variable {stage : Stage} {options : Options} {s s' : Session}

/-- A step enters types by emission alone. -/
theorem Step.canonical {standard packing : Prop} (h : s.Step standard packing s')
    (hs : s.emitter.target.Canonical) : s'.emitter.target.Canonical := by
  cases h with
  | emission h => exact h.target.canonical hs
  | note emitter => exact emitter ▸ hs
  | recorded | repacked | listed | place => exact hs
  | internal | packed | builtin | located | resource | pushConstant => exact hs.of_bare rfl
  | locate | bind => exact hs.of_bare rfl

theorem Reachable.canonical (h : Session.Reachable stage options s) :
    s.emitter.target.Canonical := by
  obtain ⟨ops, rfl⟩ := h.exists_run
  have hstep : ∀ s s' : Session, s.Step False True s' → s.emitter.target.Canonical →
      s'.emitter.target.Canonical := fun _ _ => Step.canonical
  exact run_of_step hstep ops (fun _ _ => False.elim) (Emitter.canonical_start options)

end Session

namespace Emitter

variable {options : Options} {e : Emitter}

theorem Reachable.canonical (h : Emitter.Reachable options e) : e.target.Canonical := by
  induction h with
  | start => exact canonical_start options
  | typeExpecting ty rule expected he ih =>
    exact (Emit.realizes_typeExpecting he.sound.1 ty rule expected).grows.target.canonical ih
  | counterType he ih => exact (Emit.realizes_counterType he.sound.1).grows.target.canonical ih
  | moveTo _ _ ih => exact ih

theorem Attained.regular (h : Emitter.Attained options e) : e.Regular := by
  refine ⟨h.sound.1, ?_⟩
  rcases h with h | ⟨stage, s, h, rfl⟩
  · exact h.canonical
  · exact h.canonical

end Emitter

/-! ## Interchangeable requests -/

/-- Answers agree with a written value in two ways only. -/
theorem Written.Agrees.cases {α β : Type} {R : α → β → Prop} {r : Except Failure α} {d : Written β}
    (h : Written.Agrees R r d) :
    (∃ a b, r = .ok a ∧ d = .ok b ∧ R a b) ∨ ∃ f, r = .error f ∧ d = .error f.placeless := by
  rcases r with f | a <;> rcases d with g | b
  · exact .inr ⟨f, rfl, congrArg Except.error (Eq.symm h)⟩
  · exact False.elim h
  · exact False.elim h
  · exact .inl ⟨a, b, rfl, rfl, h⟩

namespace Emit

open ShaderLowering.Action (Agree)

variable {e e₁ e₂ : Emitter}

/-- The requests answer with the same number or fail alike, each on its own and one after the
other. -/
structure Interchangeable (x y : Emit TypeId) (e : Emitter) : Prop where
  alone : Agree Eq (x.runOn e).1 (y.runOn e).1
  following : Agree Eq (x.runOn e).1 (y.runOn (x.runOn e).2).1
  preceding : Agree Eq (x.runOn (y.runOn e).2).1 (y.runOn e).1

/-- Two answers agree exactly if the same is written for them, provided that numbers do. -/
theorem agree_iff {R : TypeId → TypeTree → Prop} {R' : TypeId → TypeTree → Prop}
    {r r' : Except Failure TypeId} {d d' : Written TypeTree} (hr : Written.Agrees R r d)
    (hr' : Written.Agrees R' r' d')
    (h : ∀ id id' tree tree', R id tree → R' id' tree' → (id = id' ↔ tree = tree')) :
    Agree Eq r r' ↔ d = d' := by
  obtain ⟨id, tree, rfl, rfl, htree⟩ | ⟨f, rfl, rfl⟩ := hr.cases <;>
    obtain ⟨id', tree', rfl, rfl, htree'⟩ | ⟨f', rfl, rfl⟩ := hr'.cases
  · rw [Except.ok.injEq]
    exact h id id' tree tree' htree htree'
  · simp [Agree]
  · simp [Agree]
  · rw [Except.error.injEq]
    exact Iff.rfl

/-- A number found later is that of an earlier one exactly if it stands for the same type. -/
theorem eq_iff_of_isTree (he₂ : e₂.Regular) (hg : e₁.Grows e₂) {id id' : TypeId}
    {tree tree' : TypeTree} (h : IsTree e₁ id tree) (h' : IsTree e₂ id' tree') :
    id = id' ↔ tree = tree' := by
  have h₂ : e₂.target.tree? id = some tree := hg.tree? h
  constructor
  · rintro rfl
    exact Option.some.inj (h₂.symm.trans h')
  · rintro rfl
    exact Spirv.Module.tree?_inj he₂.sound.wellFormed he₂.canonical h₂ h'

/-- Requests made from one state agree if the same type is written for them. -/
theorem agree_of_enters {x y : Emit TypeId} {d : Written TypeTree} (hx : Realizes x e d IsTree)
    (hy : Realizes y e d IsTree) (hx' : Follows x e d (Enters e)) (hy' : Follows y e d (Enters e)) :
    Agree Eq (x.runOn e).1 (y.runOn e).1 := by
  rcases hrx : x.runOn e with ⟨r, e₁⟩
  rcases hry : y.runOn e with ⟨r', e₂⟩
  have hr := hx.agrees
  have hr' := hy.agrees
  rw [hrx] at hr
  rw [hry] at hr'
  obtain ⟨id, tree, rfl, rfl, -⟩ | ⟨f, rfl, rfl⟩ := hr.cases
  · obtain ⟨id', tree', rfl, hd, -⟩ | ⟨f', rfl, hd⟩ := hr'.cases
    · have h : tree.intern e.target.bare = (id, e₁.target.bare) := hx' id e₁ tree hrx rfl
      have h' : tree.intern e.target.bare = (id', e₂.target.bare) := hy' id' e₂ tree hry rfl
      exact (Prod.mk.inj (h.symm.trans h')).1
    · cases hd
  · obtain ⟨id', tree', rfl, hd, -⟩ | ⟨f', rfl, hd⟩ := hr'.cases
    · cases hd
    · exact Except.error.inj hd

/-- **Requests are interchangeable exactly if the same type is written for them.** -/
theorem interchangeable_iff (he : e.Regular) {ty ty' : Ty} {rule rule' : Layout.Rule}
    {expected expected' : Option Ty} :
    Interchangeable (typeExpecting ty rule expected) (typeExpecting ty' rule' expected') e ↔
      Written.ofTy e.options ty rule {} (expected.bind (·.elementScalar?))
        = Written.ofTy e.options ty' rule' {} (expected'.bind (·.elementScalar?)) := by
  have hx := realizes_typeExpecting he.sound ty rule expected
  have hy := realizes_typeExpecting he.sound ty' rule' expected'
  have hxy := realizes_typeExpecting (hx.regular he).sound ty' rule' expected'
  have hyx := realizes_typeExpecting (hy.regular he).sound ty rule expected
  have hxy' := hxy.agrees
  have hyx' := hyx.agrees
  rw [hx.grows.options] at hxy'
  rw [hy.grows.options] at hyx'
  have hfollowing := agree_iff hx.agrees hxy' fun _ _ _ _ =>
    eq_iff_of_isTree (hxy.regular (hx.regular he)) hxy.grows
  constructor
  · intro h
    exact hfollowing.1 h.following
  · intro h
    refine ⟨?_, hfollowing.2 h, ?_⟩
    · have hx' := enters_ofTy ty rule {} (expected.bind (·.elementScalar?)) he
      have hy' := enters_ofTy ty' rule' {} (expected'.bind (·.elementScalar?)) he
      rw [h] at hx hx'
      exact agree_of_enters hx hy hx' hy'
    · refine (agree_iff hyx' hy.agrees fun id id' tree tree' htree htree' => ?_).2 h
      rw [eq_comm, @eq_comm _ tree]
      exact eq_iff_of_isTree (hyx.regular (hy.regular he)) hyx.grows htree' htree

theorem interchangeable_type_iff (he : e.Regular) {ty ty' : Ty} {rule rule' : Layout.Rule}
    {expected : Option Ty} :
    Interchangeable (typeExpecting ty rule expected) (type ty' rule') e ↔
      Written.ofTy e.options ty rule {} (expected.bind (·.elementScalar?))
        = Written.ofTy e.options ty' rule' {} none :=
  show Interchangeable _ (typeExpecting ty' rule' none) e ↔ _ from interchangeable_iff he

end Emit

end ShaderLowering
