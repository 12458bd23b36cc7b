import ShaderLowering.Proofs.Pairing
import ShaderLowering.Proofs.Emission.Extension

/-!
# Emission in pairs

Two sound emitters with the same options are alike, whatever they have emitted so far: an emission
answers on both or fails on both for the same reason.  Nothing but the decorations of resources
changes the place of a variable among the descriptors (`Spirv.Module.KeepsSlots`).
-/

namespace ShaderLowering

open ShaderLowering.Action (Pairing)
open Spirv (TypeId VariableId)

/-! ## Slots of variables -/

namespace Spirv

/-- What a variable is called and where it stands among the descriptors. -/
def Variable.slot (v : Variable) : Option String × Option Nat × Option Nat :=
  (v.name, v.descriptorSet?, v.binding?)

/-- A location is no place among the descriptors. -/
theorem Variable.slot_gaining_location (v : Variable) (location : Nat) :
    (v.gaining [.location location]).slot = v.slot := by
  simp [slot, gaining, descriptorSet?, binding?]

/-- A variable stands where it was put last. -/
theorem Variable.slot_gaining_binding (v : Variable) (set binding : Nat) :
    (v.gaining [.descriptorSet set, .binding binding]).slot = (v.name, some set, some binding) := by
  simp [slot, gaining, descriptorSet?, binding?]

namespace Module

/-- The variables of the first module are still there, in the same slots. -/
def KeepsSlots (m m' : Module) : Prop :=
  ∀ id v, m.variables.get? id = some v → ∃ v', m'.variables.get? id = some v' ∧ v'.slot = v.slot

variable {m m' m'' : Module}

theorem KeepsSlots.refl (m : Module) : m.KeepsSlots m := fun _ v hv => ⟨v, hv, rfl⟩

theorem KeepsSlots.trans (h : m.KeepsSlots m') (h' : m'.KeepsSlots m'') : m.KeepsSlots m'' := by
  intro id v hv
  obtain ⟨v', hv', hslot⟩ := h id v hv
  obtain ⟨v'', hv'', hslot'⟩ := h' id v' hv'
  exact ⟨v'', hv'', hslot'.trans hslot⟩

theorem KeepsSlots.of_variables (h : m'.variables = m.variables) : m.KeepsSlots m' :=
  fun _ v hv => ⟨v, h ▸ hv, rfl⟩

theorem KeepsSlots.lt_size (h : m.KeepsSlots m') {id : VariableId} (hid : id < m.variables.size) :
    id < m'.variables.size := by
  obtain ⟨v', hv', -⟩ := h id _ (List.getElem?_eq_getElem hid)
  exact (List.getElem?_eq_some_iff.1 hv').1

theorem keepsSlots_addVariable (m : Module) (v : Variable) : m.KeepsSlots (m.addVariable v).2 := by
  intro id u hu
  have hid : id < m.variables.size := (List.getElem?_eq_some_iff.1 hu).1
  refine ⟨u, ?_, rfl⟩
  rw [addVariable, Table.get?_push, if_neg (Nat.ne_of_lt hid)]
  exact hu

end Module

end Spirv

/-! ## Emitters that are alike -/

namespace Emitter

/-- Two sound emitters with the same options. -/
structure Alike (e f : Emitter) : Prop where
  left : e.Sound
  right : f.Sound
  options : e.options = f.options

/-- What an emission leaves as it was. -/
structure KeepsSlots (e e' : Emitter) : Prop where
  options : e'.options = e.options
  target : e.target.KeepsSlots e'.target

variable {e e' e'' : Emitter}

theorem KeepsSlots.refl (e : Emitter) : e.KeepsSlots e := ⟨rfl, .refl _⟩

theorem KeepsSlots.trans (h : e.KeepsSlots e') (h' : e'.KeepsSlots e'') : e.KeepsSlots e'' :=
  ⟨h'.options.trans h.options, h.target.trans h'.target⟩

/-- Runs of the emitter in pairs. -/
def pairing : Pairing Emitter where
  alike := Alike
  step := KeepsSlots
  refl := .refl
  trans := .trans

end Emitter

namespace Emit

open Emitter (pairing)

variable {α β : Type} {e f : Emitter}

/-- What an action realizes on one emitter it realizes on every emitter that is alike. -/
theorem Realizes.pair {x y : Emit α} {d : Written β} {R S : Emitter → α → β → Prop}
    {Q : α → α → Prop} (hx : Realizes x e d R) (hy : Realizes y f d S)
    (hoptions : e.options = f.options) (hQ : ∀ e' f' a a' b, R e' a b → S f' a' b → Q a a') :
    pairing.Keeps Q x y e f := by
  refine ⟨⟨hx.sound, hy.sound, ?_⟩, ⟨hx.grows.options, ?_⟩, ⟨hy.grows.options, ?_⟩, ?_⟩
  · rw [hx.grows.options, hy.grows.options, hoptions]
  · exact .of_variables hx.grows.target.sameVariables
  · exact .of_variables hy.grows.target.sameVariables
  · have hleft := hx.agrees
    have hright := hy.agrees
    generalize (x.runOn e).1 = answer at hleft
    generalize (y.runOn f).1 = answer' at hright
    -- both answers agree with the written value, which is one or the other
    cases d with
    | ok b =>
      cases answer with
      | error _ => exact False.elim hleft
      | ok a =>
        cases answer' with
        | error _ => exact False.elim hright
        | ok a' => exact hQ _ _ a a' b hleft hright
    | error err =>
      cases answer with
      | ok _ => exact False.elim hleft
      | error _ =>
        cases answer' with
        | ok _ => exact False.elim hright
        | error _ => exact hleft.trans hright.symm

/-- Two types that are emitted alike; their numbers say nothing. -/
theorem Realizes.pairType {x y : Emit TypeId} {d : Written Spirv.TypeTree}
    (hx : Realizes x e d IsTree) (hy : Realizes y f d IsTree) (hoptions : e.options = f.options) :
    pairing.Keeps (fun _ _ => True) x y e f :=
  hx.pair hy hoptions fun _ _ _ _ _ _ _ => trivial

/-- Two actions that answer with the same known value. -/
theorem Realizes.pairSame {x y : Emit α} {d : Written α} (hx : Realizes x e d Same)
    (hy : Realizes y f d Same) (hoptions : e.options = f.options) : pairing.Keeps Eq x y e f :=
  hx.pair hy hoptions fun _ _ _ _ _ hleft hright => hleft.trans hright.symm

variable (h : e.Alike f)
include h

theorem pair_type (ty : Source.Ty) (rule : Layout.Rule) :
    pairing.Keeps (fun _ _ => True) (type ty rule) (type ty rule) e f :=
  (realizes_ofTy ty rule {} none h.left).pairType
    (h.options ▸ realizes_ofTy ty rule {} none h.right) h.options

theorem pair_report (finding : Finding) (position : Source.Position) :
    pairing.Keeps Eq (report finding position) (report finding position) e f :=
  (realizes_report h.left _ _).pairSame (realizes_report h.right _ _) h.options

theorem pair_declare (c : Option Spirv.Capability) (x : Option Spirv.Extension) :
    pairing.Keeps Eq (declare c x) (declare c x) e f :=
  (realizes_declare h.left c x).pairSame (realizes_declare h.right c x) h.options

theorem pair_moveTo (position : Source.Position) :
    pairing.Keeps Eq (moveTo position) (moveTo position) e f :=
  ⟨⟨h.left.congr rfl rfl rfl rfl, h.right.congr rfl rfl rfl rfl, h.options⟩, ⟨rfl, .refl _⟩,
    ⟨rfl, .refl _⟩, rfl⟩

/-- The number of a new variable says nothing. -/
theorem pair_addVariable (v w : Spirv.Variable) :
    pairing.Keeps (fun _ _ => True) (addVariable v) (addVariable w) e f :=
  ⟨⟨h.left.congr rfl rfl rfl rfl, h.right.congr rfl rfl rfl rfl, h.options⟩,
    ⟨rfl, Spirv.Module.keepsSlots_addVariable _ v⟩, ⟨rfl, Spirv.Module.keepsSlots_addVariable _ w⟩,
    trivial⟩

omit h in
theorem runOn_decorate_location {id : VariableId} (hid : id < e.target.variables.size)
    (location : Nat) : ∃ e', (decorate id (.location location)).runOn e = (.ok (), e') ∧
      e.KeepsSlots e' ∧ (e.Sound → e'.Sound) := by
  have htarget : e.target.decorate id (.location location) =
      .ok { e.target with
        «variables» := e.target.variables.modify id (·.gaining [.location location]) } :=
    if_pos hid
  have hrun : (decorate id (.location location)).runOn e =
      (.ok (), { e with target := { e.target with
        «variables» := e.target.variables.modify id (·.gaining [.location location]) } }) := by
    rw [decorate, Action.runOn_bind_of_ok (Action.runOn_get _), htarget]
    rfl
  refine ⟨_, hrun, ⟨rfl, fun j v hv => ?_⟩, fun he => he.congr rfl rfl rfl rfl⟩
  rw [Spirv.Table.get?_modify]
  split
  · exact ⟨_, by rw [hv]; rfl, v.slot_gaining_location location⟩
  · exact ⟨v, hv, rfl⟩

/-- Variables that exist get a location alike. -/
theorem pair_decorate_location {id id' : VariableId} (hid : id < e.target.variables.size)
    (hid' : id' < f.target.variables.size) (location : Nat) :
    pairing.Keeps Eq (decorate id (.location location)) (decorate id' (.location location)) e
      f := by
  obtain ⟨e', hrun, hkeeps, hsound⟩ := runOn_decorate_location hid location
  obtain ⟨f', hrun', hkeeps', hsound'⟩ := runOn_decorate_location hid' location
  refine ⟨?_, ?_, ?_, ?_⟩ <;> simp only [hrun, hrun']
  · exact ⟨hsound h.left, hsound' h.right,
      (hkeeps.options.trans h.options).trans hkeeps'.options.symm⟩
  · exact hkeeps
  · exact hkeeps'
  · rfl

end Emit

end ShaderLowering
