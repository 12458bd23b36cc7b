import ShaderLowering.Proofs.Session.Decoration
import ShaderLowering.Proofs.Session.Reachable

/-!
# Descriptor bindings of a session

Giving out descriptor bindings never fails.  Every resource variable gets one place, in one set and
one binding, and the answer says whether no two explicit places are the same.
-/

namespace ShaderLowering

open Spirv (ResourceBinding VariableId VariableDecoration)

/-- The decorations that put a variable into its place. -/
def Spirv.ResourceBinding.decorations (slot : ResourceBinding) : List VariableDecoration :=
  [.descriptorSet slot.set, .binding slot.binding]

namespace Session

variable {s s' : Session}

/-- The session with a resource variable in its place. -/
def bound (s : Session) (p : ResourceVariable × ResourceBinding) : Session :=
  s.decorated p.1.var p.2.decorations

/-- The second session is the first one with its resource variables in the given places. -/
structure Binds (s s' : Session) (slots : List ResourceBinding) : Prop where
  frame : s' = { s with emitter := s'.emitter }
  places : SlotsFor s.resources slots
  decorated : ∀ (i : Nat) (r : ResourceVariable) (slot : ResourceBinding),
    s.resources[i]? = some r → slots[i]? = some slot →
    ∃ v, s.var? r.var = some v ∧ s'.var? r.var = some (v.gaining slot.decorations)
  others : ∀ id, (∀ r ∈ s.resources, r.var ≠ id) → s'.var? id = s.var? id

theorem bound_foldl_eq (s : Session) (l : List (ResourceVariable × ResourceBinding)) :
    l.foldl bound s = { s with emitter := (l.foldl bound s).emitter } := by
  induction l generalizing s with
  | nil => rfl
  | cons p rest ih =>
    rw [List.foldl_cons, ih]
    rfl

theorem Sound.var?_of_resource (hs : s.Sound) {r : ResourceVariable} (hr : r ∈ s.resources) :
    ∃ v, s.var? r.var = some v :=
  ⟨_, List.getElem?_eq_getElem (hs.held.resources r hr)⟩

/-- Resource variables are put into their places. -/
theorem binds_foldl (hs : s.Sound) {slots : List ResourceBinding}
    (hslots : SlotsFor s.resources slots) (findings : List (Finding × Source.Position)) :
    s.Binds ((s.resources.zip slots).foldl bound (s.reported findings)) slots := by
  have hids : (s.resources.zip slots).map (·.1.var) = s.resources.map (·.var) := by
    have hfst := List.map_fst_zip (Nat.le_of_eq hslots.length.symm)
    exact (List.map_map ..).symm.trans (congrArg _ hfst)
  have hnodup : ((s.resources.zip slots).map (·.1.var)).Nodup :=
    hids ▸ hs.resources.imp Nat.ne_of_lt
  have hbound : ∀ (s : Session) (p : ResourceVariable × ResourceBinding) j, (s.bound p).var? j =
      (s.var? j).map (·.gaining (if p.1.var = j then p.2.decorations else [])) :=
    fun s p j => s.var?_decorated p.1.var j p.2.decorations
  refine ⟨bound_foldl_eq _ _, hslots, fun i r slot hr hslot => ?_, fun id hid => ?_⟩
  · obtain ⟨v, hv⟩ := hs.var?_of_resource (List.mem_of_getElem? hr)
    have hmem : (r, slot) ∈ s.resources.zip slots :=
      List.mem_of_getElem? (List.getElem?_zip_eq_some.2 ⟨hr, hslot⟩)
    exact ⟨v, hv, (var?_foldl_of_mem hbound hnodup hmem _).trans (congrArg _ hv)⟩
  · exact var?_foldl_of_not_mem hbound (fun p hp => hid p.1 (List.of_mem_zip hp).1) _

end Session

namespace Lower

variable {stage : Stage} {options : Options} {s : Session}

/-- A resource variable that exists is put into its place. -/
theorem runOn_bound {p : ResourceVariable × ResourceBinding} (hp : p.1.var < s.size) :
    (do
      emit (.decorate p.1.var (.descriptorSet p.2.set))
      emit (.decorate p.1.var (.binding p.2.binding)) : Lower Unit).runOn s =
      (.ok (), s.bound p) := by
  have hp' : p.1.var < (s.decorated p.1.var [.descriptorSet p.2.set]).size := by
    rw [Session.size_decorated]
    exact hp
  rw [Action.runOn_bind_of_ok (runOn_decorate hp _), runOn_decorate hp',
    Session.decorated_decorated]
  rfl

/-- What giving out bindings answers and leaves behind. -/
theorem runOn_decorateBindings (hs : s.Sound) : decorateBindings.runOn s =
    (.ok (BindingPlan.of s.resources).findings.isEmpty,
      (s.resources.zip (BindingPlan.of s.resources).slots).foldl Session.bound
        (s.reported (BindingPlan.of s.resources).findings)) := by
  have hloop := Action.runOn_forM
    (P := fun (p : ResourceVariable × ResourceBinding) (s : Session) => p.1.var < s.size)
    (fun _ _ hp => runOn_bound hp)
    (fun p _ s _ hq => by rw [Session.bound, Session.size_decorated]; exact hq)
    (s.resources.zip (BindingPlan.of s.resources).slots)
    (s := s.reported (BindingPlan.of s.resources).findings)
    fun p hp => hs.held.resources _ (List.of_mem_zip hp).1
  rw [decorateBindings, Action.runOn_bind_of_ok (Action.runOn_get _)]
  dsimp only
  rw [Action.runOn_bind_of_ok (runOn_reportAll _ _), Action.runOn_bind_of_ok hloop]
  rfl

/-- **Descriptor bindings.**  Whatever was created before, giving out bindings answers, and every
resource variable gets one place: the one that it asks for, or one that no other variable has, and
for a hidden counter one in the set of its buffer.  The answer is `false` exactly if two explicit
places are the same; else all places are different. -/
theorem binds_decorateBindings (h : Session.Reachable stage options s) :
    ∃ b s' slots, decorateBindings.runOn s = (.ok b, s') ∧ s.Binds s' slots ∧
      (b = false ↔ ExplicitCollision s.resources) ∧ (b = true → slots.Nodup) := by
  have hs := h.sound
  have hplaces := slotsFor_plan hs.counters
  have hanswer : (BindingPlan.of s.resources).findings.isEmpty = true ↔
      ¬ExplicitCollision s.resources := by
    rw [List.isEmpty_iff, findings_eq_nil_iff]
  refine ⟨_, _, _, runOn_decorateBindings hs, Session.binds_foldl hs hplaces _, ?_, fun hb => ?_⟩
  · rw [← Bool.not_eq_true, hanswer, Classical.not_not]
  · exact hplaces.nodup (hanswer.1 hb)

end Lower

/-- An empty constant block. -/
def emptyBlock (id : Nat) (name : String) (attributes : Source.Attributes) : Source.Block where
  id := id
  name := name
  kind := .constant
  fields := .nil
  attributes := attributes

/-- A session with three blocks, of which a register and a binding are the same place. -/
def collidingBlocks : Session :=
  let first := emptyBlock 1 "a" { register := some ⟨"b", 0, 0⟩ }
  let second := emptyBlock 2 "b" {}
  let third := emptyBlock 3 "c" { binding := some ⟨0, 0⟩ }
  ((Lower.block third).runOn ((Lower.block second).runOn
    ((Lower.block first).runOn (.start .pixel {})).2).2).2

theorem reachable_collidingBlocks : Session.Reachable .pixel {} collidingBlocks :=
  .step (.block _) (.step (.block _) (.step (.block _) .start))

theorem resources_collidingBlocks : collidingBlocks.resources =
    [{ var := 0, position := {}, register := some ⟨"b", 0, 0⟩ }, { var := 1, position := {} },
      { var := 2, position := {}, binding := some ⟨0, 0⟩ }] := by
  decide +kernel

theorem Lower.binds_decorateBindings_collidingBlocks :
    Session.Reachable .pixel {} collidingBlocks ∧
    ∃ s' slots, decorateBindings.runOn collidingBlocks = (.ok false, s') ∧
      collidingBlocks.Binds s' slots ∧ ExplicitCollision collidingBlocks.resources := by
  obtain ⟨b, s', slots, hrun, hbinds, hfalse, -⟩ := binds_decorateBindings reachable_collidingBlocks
  have hcollision : ExplicitCollision collidingBlocks.resources := by
    rw [resources_collidingBlocks]
    exact ⟨0, 2, _, _, ⟨0, 0⟩, by decide, rfl, rfl, rfl, rfl⟩
  cases hfalse.2 hcollision
  exact ⟨reachable_collidingBlocks, s', slots, hrun, hbinds, hcollision⟩

end ShaderLowering
