import ShaderLowering.Proofs.Session.Operations

/-!
# Accesses to distances

An access to a distance names a variable, a range of elements and a source type.  These come from
three times: the source type from recording, the range from calculation, the variable from creation.
That they belong together in any session is part of its soundness, so all that is left here is to
read it off.
-/

namespace ShaderLowering

open Distance (Access)
open Source (EntryPoint Param)

namespace Session

/-- What is to hold of an access to the distances of a direction and kind: its variable is an array
of distances for them, over vertices or not, as long as was calculated; its range lies inside the
array and has an element for every component. -/
structure Reaches (s : Session) (direction : Direction) (kind : DistanceKind) (a : Access) :
    Prop where
  array : ∃ v vertices, s.emitter.target.variables.get? a.var = some v ∧
    v.storage = direction.storage ∧ .builtin kind.builtin ∈ v.decorations ∧
    s.emitter.target.tree? v.ty =
      some (Written.distanceArray (s.distances.total direction kind) vertices)
  inside : a.offset + a.count ≤ s.distances.total direction kind
  counted : distanceCount? a.ty = some a.count

/-- The access to the distance with a semantic index. -/
def access? (s : Session) (direction : Direction) (kind : DistanceKind) (index : Nat)
    (invocation : Option Nat) : Option Access :=
  (s.distances.get direction kind).access? index invocation

variable {stage : Stage} {options : Options} {s : Session} {direction : Direction}
  {kind : DistanceKind} {index : Nat} {invocation : Option Nat} {a : Access}

theorem Sound.reaches (hs : s.Sound) (ha : s.access? direction kind index invocation = some a) :
    s.Reaches direction kind a := by
  have hpacked := hs.distances direction kind
  obtain ⟨hvar, hinside, hdeclared⟩ := hpacked.measured.access hpacked.ascending ha
  exact ⟨hpacked.array List.not_mem_nil a.var hvar, hinside, hpacked.counted _ hdeclared⟩

/-- **Packed distances stay in bounds.**  In every session that operations lead to, answered or
failed, an access to a distance stays inside an array of the length that was calculated for its
direction and kind, and shares no element with the access to another distance of them. -/
theorem Reachable.distances_inBounds (h : Session.Reachable stage options s)
    (ha : s.access? direction kind index invocation = some a) :
    s.Reaches direction kind a ∧ ∀ index' invocation' a',
      s.access? direction kind index' invocation' = some a' → index ≠ index' →
        a.offset + a.count ≤ a'.offset ∨ a'.offset + a'.count ≤ a.offset :=
  ⟨h.sound.reaches ha, fun _ _ _ ha' hne =>
    (h.sound.distances direction kind).measured.apart ha ha' hne⟩

end Session

/-- A vertex shader that writes clip distances with some semantic indices and numbers of
components. -/
def clipWriter (distances : List (String × Nat)) : EntryPoint where
  stage := .vertex
  function := {
    id := 1
    name := "main"
    params := distances.map fun d =>
      { id := 2, name := "d", ty := .vector .single d.2, passing := .output,
        attributes := { semantic := some d.1 } } }

/-- A session in which distances were lowered twice, with an index that is new and one that is
declared differently the second time. -/
def repacked : Session :=
  (Session.start .vertex {}).run
    [.interface (.entryPoint (clipWriter [("SV_ClipDistance2", 2), ("SV_ClipDistance0", 3)])),
      .interface (.entryPoint (clipWriter [("SV_ClipDistance1", 4), ("SV_ClipDistance0", 2)]))]

theorem reachable_repacked : Session.Reachable .vertex {} repacked := .run .start _

theorem Session.Reachable.distances_inBounds_repacked :
    repacked.access? .output .clip 2 none = some ⟨1, 7, 2, none, .vector .single 2⟩ ∧
    repacked.Reaches .output .clip ⟨1, 7, 2, none, .vector .single 2⟩ ∧
      ∀ index invocation a, repacked.access? .output .clip index invocation = some a →
        2 ≠ index → 7 + 2 ≤ a.offset ∨ a.offset + a.count ≤ 7 := by
  have haccess : repacked.access? .output .clip 2 none =
      some ⟨1, 7, 2, none, .vector .single 2⟩ := by decide +kernel
  exact ⟨haccess, reachable_repacked.distances_inBounds haccess⟩

-- the first array is left behind, and the second one has room for all declarations
example : (repacked.access? .output .clip 0 none).map (fun a => (a.var, a.offset, a.count)) =
      some (1, 0, 3) ∧
    (repacked.access? .output .clip 1 none).map (fun a => (a.var, a.offset, a.count)) =
      some (1, 3, 4) ∧
    repacked.distances.total .output .clip = 9 := by
  decide +kernel

end ShaderLowering
