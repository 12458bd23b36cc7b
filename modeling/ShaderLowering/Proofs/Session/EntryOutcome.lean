import ShaderLowering.Proofs.Distance.Owners
import ShaderLowering.Proofs.Session.MadeLeaves

/-!
# What lowering an entry point comes to

A fresh session lowers an entry point in phases: distances are recorded, their arrays are measured
and created, then the leaves are created, and locations are given out.  None of this depends on the
session, so the declaration settles how far it gets (`Lower.comesTo_entryPoint`).
-/

namespace ShaderLowering

open Source (Ty Field Param Function EntryPoint)
open ShaderLowering.Action (ComesTo comesTo_pure comesTo_of_runOn comesTo_get_bind comesTo_modify
  comesTo_ofChecked)

/-! ## Recorded distances -/

/-- The arrays with parts recorded, each in its direction, as far as nothing is wrong with them. -/
def DistanceArrays.recordParts (a : DistanceArrays) (parts : List (Direction × DistanceLeaf)) :
    DistanceArrays :=
  parts.foldl (fun a part => (a.recordLeaf part.1 part.2).toOption.getD a) a

theorem DistanceArrays.recordParts_append (a : DistanceArrays)
    (parts parts' : List (Direction × DistanceLeaf)) :
    a.recordParts (parts ++ parts') = (a.recordParts parts).recordParts parts' :=
  List.foldl_append

theorem DistanceArrays.recordLeaves_snd (direction : Direction) (leaves : List DistanceLeaf)
    (a : DistanceArrays) :
    (a.recordLeaves direction leaves).2 = a.recordParts (leaves.map (direction, ·)) := by
  induction leaves generalizing a with
  | nil => rfl
  | cons leaf rest ih =>
    rw [recordLeaves, List.map_cons, recordParts, List.foldl_cons]
    cases hleaf : a.recordLeaf direction leaf with
    | ok a' => exact ih a'
    | error finding => exact ih a

namespace Lower

variable {s : Session} {stage : Stage} {α : Type}

/-- At a stage the action records parts, and answers. -/
def Notes (stage : Stage) (x : Lower α) (parts : List (Direction × DistanceLeaf)) : Prop :=
  ∀ s : Session, s.stage = stage → ComesTo x s (.ok ()) fun s' _ _ =>
    s' = { s with emitter := s'.emitter, distances := s.distances.recordParts parts }

theorem notes_pure (a : α) : Notes stage (pure a) [] := fun _ _ => comesTo_pure rfl

theorem Notes.and {x y : Lower Bool} {parts parts' : List (Direction × DistanceLeaf)}
    (hx : Notes stage x parts) (hy : Notes stage y parts') :
    Notes stage (do let a ← x; let b ← y; return a && b) (parts ++ parts') := by
  intro s hs
  refine (hx s hs).step fun s₁ a hs₁ => ?_
  refine (hy s₁ (by rw [hs₁, hs])).step fun s₂ b hs₂ => ?_
  refine comesTo_pure ?_
  rw [hs₂, hs₁, DistanceArrays.recordParts_append]

theorem notes_recordIn (direction : Direction) (ty : Ty) (p : Param) :
    Notes stage (recordIn direction ty p)
      ((distanceLeaves ty p.attributes.semantic p.position ty).map (direction, ·)) := by
  intro s _
  refine comesTo_get_bind ((comesTo_modify _).step fun s₁ _ hs₁ => ?_)
  refine (comesTo_of_runOn (runOn_reportAll _ s₁) rfl : ComesTo _ s₁ (.ok ()) fun s' _ _ =>
    s' = s₁.reported _).step fun s₂ _ hs₂ => comesTo_pure ?_
  rw [hs₂, hs₁, ← DistanceArrays.recordLeaves_snd]
  rfl

theorem notes_recordIf (flows : Bool) (direction : Direction) (ty : Ty) (p : Param) :
    Notes stage (recordIf flows direction ty p) (if flows then
      (distanceLeaves ty p.attributes.semantic p.position ty).map (direction, ·) else []) := by
  rw [recordIf]
  split
  · exact notes_recordIn direction ty p
  · exact notes_pure true

theorem notes_recordDistances (p : Param) (perPatch : Bool) :
    Notes stage (recordDistances p perPatch) (p.distanceParts stage perPatch) := by
  intro s hs
  rw [recordDistances_eq, Param.distanceParts]
  refine comesTo_get_bind ?_
  subst hs
  cases (p.perVertex s.stage perPatch).1 with
  | none => exact notes_pure true s rfl
  | some ty => exact (notes_recordIf _ .input ty p).and (notes_recordIf _ .output ty p) s rfl

theorem notes_forAll (perPatch : Bool) : (l : List Param) →
    Notes stage (forAll (recordDistances · perPatch) l)
      (l.flatMap (·.distanceParts stage perPatch))
  | [] => notes_pure true
  | p :: rest => (notes_recordDistances p perPatch).and (notes_forAll perPatch rest)

theorem notes_recordPatch (e : EntryPoint) :
    Notes stage (recordPatch e) (e.patchFunction.elim [] (·.distanceParts stage true)) := by
  rw [recordPatch.eq_def]
  cases e.patchFunction with
  | none => exact notes_pure true
  | some f => exact notes_forAll true _

/-- What is recorded for an entry point. -/
theorem comesTo_recordEntry (e : EntryPoint) (s : Session) :
    ComesTo (recordEntry e) s (.ok ()) fun s' _ _ =>
      s' = { s with
        emitter := s'.emitter, stage := e.stage, outputPoints := e.outputPoints,
        distances := s.distances.recordParts e.distanceParts } := by
  refine (comesTo_modify _).step fun s₁ _ hs₁ => ?_
  have hstage : s₁.stage = e.stage := by rw [hs₁]
  refine (notes_forAll false _ s₁ hstage).step fun s₂ _ hs₂ => ?_
  have hstage₂ : s₂.stage = e.stage := by rw [hs₂, hstage]
  refine (notes_recordPatch e s₂ hstage₂).step fun s₃ _ hs₃ => comesTo_pure ?_
  rw [hs₃, hs₂, hs₁, EntryPoint.distanceParts, Function.distanceParts,
    DistanceArrays.recordParts_append]

/-- Arrays are created if their lengths can be calculated. -/
theorem comesTo_createDistances (inputVertices outputVertices : Option Nat) (s : Session) :
    ComesTo (createDistances inputVertices outputVertices) s
      (Written.ofChecked s.distances.calculate) fun s' _ _ =>
        s' = { s with emitter := s'.emitter, distances := s'.distances } := by
  refine comesTo_get_bind ((comesTo_ofChecked _).bind_total fun s₁ a _ ⟨hs₁, _⟩ => ?_)
  obtain ⟨r, e, hrun⟩ := Emit.total_distanceArraysFor inputVertices outputVertices
    DistanceArrays.keys a s₁.emitter
  have harrays : (emit (.distanceArrays a inputVertices outputVertices)).runOn s₁ =
      (.ok r, { s₁ with emitter := e }) := by
    rw [runOn_emit, Emit.distanceArrays, hrun]
  refine (comesTo_of_runOn (b := ()) harrays rfl : ComesTo _ s₁ (.ok ()) fun s' _ _ =>
    s' = { s₁ with emitter := e }).step fun s₂ _ hs₂ => ?_
  refine comesTo_of_runOn rfl ?_
  rw [hs₂, hs₁]

end Lower

/-! ## Entry points -/

namespace Source.EntryPoint

variable (options : Options) (e : EntryPoint)

/-- The distances that are recorded for an entry point. -/
def distances : DistanceArrays := DistanceArrays.recordParts {} e.distanceParts

/-- Whether the leaves can be created. -/
def creation : Written Unit := creations options e.stage [] e.createdLeaves

end Source.EntryPoint

namespace Lower

/-- What lowering an entry point in a fresh session comes to is settled by the declaration. -/
theorem comesTo_entryPoint (e : EntryPoint) (stage : Stage) (options : Options) :
    ComesTo (entryPoint e) (.start stage options) (do
      let _ ← Written.ofChecked e.distances.calculate
      e.creation options
      Written.plans options.order (e.locatedVariables options)) fun _ _ _ => True := by
  rw [entryPoint_eq_phases]
  have hsound := Session.sound_start stage options
  refine ((comesTo_recordEntry e _).and_keeps (keeps_recordEntry hsound e)).step
    fun s₁ recorded ⟨hs₁, hsound₁, hgrows₁⟩ => ?_
  have hdistances : s₁.distances = e.distances := by
    rw [hs₁]
    rfl
  rw [← hdistances]
  refine ((comesTo_createDistances e.vertexCounts.1 e.vertexCounts.2 s₁).and_keeps
    (keeps_createDistances hsound₁ _ _)).bind fun s₂ _ _ ⟨hs₂, hsound₂, hgrows₂⟩ => ?_
  have hoptions : s₂.emitter.options = options :=
    hgrows₂.emitter.options.trans hgrows₁.emitter.options
  -- nothing is listed before the first leaf
  have hlists : s₂.ListsLocated options e.stage e.outputPoints [] := by
    rw [hs₂, hs₁]
    exact ⟨rfl, fun _ _ => rfl, rfl, rfl⟩
  exact comesTo_createEntry ⟨hlists, hsound₂, hoptions⟩ recorded

end Lower

end ShaderLowering
