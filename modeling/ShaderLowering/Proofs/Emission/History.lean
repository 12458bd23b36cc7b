import ShaderLowering.Proofs.Emission.Reachable
import ShaderLowering.Proofs.Spirv.Canonical

/-!
# Histories of an emitter

A client asks an emitter for one type after the other.  The emitter keeps what it has emitted, looks
up what it knows and shares entries between the requests, but none of this can be told from its
answers: in a whole run every request gets the outcome that a fresh emitter gives it, and two
answers are the same number exactly if they stand for the same type
(`Emitter.outcomes_eq_and_tree?_inj`).
-/

namespace ShaderLowering

open Source (Ty Position)
open Spirv (TypeTree TypeId)

/-- What a client may ask an emitter for. -/
inductive TypeRequest
  /-- A type under a memory rule, perhaps with the scalar of another type expected. -/
  | type (ty : Ty) (rule : Layout.Rule) (expected : Option Ty)
  /-- The type of a hidden counter. -/
  | counter
deriving DecidableEq, Repr

/-- The emission that answers a request. -/
def TypeRequest.emit : TypeRequest → Emit TypeId
  | type ty rule expected => Emit.typeExpecting ty rule expected
  | counter => Emit.counterType

/-- The type of the answer, or the failure without the place that it carries. -/
def Emitter.outcome (e : Emitter) : Except Failure TypeId → Except Failure (Option TypeTree)
  | .ok id => .ok (e.target.tree? id)
  | .error f => .error f.placeless

/-- The outcome of a request to an emitter that was asked for nothing before. -/
def TypeRequest.freshOutcome (r : TypeRequest) (options : Options) :
    Except Failure (Option TypeTree) :=
  let (answer, e) := r.emit.runOn (.start options)
  e.outcome answer

/-- The answers to requests in order, each made with the current place moved, and the emitter after
them. -/
def Emitter.answers :
    List (Position × TypeRequest) → Emitter → List (Except Failure TypeId) × Emitter
  | [], e => ([], e)
  | (position, r) :: rest, e =>
    let (answer, e) := r.emit.runOn ((Emit.moveTo position).runOn e).2
    let (others, e) := answers rest e
    (answer :: others, e)

namespace TypeRequest

variable {e : Emitter}

/-- The tree that a request asks for. -/
def written (options : Options) : TypeRequest → Written TypeTree
  | type ty rule expected => Written.ofTy options ty rule {} (expected.bind (·.elementScalar?))
  | counter => .ok Written.counterType

theorem realizes_emit (he : e.Sound) (r : TypeRequest) :
    Emit.Realizes r.emit e (r.written e.options) Emit.IsTree := by
  cases r with
  | type ty rule expected => exact Emit.realizes_typeExpecting he ty rule expected
  | counter => exact Emit.realizes_counterType he

end TypeRequest

/-! ## One request -/

/-- An outcome that agrees with a written value is that value. -/
theorem Emitter.outcome_of_agrees {e : Emitter} {answer : Except Failure TypeId}
    {w : Written TypeTree} (h : Written.Agrees (Emit.IsTree e) answer w) :
    e.outcome answer = w.map some := by
  cases answer with
  | ok id =>
    cases w with
    | ok tree => exact congrArg Except.ok h
    | error f => exact False.elim h
  | error f =>
    cases w with
    | ok tree => exact False.elim h
    | error g => exact congrArg Except.error h

theorem TypeRequest.freshOutcome_eq (r : TypeRequest) (options : Options) :
    r.freshOutcome options = (r.written options).map some :=
  Emitter.outcome_of_agrees (r.realizes_emit (Emitter.sound_start options)).agrees

/-- An outcome stays the same while the module grows. -/
theorem Emitter.outcome_mono {e e' : Emitter} (h : e.target.Grows e'.target)
    {answer : Except Failure TypeId} {w : Written TypeTree}
    (ha : e.outcome answer = w.map some) : e'.outcome answer = w.map some := by
  cases answer with
  | error f => exact ha
  | ok id =>
    cases w with
    | error g => cases ha
    | ok tree => exact congrArg Except.ok (Spirv.Module.tree?_mono h (Except.ok.inj ha))

/-! ## A run -/

namespace Emitter

variable {e : Emitter}

theorem canonical_start (options : Options) : (Emitter.start options).target.Canonical :=
  ⟨List.nodup_nil, List.nodup_nil, fun _ hk => by cases hk⟩

/-- A run keeps the emitter sound and adds to its module, and every answer has the outcome that is
written for its request. -/
structure Answers (requests : List (Position × TypeRequest)) (e : Emitter)
    (answers : List (Except Failure TypeId)) (e' : Emitter) : Prop where
  sound : e'.Sound
  target : e.target.Grows e'.target
  outcomes : answers.map e'.outcome
    = requests.map fun request => (request.2.written e.options).map some

theorem answers_spec (requests : List (Position × TypeRequest)) (he : e.Sound) :
    Answers requests e (answers requests e).1 (answers requests e).2 := by
  induction requests generalizing e with
  | nil => exact ⟨he, .refl _, rfl⟩
  | cons request rest ih =>
    obtain ⟨position, r⟩ := request
    have hmoved : ((Emit.moveTo position).runOn e).2.Sound := ⟨he.wellFormed, he.known⟩
    have hrun := r.realizes_emit hmoved
    have hoptions : (r.emit.runOn ((Emit.moveTo position).runOn e).2).2.options = e.options :=
      hrun.grows.options
    have hrest := ih hrun.sound
    have hothers := hrest.outcomes
    rw [hoptions] at hothers
    -- the first answer is read in the last emitter, whose module has all that the first one had
    have hfirst := outcome_mono hrest.target (outcome_of_agrees hrun.agrees)
    exact ⟨hrest.sound, hrun.grows.target.trans hrest.target, congrArg₂ List.cons hfirst hothers⟩

/-- Every answer of a run with a number stands for a type. -/
theorem Answers.isSome_tree? {requests : List (Position × TypeRequest)} {e' : Emitter}
    {answers : List (Except Failure TypeId)} (h : Answers requests e answers e') {id : TypeId}
    (hid : .ok id ∈ answers) : ∃ tree, e'.target.tree? id = some tree := by
  have houtcome : e'.outcome (.ok id) ∈ answers.map e'.outcome := List.mem_map_of_mem hid
  rw [h.outcomes, List.mem_map] at houtcome
  obtain ⟨request, -, hwritten⟩ := houtcome
  cases hw : request.2.written e.options with
  | error f =>
    rw [hw] at hwritten
    cases hwritten
  | ok tree =>
    rw [hw] at hwritten
    exact ⟨tree, (Except.ok.inj hwritten).symm⟩

/-- **Emission has no history.**  Whatever an emitter is asked for, in whatever order and with
whatever failures in between, every request has the outcome that a fresh emitter gives it: the same
type, or the same failure at perhaps another place.  Two of the answers are the same number exactly
if they stand for the same type. -/
theorem outcomes_eq_and_tree?_inj (options : Options) (requests : List (Position × TypeRequest)) :
    (answers requests (.start options)).1.map (answers requests (.start options)).2.outcome
        = requests.map (fun request => request.2.freshOutcome options) ∧
      ∀ id id', .ok id ∈ (answers requests (.start options)).1 →
        .ok id' ∈ (answers requests (.start options)).1 →
        ((answers requests (.start options)).2.target.tree? id).isSome ∧
        (id = id' ↔ (answers requests (.start options)).2.target.tree? id
          = (answers requests (.start options)).2.target.tree? id') := by
  have hrun := answers_spec requests (sound_start options)
  have hcanonical := hrun.target.canonical (canonical_start options)
  refine ⟨?_, fun id id' hid hid' => ?_⟩
  · rw [hrun.outcomes]
    exact List.map_congr_left fun request _ => (request.2.freshOutcome_eq options).symm
  · obtain ⟨tree, htree⟩ := hrun.isSome_tree? hid
    refine ⟨by rw [htree]; rfl, congrArg _, fun hsame => ?_⟩
    exact Spirv.Module.tree?_inj hrun.sound.wellFormed hcanonical htree (hsame ▸ htree)

end Emitter

end ShaderLowering
