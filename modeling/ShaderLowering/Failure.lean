import ShaderLowering.Counter.Path
import ShaderLowering.Source.Attributes
import ShaderLowering.Spirv.Module

/-!
# Failures

A lowering call that produces nothing fails with a cause.  Problems of the program that is compiled
are reported as diagnostics and need not end a call; the errors here do.
-/

namespace ShaderLowering

/-- Why an assignment between counters cannot be planned. -/
inductive CounterError
  /-- The destination has no counter at a path. -/
  | missing (path : Counter.Path)
  /-- The destination's counter at a path is a real one and cannot be rebound. -/
  | notAlias (path : Counter.Path)
  /-- A declaration has no counters at all. -/
  | noCounters
deriving DecidableEq, Repr, Inhabited

/-- The wording of a counter error. -/
def CounterError.text : CounterError → String
  | missing path => "no counter at path " ++ path.text ++ " of the destination"
  | notAlias path => "counter at path " ++ path.text ++ " of the destination is not an alias"
  | noCounters => "declaration has no counter metadata"

/-- Why a lowering call produced nothing. -/
inductive LoweringError
  /-- The compile cannot go on. -/
  | fatal (message : String) (position : Source.Position)
  /-- The declaration is wrong in a way that was reported. -/
  | invalid
  /-- The module refused a request. -/
  | target (e : Spirv.ModuleError)
  /-- A counter assignment failed. -/
  | counter (e : CounterError)
deriving DecidableEq, Repr, Inhabited

/-- The wording of a lowering error. -/
def LoweringError.text : LoweringError → String
  | fatal message position => position.text ++ ": " ++ message
  | invalid => "declaration could not be lowered (see diagnostics)"
  | target e => e.text
  | counter e => e.text

/-- Why a computation stopped: an error with a cause, or a fault of its arithmetic. -/
inductive Failure
  | error (e : LoweringError)
  | fault (f : Fault)
deriving DecidableEq, Repr, Inhabited

/-- A computation on a state that may fail; what it did to the state before stays done. -/
abbrev Action (σ α : Type) := ExceptT Failure (StateM σ) α

namespace Action

variable {σ α : Type}

/-- A checked value. -/
def ofChecked (c : Checked α) : Action σ α :=
  match c with
  | .ok a => pure a
  | .error f => throw (.fault f)

/-- The answer of an action and the state after it. -/
def runOn (x : Action σ α) (s : σ) : Except Failure α × σ := x s

end Action

end ShaderLowering
