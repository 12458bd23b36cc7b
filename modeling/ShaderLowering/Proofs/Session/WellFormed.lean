import ShaderLowering.Proofs.Session.Bindings
import ShaderLowering.Proofs.Session.Slots
import ShaderLowering.Proofs.Spirv.Listing

/-!
# Well-formed sessions

A session holds numbers of types, constants and variables, in its module and beside it, and nothing
but its operations keeps them in step.  In a well-formed session every number stands for an entry
that exists, and types refer to earlier types only.

Every session that operations can lead to is well formed, also where some of them broke off and left
types behind that nothing uses.  What a client does with such a session next cannot run into a
missing entry: its listing exists and shows every type in full, and giving out locations and
bindings does not fail for a reason of the module.
-/

namespace ShaderLowering

open Source (Variable)

namespace Session

variable {stage : Stage} {options : Options} {s : Session}

/-- No number in a session is dangling. -/
structure WellFormed (s : Session) : Prop where
  /-- Types refer to earlier types. -/
  types : s.emitter.target.WellFormed
  /-- The lengths of arrays, and the types of constants and variables, exist. -/
  closed : s.emitter.target.Closed
  /-- The variables that the session holds exist. -/
  held : s.Below s.size

/-- An operation that keeps the contract leaves a closed module closed. -/
theorem Grows.closed {s' : Session} (h : s.Grows s') (hs : s.emitter.target.Closed) :
    s'.emitter.target.Closed := h.emitter.closed hs

theorem Reachable.closed (h : Session.Reachable stage options s) : s.emitter.target.Closed := by
  induction h with
  | start => exact Spirv.Module.closed_empty
  | step hx hs ih => exact (hx.keeps hs.sound).step.closed ih

theorem Reachable.wellFormed (h : Session.Reachable stage options s) : s.WellFormed where
  types := h.sound.emitter.wellFormed
  closed := h.closed
  held := h.sound.held

end Session

namespace Lower

variable {stage : Stage} {options : Options} {s : Session}

/-- Giving out locations fails for no other reason than a location that is no word. -/
theorem decorateLocations_ne_error (hs : s.Sound) (e : LoweringError) :
    (decorateLocations.runOn s).1 ≠ .error (.error e) := by
  intro herror
  have hrun : (decorateLocations.runOn s).1 ≠ .error (.fault .overflow) := by
    rw [herror]
    exact nofun
  obtain ⟨s', taken, hanswer, -⟩ := locates_decorateLocations hs hrun
  rw [hanswer] at herror
  cases herror

/-- Giving out bindings answers. -/
theorem decorateBindings_ne_error (hs : s.Sound) (e : LoweringError) :
    (decorateBindings.runOn s).1 ≠ .error (.error e) := by
  rw [runOn_decorateBindings hs]
  exact nofun

end Lower

/-- **Nothing in a session is dangling.**  After any operations, answered or failed, every number
that the session or its module holds stands for an entry that exists, and types refer to earlier
types.  So the reading of every shape ends, the module has a listing, and neither giving out
locations nor giving out bindings fails with an error. -/
theorem Session.Reachable.nothing_dangling {stage : Stage} {options : Options} {s : Session}
    (h : Session.Reachable stage options s) :
    s.WellFormed ∧
      (∀ shape text, s.emitter.target.Reads shape text
        ↔ text = s.emitter.target.shapeText shape) ∧
      (∃ text, s.emitter.target.listing = .ok text) ∧
      (∀ e, (Lower.decorateLocations.runOn s).1 ≠ .error (.error e)) ∧
      ∀ e, (Lower.decorateBindings.runOn s).1 ≠ .error (.error e) := by
  have hwell := h.wellFormed
  refine ⟨hwell, fun shape text => ?_, hwell.closed.listing, ?_, ?_⟩
  · exact Spirv.Module.reads_iff hwell.types
  · exact Lower.decorateLocations_ne_error h.sound
  · exact Lower.decorateBindings_ne_error h.sound

/-- A local array. -/
def localArray : Variable where
  id := 1
  name := "weights"
  ty := .array (.scalar .single) (some 3)
  storage := .function

/-- A local variable of a structure whose second field has no type in the module. -/
def unsupportedLocal : Variable where
  id := 2
  name := "unsupported"
  ty := .struct "S" .absent
    (.cons "n" (.scalar .int32) {} {} (.cons "v" (.vector .single 5) {} {} .nil))
  storage := .function

/-- A session with a local array, after a local variable was asked for that cannot be. -/
def brokenOff : Session :=
  ((Lower.functionVariable unsupportedLocal).runOn
    ((Lower.functionVariable localArray).runOn (.start .pixel {})).2).2

theorem reachable_brokenOff : Session.Reachable .pixel {} brokenOff := by
  rw [brokenOff]
  exact .step (.functionVariable _) (.step (.functionVariable _) .start)

theorem Session.Reachable.nothing_dangling_brokenOff :
    Session.Reachable .pixel {} brokenOff ∧ brokenOff.WellFormed ∧
      (∀ shape text, brokenOff.emitter.target.Reads shape text
        ↔ text = brokenOff.emitter.target.shapeText shape) ∧
      (∃ text, brokenOff.emitter.target.listing = .ok text) ∧
      (∀ e, (Lower.decorateLocations.runOn brokenOff).1 ≠ .error (.error e)) ∧
      ∀ e, (Lower.decorateBindings.runOn brokenOff).1 ≠ .error (.error e) :=
  ⟨reachable_brokenOff, reachable_brokenOff.nothing_dangling⟩

-- the variable that cannot be leaves the type of its first field behind
example : brokenOff.size = 1 ∧ brokenOff.emitter.target.types.entries.map (·.shape) =
    [.scalar .float32, .scalar .uint32, .array 0 0, .scalar .int32] := by
  decide +kernel

end ShaderLowering
