import ShaderLowering.Proofs.Emission.Reports
import ShaderLowering.Proofs.Session.Decoration

/-!
# The books of a session

The books of a session are those of its emitter: what an operation does to anything else is not in
them.  Where an operation looks for several things that can be wrong, it reports a list of findings
and answers whether there are none; such a list is empty or has an error in it.
-/

namespace ShaderLowering

open Source (Position)
open Action.Contract (keeps_pure keeps_throw)
open Action.Ledger (settles_modify)

/-- The options and the stage of a session. -/
abbrev Session.At (stage : Stage) (options : Options) (s : Session) : Prop :=
  s.emitter.options = options ∧ s.stage = stage

namespace Lower

/-- The books of a session at a stage. -/
abbrev ledger (stage : Stage) (options : Options) (allowed : EmissionKey → Prop) :
    Action.Ledger Session :=
  (Emit.ledger options allowed).on (·.emitter) (·.stage = stage)

/-- The books of a session in which nothing but errors is kept. -/
abbrev errorLedger (stage : Stage) (options : Options) : Action.Ledger Session :=
  (Emit.errorLedger options).on (·.emitter) (·.stage = stage)

variable {stage : Stage} {options : Options} {allowed : EmissionKey → Prop} {α : Type}
  {P : α → Prop} {s s' : Session}

/-- An action of the emitter accounts for its outcome in the books of a session. -/
theorem accounts_emit {L : Action.Ledger Emitter} {x : Emit α} (hs : s.stage = stage)
    (hx : L.Accounts P x s.emitter) :
    (L.on (·.emitter) (·.stage = stage) : Action.Ledger Session).Accounts P (emit x) s where
  invariant := ⟨hx.invariant, hs⟩
  step := hx.step
  error := hx.error
  counted := hx.counted
  clean := hx.clean

/-- A change of what is not in the books. -/
theorem settles_modify_rest {L : Action.Ledger Emitter} {f : Session → Session}
    (hs : L.invariant s.emitter ∧ s.stage = stage) (hemitter : (f s).emitter = s.emitter)
    (hstage : (f s).stage = s.stage) :
    (L.on (·.emitter) (·.stage = stage) : Action.Ledger Session).Settles
      (modify f : Lower Unit) s := by
  have hinvariant : L.invariant (f s).emitter := hemitter ▸ hs.1
  have hclean : L.clean s.emitter (f s).emitter := hemitter.symm ▸ L.clean_refl s.emitter
  exact settles_modify ⟨hinvariant, hstage.trans hs.2⟩ hclean

theorem owes_report (hs : s.At stage options) {f : Finding} (hf : f.severity.isError = true)
    (position : Position) :
    (ledger stage options allowed).Owes True (report f position) s :=
  accounts_emit hs.2 (Emit.owes_report hs.1 hf position)

/-- A declaration that is refused has been reported. -/
theorem accounts_refuse (hs : s.At stage options) {f : Finding} (hf : f.severity.isError = true)
    (position : Position) :
    (ledger stage options allowed).Accounts P (refuse f position : Lower α) s :=
  (owes_report hs hf position).bind_counted fun _ _ hs' =>
    ⟨keeps_throw hs' _, fun _ h => by cases h⟩

/-- An error that is reported is answered with `false`. -/
theorem judges_report_false (hs : s.At stage options) {f : Finding}
    (hf : f.severity.isError = true) (position : Position) :
    (ledger stage options allowed).Judges (do report f position; return false : Lower Bool) s :=
  (owes_report hs hf position).bind_counted fun _ _ hs' => ⟨keeps_pure hs' _, fun _ h => by
    cases h
    rfl⟩

/-! ### Lists of findings -/

/-- If there are findings, one of them is an error. -/
def Grave (findings : List (Finding × Position)) : Prop :=
  findings ≠ [] → ∃ f ∈ findings, f.1.severity.isError = true

theorem grave_of_forall {findings : List (Finding × Position)}
    (h : ∀ f ∈ findings, f.1.severity.isError = true) : Grave findings := fun hne =>
  ⟨findings.head hne, List.head_mem hne, h _ (List.head_mem hne)⟩

theorem errorCount_reported (s : Session) (findings : List (Finding × Position)) :
    (s.reported findings).emitter.log.errorCount =
      s.emitter.log.errorCount + findings.countP (·.1.severity.isError) := by
  show ((s.emitter.log.entries ++ _).filter _).length = _
  rw [List.filter_append, List.length_append, List.filter_map, List.length_map,
    List.countP_eq_length_filter]
  rfl

/-- An action that does nothing to what is in the books but to report findings. -/
theorem accounts_of_findings {x : Lower α} {a : α} {findings : List (Finding × Position)}
    (hrun : x.runOn s = (.ok a, s')) (howes : P a ↔ findings ≠ []) (hgrave : Grave findings)
    (hs' : s'.At stage options) (hlog : s'.emitter.log = (s.reported findings).emitter.log)
    (hknown : s'.emitter.known = s.emitter.known) :
    (ledger stage options allowed).Accounts P x s := by
  have hcount := congrArg DiagnosticLog.errorCount hlog
  rw [errorCount_reported] at hcount
  have hle : s.emitter.log.errorCount ≤ s'.emitter.log.errorCount :=
    hcount ▸ Nat.le_add_right _ _
  have hlearns : s.emitter.Learns options allowed s'.emitter := .of_same hknown hle
  refine ⟨⟨hrun ▸ hs', hrun ▸ hlearns⟩, fun err h => ?_, fun b h hb => ?_, fun b h hb => ?_⟩ <;>
    rw [hrun] at h ⊢ <;> cases h
  · -- one of the findings is counted
    have hpos := List.countP_pos_iff.2 (hgrave (howes.1 hb))
    show s.emitter.log.errorCount < s'.emitter.log.errorCount
    omega
  · -- there are no findings
    have hnil : findings = [] := Classical.not_not.1 fun hne => hb (howes.2 hne)
    rw [hnil, List.countP_nil] at hcount
    refine ⟨hlearns, iff_of_false (Nat.not_lt.2 (Nat.le_of_eq hcount)) ?_⟩
    rintro ⟨key, -, hold, hnew⟩
    rw [Emitter.Knows, hknown] at hnew
    exact hold hnew

/-- Findings that are reported are answered with `false`. -/
theorem judges_of_findings {x : Lower Bool} {findings : List (Finding × Position)}
    (hrun : x.runOn s = (.ok findings.isEmpty, s')) (hgrave : Grave findings)
    (hs' : s'.At stage options) (hlog : s'.emitter.log = (s.reported findings).emitter.log)
    (hknown : s'.emitter.known = s.emitter.known) :
    (ledger stage options allowed).Judges x s :=
  accounts_of_findings hrun (by simp) hgrave hs' hlog hknown

theorem owes_reportAll (hs : s.At stage options) {findings : List (Finding × Position)}
    (hgrave : Grave findings) :
    (ledger stage options allowed).Owes (findings ≠ []) (reportAll findings) s :=
  accounts_of_findings (runOn_reportAll findings s) Iff.rfl hgrave hs rfl rfl

theorem judges_reportAll (hs : s.At stage options) {findings : List (Finding × Position)}
    (hgrave : Grave findings) :
    (ledger stage options allowed).Judges
      (do reportAll findings; return findings.isEmpty : Lower Bool) s :=
  judges_of_findings (Action.runOn_bind_of_ok (runOn_reportAll findings s)) hgrave hs rfl rfl

end Lower

end ShaderLowering
