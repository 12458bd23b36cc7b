import ShaderLowering.Proofs.Session.InterfaceReports
import ShaderLowering.Proofs.Session.ResourceReports

/-!
# Verdicts of operations

An operation fails with an error or answers whether nothing is wrong.  No failure is silent:
whatever was done before, also the same failing operation, an error is reported whenever one fails
or answers `false` (`Session.reportsError_of_fails`).

The verdict of an entry point is weaker than it seems.  What is wrong with the type of a leaf is
reported when the type is emitted, and need not keep it from being emitted; then the answer is
`true` (`Session.reportsError_iff_of_accepted`).  Without resources in the types of the leaves the
verdict can be trusted (`Session.not_reportsError_of_resourceFree`).
-/

namespace ShaderLowering

open Source (Ty Param EntryPoint)

/-! ## Verdicts -/

/-- What an operation answers: whether nothing is wrong, where it says so. -/
def Operation.verdict : Operation → Lower Bool
  | interface op => op.action
  | resource .bindings => Lower.decorateBindings
  | op => do
    op.action
    return true

namespace Session

/-- The operation fails with an error or answers that something is wrong. -/
def Fails (s : Session) (op : Operation) : Prop :=
  (op.verdict.runOn s).1 = .ok false ∨ ∃ err, (op.verdict.runOn s).1 = .error (.error err)

/-- The second session has all reports of the first one, and errors among the further ones. -/
def ReportsError (s s' : Session) : Prop :=
  ∃ reports, s'.emitter.log.entries = s.emitter.log.entries ++ reports ∧
    ∃ d ∈ reports, d.severity.isError = true

variable {stage : Stage} {options : Options} {s s' : Session} {op : Operation}

theorem reportsError_iff (h : s.emitter.log.entries <+: s'.emitter.log.entries) :
    s.ReportsError s' ↔ s.emitter.log.errorCount < s'.emitter.log.errorCount := by
  obtain ⟨reports, hreports⟩ := h
  have hcount : s'.emitter.log.errorCount =
      s.emitter.log.errorCount + reports.countP (·.severity.isError) := by
    rw [DiagnosticLog.errorCount, ← hreports, List.filter_append, List.length_append,
      ← List.countP_eq_length_filter (l := reports)]
    rfl
  rw [hcount, Nat.lt_add_right_iff_pos, List.countP_pos_iff]
  constructor
  · rintro ⟨reports', hreports', herror⟩
    rw [← hreports, List.append_cancel_left_eq] at hreports'
    exact hreports' ▸ herror
  · exact fun herror => ⟨reports, hreports.symm, herror⟩

end Session

/-! ## Failures -/

namespace Lower

variable {stage : Stage} {options : Options} {s : Session} {α : Type}

theorem settles_forget {x : Lower α} (hx : (errorLedger stage options).Settles x s) :
    (errorLedger stage options).Settles (forget x) s :=
  hx.bind fun _ _ hs' _ => Action.Ledger.settles_pure hs' ()

theorem judges_createHullOutput (hs : s.At stage options) (p : Param) (points : Nat)
    (invocation : Option Nat) :
    (errorLedger stage options).Judges (createHullOutput p points invocation) s :=
  (judges_createDeclaration hs _ _ _ _ fun _ _ _ _ => trivial).weak_of_imp fun _ h => h

theorem judges_bindings (hs : s.At stage options) (hsound : s.Sound) :
    (errorLedger stage options).Judges decorateBindings s := by
  have hjudges : (ledger stage options fun _ => True).Judges decorateBindings s :=
    judges_decorateBindings hs hsound
  exact hjudges.weak_of_imp fun _ h => h

theorem judges_interface (hs : Session.Reachable stage options s) (op : InterfaceOperation) :
    ∃ stage', (errorLedger stage' options).Judges op.action s := by
  have hat : Session.At s.stage options s := ⟨hs.options_eq, rfl⟩
  cases op with
  | input p perPatch =>
    exact ⟨_, (judges_createInput hat fun _ _ _ _ => trivial).weak_of_imp fun _ h => h⟩
  | output p perPatch =>
    exact ⟨_, (judges_createOutput hat fun _ _ _ _ => trivial).weak_of_imp fun _ h => h⟩
  | hullOutput p points invocation =>
    exact ⟨_, judges_createHullOutput hat p points invocation⟩
  | locations => exact ⟨_, (judges_decorateLocations hat hs.sound).weak_of_imp fun _ h => h⟩
  | entryPoint e =>
    exact ⟨_, (judges_entryPoint hs.sound hs.options_eq e fun _ _ _ _ => trivial).weak_of_imp
      fun _ h => h⟩

/-- The other operations say nothing by their answer, so they owe something only where they fail. -/
theorem settles_action (hs : s.At stage options) (op : Operation) (hop : op.interface? = none)
    (hbindings : op ≠ .resource .bindings) :
    (errorLedger stage options).Settles op.action s := by
  cases op with
  | interface op => cases hop
  | resource op =>
    cases op with
    | block b => exact settles_forget (settles_block hs b)
    | blockVariable v => exact settles_forget (settles_blockVariable hs v)
    | pushConstant v => exact settles_forget (settles_pushConstant hs v)
    | globalBlock vs => exact settles_forget (settles_globalBlock hs vs)
    | globalVariable v => exact settles_forget (settles_globalVariable hs v)
    | bindings => exact absurd rfl hbindings
  | declaration d => exact settles_forget (settles_create hs d)
  | aliasType ty => exact settles_forget (settles_aliasType hs ty)
  | type ty rule expected =>
    exact settles_forget (accounts_emit hs.2 (Emit.settles_ofTy_expecting ty rule {} _ hs.1))
  | counterType => exact settles_forget (settles_counterType hs)
  | moveTo position => exact settles_moveTo hs position

/-- Every operation answers for what it reports. -/
theorem judges_verdict (hs : Session.Reachable stage options s) (op : Operation) :
    ∃ stage', (errorLedger stage' options).Judges op.verdict s := by
  have hat : Session.At s.stage options s := ⟨hs.options_eq, rfl⟩
  rw [Operation.verdict.eq_def]
  split
  · exact judges_interface hs _
  · exact ⟨_, judges_bindings hat hs.sound⟩
  · rename_i hinterface hbindings
    have hop : op.interface? = none := by
      cases op with
      | interface op => exact absurd rfl (hinterface op)
      | _ => rfl
    exact ⟨_, (settles_action hat op hop hbindings).succeeds⟩

end Lower

namespace Session

variable {stage : Stage} {options : Options} {s s' : Session} {op : Operation}

/-- An operation and its verdict leave the same session behind. -/
theorem after_eq_verdict (s : Session) (op : Operation) :
    s.after op = (op.verdict.runOn s).2 := by
  have hforget : ∀ {α β : Type} (x : Lower α) (b : β),
      ((do let _ ← x; return b : Lower β).runOn s).2 = (x.runOn s).2 := by
    intro α β x b
    rcases hrun : x.runOn s with ⟨err | a, s₁⟩
    · rw [Action.runOn_bind_of_error hrun]
    · rw [Action.runOn_bind_of_ok hrun]
      rfl
  rw [after, Operation.verdict.eq_def]
  split
  · exact hforget _ ()
  · exact hforget _ ()
  · exact (hforget _ true).symm

theorem log_after (hs : s.Sound) (op : Operation) :
    s.emitter.log.entries <+: (s.after op).emitter.log.entries := by
  obtain ⟨_, x, hx, hafter⟩ := s.exists_isOperation op
  exact hafter ▸ (hx.keeps hs).step.emitter.log

/-- **No failure is silent.**  In every session that operations lead to, also in one where the same
operation has failed before, an operation that fails with an error or answers that something is
wrong has reported an error. -/
theorem reportsError_of_fails (hs : Session.Reachable stage options s) (h : s.Fails op) :
    s.ReportsError (s.after op) := by
  -- reports are only added, so it is enough to count the errors
  rw [reportsError_iff (log_after hs.sound op), after_eq_verdict]
  obtain ⟨stage', hjudges⟩ := Lower.judges_verdict hs op
  rcases h with hfalse | ⟨err, herror⟩
  · exact hjudges.counted false hfalse rfl
  · exact hjudges.error err herror

/-- A variable for a buffer that is missing its element. -/
def unformedBuffer : Operation :=
  .resource (.globalVariable {
    id := 1, name := "b", ty := .resource (.structured .readWrite) .absent, storage := .global })

/-- The failure is reported again when the same variable is tried a second time. -/
theorem reportsError_of_fails_again :
    Session.Reachable .vertex {} ((start .vertex {}).run [unformedBuffer]) ∧
      (start .vertex {}).Fails unformedBuffer ∧
      ((start .vertex {}).run [unformedBuffer]).Fails unformedBuffer ∧
      ((start .vertex {}).run [unformedBuffer]).ReportsError
        ((start .vertex {}).run [unformedBuffer, unformedBuffer]) := by
  have hreach : Session.Reachable .vertex {} ((start .vertex {}).run [unformedBuffer]) :=
    Session.Reachable.start.run _
  have hfails : ((start .vertex {}).run [unformedBuffer]).Fails unformedBuffer :=
    .inr ⟨.fatal "RWStructuredBuffer requires a template type" {}, by decide +kernel⟩
  refine ⟨hreach, .inr ⟨.fatal "RWStructuredBuffer requires a template type" {}, ?_⟩, hfails,
    reportsError_of_fails hreach hfails⟩
  decide +kernel

/-- An entry point that is accepted has emitted only flawed types of its leaves, and has reported
errors exactly if some are new. -/
theorem clean_of_accepted (hs : Session.Reachable stage options s) {e : EntryPoint}
    (h : (Lower.entryPoint e).runOn s = (.ok true, s')) :
    s.emitter.Learns options (· ∈ e.emitted options) s'.emitter ∧
      (s.ReportsError s' ↔ s.emitter.LearnsFlaw options s'.emitter) := by
  have hjudges : (Lower.ledger e.stage options (· ∈ e.emitted options)).Judges
      (Lower.entryPoint e) s :=
    Lower.judges_entryPoint hs.sound hs.options_eq e fun l hl key hkey =>
      List.mem_flatMap.2 ⟨l, hl, hkey⟩
  have hclean := hjudges.clean true (congrArg Prod.fst h) nofun
  have hlog := (Lower.keeps_entryPoint hs.sound e).step.emitter.log
  rw [h] at hclean hlog
  exact ⟨hclean.1, (reportsError_iff hlog).trans hclean.2⟩

/-- An entry point without resources in the types of its leaves is accepted only if no error was
reported. -/
theorem not_reportsError_of_resourceFree (hs : Session.Reachable stage options s) {e : EntryPoint}
    (hleaves : ∀ l ∈ e.loweredLeaves, l.decl.ty.IsResourceFree)
    (h : (Lower.entryPoint e).runOn s = (.ok true, s')) : ¬s.ReportsError s' := by
  obtain ⟨hlearns, herror⟩ := clean_of_accepted hs h
  rw [herror]
  rintro ⟨key, hflaw, hold, hnew⟩
  obtain ⟨l, hl, hkey⟩ := List.mem_flatMap.1 ((hlearns.introduced key hflaw hnew).resolve_left hold)
  have hfree : l.decl.ty.onInterface.IsResourceFree :=
    (Ty.mentions_onInterface _ _).trans (hleaves l hl)
  exact Bool.false_ne_true ((Ty.isFlawed_of_emitted _ {} hfree key hkey).symm.trans hflaw)

/-- **What an accepted entry point reports.**  If the whole interface of an entry point was created
and the answer is that nothing is wrong, an error was reported all the same exactly if a flawed
structure or resource in the type of one of its leaves was emitted for the first time. -/
theorem reportsError_iff_of_accepted (hs : Session.Reachable stage options s) {e : EntryPoint}
    (h : (Lower.entryPoint e).runOn s = (.ok true, s')) :
    s.ReportsError s' ↔ ∃ key ∈ e.emitted options, key.isFlawed options = true ∧
      ¬s.emitter.Knows key ∧ s'.emitter.Knows key := by
  obtain ⟨hlearns, herror⟩ := clean_of_accepted hs h
  refine herror.trans ⟨?_, ?_⟩
  · rintro ⟨key, hflaw, hold, hnew⟩
    exact ⟨key, (hlearns.introduced key hflaw hnew).resolve_left hold, hflaw, hold, hnew⟩
  · rintro ⟨key, -, hflaw, hold, hnew⟩
    exact ⟨key, hflaw, hold, hnew⟩

/-- A vertex shader with a texture among its inputs whose element does not fit into a register. -/
def wideTexture : EntryPoint where
  stage := .vertex
  function := {
    id := 1
    name := "main"
    params := [
      { id := 2
        name := "t"
        ty := .resource (.texture .two false false false) (.present (.matrix .single 3 3))
        attributes := { semantic := some "TEXCOORD" } }] }

/-- The session after it was lowered. -/
def wideTextureSession : Session := ((Lower.entryPoint wideTexture).runOn (.start .vertex {})).2

theorem runOn_wideTexture :
    (Lower.entryPoint wideTexture).runOn (.start .vertex {}) = (.ok true, wideTextureSession) :=
  Prod.ext (by decide +kernel) rfl

theorem reportsError_iff_of_accepted_wideTexture :
    (Lower.entryPoint wideTexture).runOn (.start .vertex {}) = (.ok true, wideTextureSession) ∧
      ((start .vertex {}).ReportsError wideTextureSession ↔
        ∃ key ∈ wideTexture.emitted {}, key.isFlawed {} = true ∧
          ¬(start .vertex {}).emitter.Knows key ∧ wideTextureSession.emitter.Knows key) :=
  ⟨runOn_wideTexture, reportsError_iff_of_accepted .start runOn_wideTexture⟩

/-- An error is reported about its texture, but the answer is that nothing is wrong. -/
theorem reportsError_of_accepted_wideTexture :
    Session.Reachable .vertex {} (start .vertex {}) ∧
      (Lower.entryPoint wideTexture).runOn (.start .vertex {}) = (.ok true, wideTextureSession) ∧
      (start .vertex {}).ReportsError wideTextureSession := by
  refine ⟨.start, runOn_wideTexture, wideTextureSession.emitter.log.entries, rfl, ?_⟩
  decide +kernel

end Session

end ShaderLowering
