import ShaderLowering.Proofs.Emission.Pointers
import ShaderLowering.Proofs.Ledger

/-!
# Flaws of types

Some errors in a type do not keep it from being emitted: members of a structure that overlap, and
elements of images that do not fit or have no format.  They are reported when the type is emitted,
and the emission answers.  Since a type that is known is not emitted again, they are reported only
once.

The books of the emitter are kept by `Emit.ledger`.  Every emission that fails with an error has
reported one, and one that answers has reported errors exactly if it emitted a flawed structure or
resource that was not known before.
-/

namespace ShaderLowering

open Source (Ty OptionalTy Fields Field Scalar Resource Record)
open Spirv (TypeId)

/-! ## What is flawed -/

/-- Whether members of a structure overlap under a memory rule. -/
def hasOverlaps (options : Options) (rule : Layout.Rule) (parts : List Field) : Bool :=
  decide (rule ≠ .unlaid) &&
    (Layout.unplacedParts options rule parts >>= Layout.RecordLayout.of rule).toOption.any
      fun layout => !layout.overlaps.isEmpty

namespace Texel

/-- Whether a type describes no element of an image. -/
def isUndescribed (elem : Ty) : Bool :=
  match elem.shape with
  | .scalar _ | .vector _ _ | .matrix _ _ _ => false
  | .struct _ _ fields =>
    match joinFields none fields.toList with
    | .ok (.error _) => true
    | _ => false
  | _ => true

/-- Whether the element that a type describes does not fit into one register. -/
def isTooWide (options : Options) (elem : Ty) : Bool :=
  match Written.describedTexel elem with
  | .ok (some t) => (t.components options).toOption.any fun n => decide (4 < n)
  | _ => false

/-- Whether the element of an image is replaced. -/
def isReplaced (options : Options) (elem : Option Ty) : Bool :=
  elem.any fun elem => isUndescribed elem || isTooWide options elem

/-- Whether the element of an image has no storage format. -/
def hasNoFormat (options : Options) (elem : Option Ty) : Bool :=
  (Written.texel options elem).toOption.any fun t => decide (t.format options = .unknown)

end Texel

/-- Whether members overlap in the content of a constant or texture buffer. -/
def contentOverlaps (options : Options) (kind : Resource) (rule : Layout.Rule) (elem : Ty) : Bool :=
  elem.record?.any fun r => hasOverlaps options (contentRule options kind rule).1 r.parts

/-- Whether something is wrong with a resource that is emitted all the same. -/
def isFlawedResource (options : Options) (rule : Layout.Rule) : Resource → Option Ty → Bool
  | .texture _ _ _ writable, elem =>
    Texel.isReplaced options elem || (writable && Texel.hasNoFormat options elem)
  | .buffer writable, elem =>
    (writable && (elem.bind (·.record?)).isSome) || (Texel.isReplaced options elem
      || Texel.hasNoFormat options elem)
  | .subpassInput _, elem => Texel.isReplaced options elem
  | .constantBuffer, some elem => contentOverlaps options .constantBuffer rule elem
  | .textureBuffer, some elem => contentOverlaps options .textureBuffer rule elem
  | _, _ => false

/-- Whether something is wrong with a type that is emitted all the same. -/
def EmissionKey.isFlawed (options : Options) (key : EmissionKey) : Bool :=
  match key.shape with
  | .struct name base fields => hasOverlaps options key.rule (Record.parts ⟨name, base, fields⟩)
  | .resource kind elem => isFlawedResource options key.rule kind elem.toOption
  | _ => false

namespace Source

mutual

/-- The structures and resources in a type, as they are emitted for it. -/
def Ty.emitted (options : Options) : Ty → Layout.Rule → Layout.Orientation → List EmissionKey
  | .alias _ target, rule, o => target.emitted options rule o
  | .oriented order target, rule, o => target.emitted options rule (o.annotate order)
  | .array elem _, rule, o => elem.emitted options rule o.element
  | .struct name base fields, rule, o =>
    ⟨.struct name base fields, rule, o.order?⟩ :: (base.emitted options rule
      ++ fields.emitted options rule)
  | .resource kind elem, rule, o =>
    ⟨.resource kind elem, rule, o.order?⟩ :: elem.emittedIn options kind rule
  | _, _, _ => []

/-- The structures and resources in a base structure. -/
def OptionalTy.emitted (options : Options) : OptionalTy → Layout.Rule → List EmissionKey
  | .absent, _ => []
  | .present ty, rule => ty.emitted options rule {}

/-- The structures and resources in fields. -/
def Fields.emitted (options : Options) : Fields → Layout.Rule → List EmissionKey
  | .nil, _ => []
  | .cons _ ty _ _ rest, rule => ty.emitted options rule {} ++ rest.emitted options rule

/-- The structures and resources in the element of a resource. -/
def OptionalTy.emittedIn (options : Options) :
    OptionalTy → Resource → Layout.Rule → List EmissionKey
  | .present elem, .structured _, rule => elem.emitted options (Emit.elementRule options rule) {}
  | .present elem, .stream _, rule => elem.emitted options rule {}
  | .present elem, .inputPatch _, _ | .present elem, .outputPatch _, _ =>
    elem.emitted options .unlaid {}
  | .present elem, .constantBuffer, rule =>
    elem.emittedContent options (contentRule options .constantBuffer rule).1
  | .present elem, .textureBuffer, rule =>
    elem.emittedContent options (contentRule options .textureBuffer rule).1
  | _, _, _ => []

/-- The structures and resources in the content of a constant or texture buffer. -/
def Ty.emittedContent (options : Options) : Ty → Layout.Rule → List EmissionKey
  | .alias _ target, rule | .oriented _ target, rule => target.emittedContent options rule
  | .struct _ base fields, rule => base.emitted options rule ++ fields.emitted options rule
  | _, _ => []

end

/-- The type mentions no resource at all. -/
abbrev Ty.IsResourceFree (ty : Ty) : Prop := ty.mentions (fun _ => true) = false

/-- Replacing truth values does not bring in a resource. -/
theorem Ty.mentions_onInterface (kinds : Resource → Bool) (ty : Ty) :
    ty.onInterface.mentions kinds = ty.mentions kinds := by
  cases ty with
  | void | scalar | vector | matrix | struct | resource => rfl
  | array elem length => exact mentions_onInterface kinds elem
  | «alias» name target => exact mentions_onInterface kinds target
  | oriented order target => exact mentions_onInterface kinds target

/-- A structure without a memory layout has no members that overlap. -/
theorem isFlawed_unlaid_struct {options : Options} {name : String} {base : OptionalTy}
    {fields : Fields} {order : Option MatrixOrder} :
    EmissionKey.isFlawed options ⟨.struct name base fields, .unlaid, order⟩ = false := rfl

mutual

/-- Nothing is flawed in a type without a memory layout that mentions no resource. -/
theorem Ty.isFlawed_of_emitted {options : Options} : (ty : Ty) → (o : Layout.Orientation) →
    ty.IsResourceFree → ∀ key ∈ ty.emitted options .unlaid o, key.isFlawed options = false
  | .alias _ target, o, h => target.isFlawed_of_emitted o h
  | .oriented order target, o, h => target.isFlawed_of_emitted (o.annotate order) h
  | .array elem _, o, h => elem.isFlawed_of_emitted o.element h
  | .struct _ base fields, _, h =>
    have h := Bool.or_eq_false_iff.1 h
    List.forall_mem_cons.2 ⟨isFlawed_unlaid_struct,
      List.forall_mem_append.2 ⟨base.isFlawed_of_emitted h.1, fields.isFlawed_of_emitted h.2⟩⟩
  | .void, _, _ | .scalar _, _, _ | .vector _ _, _, _ | .matrix _ _ _, _, _ =>
    List.forall_mem_nil _

theorem OptionalTy.isFlawed_of_emitted {options : Options} : (base : OptionalTy) →
    base.mentions (fun _ => true) = false →
    ∀ key ∈ base.emitted options .unlaid, key.isFlawed options = false
  | .absent, _ => List.forall_mem_nil _
  | .present ty, h => ty.isFlawed_of_emitted {} h

theorem Fields.isFlawed_of_emitted {options : Options} : (fields : Fields) →
    fields.mention (fun _ => true) = false →
    ∀ key ∈ fields.emitted options .unlaid, key.isFlawed options = false
  | .nil, _ => List.forall_mem_nil _
  | .cons _ ty _ _ rest, h =>
    have h := Bool.or_eq_false_iff.1 h
    List.forall_mem_append.2 ⟨ty.isFlawed_of_emitted {} h.1, rest.isFlawed_of_emitted h.2⟩

end

end Source

/-! ## The books of an emitter -/

namespace Emitter

/-- Whether the emitter remembers a type. -/
def Knows (e : Emitter) (key : EmissionKey) : Prop := (e.known.lookup key).isSome = true

/-- Nothing is forgotten, and the flawed types that are new are among the allowed ones. -/
structure Learns (options : Options) (allowed : EmissionKey → Prop) (e e' : Emitter) : Prop where
  retains : ∀ key, e.Knows key → e'.Knows key
  introduced : ∀ key, key.isFlawed options = true → e'.Knows key → e.Knows key ∨ allowed key
  errors : e.log.errorCount ≤ e'.log.errorCount

/-- Some flawed type is known in the second emitter that is not known in the first one. -/
def LearnsFlaw (options : Options) (e e' : Emitter) : Prop :=
  ∃ key, key.isFlawed options = true ∧ ¬e.Knows key ∧ e'.Knows key

variable {options : Options} {allowed : EmissionKey → Prop} {e e' e'' : Emitter}

theorem Learns.refl (e : Emitter) : e.Learns options allowed e :=
  ⟨fun _ => id, fun _ _ => .inl, Nat.le_refl _⟩

theorem Learns.trans (h : e.Learns options allowed e') (h' : e'.Learns options allowed e'') :
    e.Learns options allowed e'' where
  retains key hkey := h'.retains key (h.retains key hkey)
  introduced key hflaw hkey :=
    (h'.introduced key hflaw hkey).elim (h.introduced key hflaw) .inr
  errors := Nat.le_trans h.errors h'.errors

theorem knows_cons (e : Emitter) {key key' : EmissionKey} (id : TypeId) :
    Knows { e with known := (key, id) :: e.known } key' ↔ key' = key ∨ e.Knows key' := by
  rw [Knows, Knows, List.lookup_cons]
  by_cases h : key' = key
  · simp [h]
  · rw [beq_false_of_ne h, or_iff_right h]

theorem Learns.of_same (hknown : e'.known = e.known) (hlog : e.log.errorCount ≤ e'.log.errorCount) :
    e.Learns options allowed e' := by
  have hknows : ∀ key, e'.Knows key ↔ e.Knows key := fun key => by rw [Knows, Knows, hknown]
  exact ⟨fun key => (hknows key).2, fun key _ hkey => .inl ((hknows key).1 hkey), hlog⟩

theorem Learns.remember (e : Emitter) {key : EmissionKey} {id : TypeId}
    (hkey : key.isFlawed options = true → allowed key) :
    e.Learns options allowed { e with known := (key, id) :: e.known } where
  retains key' h := (knows_cons e id).2 (.inr h)
  introduced key' hflaw h := by
    rcases (knows_cons e id).1 h with rfl | h
    · exact .inr (hkey hflaw)
    · exact .inl h
  errors := Nat.le_refl _

/-- A flawed type that is new over two steps is new in one of them. -/
theorem learnsFlaw_trans_iff (h : e.Learns options allowed e')
    (h' : e'.Learns options allowed e'') :
    e.LearnsFlaw options e'' ↔ e.LearnsFlaw options e' ∨ e'.LearnsFlaw options e'' := by
  constructor
  · rintro ⟨key, hflaw, hold, hnew⟩
    by_cases hkey : e'.Knows key
    · exact .inl ⟨key, hflaw, hold, hkey⟩
    · exact .inr ⟨key, hflaw, hkey, hnew⟩
  · rintro (⟨key, hflaw, hold, hnew⟩ | ⟨key, hflaw, hold, hnew⟩)
    · exact ⟨key, hflaw, hold, h'.retains key hnew⟩
    · exact ⟨key, hflaw, fun hkey => hold (h.retains key hkey), hnew⟩

end Emitter

namespace Emit

open Action.Contract (keeps_get_bind keeps_throw)
open Action.Ledger (Accounts settles_pure settles_modify accounts_get_bind)
open Emitter (Knows Learns LearnsFlaw)

/-- The books of an emitter: errors are counted, and a change is clean if errors came with new
flawed types and these with errors. -/
def ledger (options : Options) (allowed : EmissionKey → Prop) : Action.Ledger Emitter where
  invariant e := e.options = options
  step := Learns options allowed
  refl := .refl
  trans := .trans
  count e := e.log.errorCount
  le h := h.errors
  clean e e' := e.Learns options allowed e' ∧
    (e.log.errorCount < e'.log.errorCount ↔ e.LearnsFlaw options e')
  clean_refl e := ⟨.refl e, iff_of_false (Nat.lt_irrefl _) fun ⟨_, _, hold, hnew⟩ => hold hnew⟩
  clean_trans h h' := by
    refine ⟨h.1.trans h'.1, ?_⟩
    rw [Emitter.learnsFlaw_trans_iff h.1 h'.1, ← h.2, ← h'.2]
    have hle := h.1.errors
    have hle' := h'.1.errors
    omega
  step_of_clean h := h.1

variable {options : Options} {allowed : EmissionKey → Prop} {α : Type} {P : α → Prop}
  {e : Emitter}

/-! ### Single steps -/

/-- What neither reports nor learns anything leaves the books as they are. -/
theorem settles_of_same {x : Emit α} (he : e.options = options)
    (hlog : (x.runOn e).2.log = e.log) (hknown : (x.runOn e).2.known = e.known)
    (hoptions : (x.runOn e).2.options = e.options)
    (herror : ∀ err, (x.runOn e).1 ≠ .error (.error err)) :
    (ledger options allowed).Settles x e where
  invariant := hoptions.trans he
  step := .of_same hknown (Nat.le_of_eq (congrArg _ hlog.symm))
  error err h := absurd h (herror err)
  counted _ _ := False.elim
  clean _ _ _ := by
    refine ⟨.of_same hknown (Nat.le_of_eq (congrArg _ hlog.symm)), iff_of_false ?_ ?_⟩
    · rw [hlog]
      exact Nat.lt_irrefl _
    · rintro ⟨key, -, hold, hnew⟩
      rw [Knows, hknown] at hnew
      exact hold hnew

theorem settles_onTarget (he : e.options = options) (f : Spirv.Module → α × Spirv.Module) :
    (ledger options allowed).Settles (onTarget f) e :=
  settles_of_same he rfl rfl rfl nofun

theorem settles_require (he : e.options = options) (c : Spirv.Capability) :
    (ledger options allowed).Settles (require c) e :=
  settles_of_same he rfl rfl rfl nofun

theorem settles_declare (he : e.options = options) (c : Option Spirv.Capability)
    (x : Option Spirv.Extension) : (ledger options allowed).Settles (declare c x) e :=
  settles_of_same he rfl rfl rfl nofun

theorem settles_moveTo (he : e.options = options) (position : Source.Position) :
    (ledger options allowed).Settles (moveTo position) e :=
  settles_of_same he rfl rfl rfl nofun

theorem errorCount_push (log : DiagnosticLog) (d : Diagnostic) :
    (log.push d).errorCount = log.errorCount + if d.severity.isError then 1 else 0 := by
  rw [DiagnosticLog.push, DiagnosticLog.errorCount, List.filter_append, List.length_append]
  congr 1
  cases h : d.severity.isError <;> simp [h]

theorem owes_report (he : e.options = options) {f : Finding} (hf : f.severity.isError = true)
    (position : Source.Position) : (ledger options allowed).Owes True (report f position) e := by
  have hcount : (e.log.push (f.diagnostic position)).errorCount = e.log.errorCount + 1 := by
    rw [errorCount_push]
    exact congrArg _ (if_pos hf)
  have hlt := Nat.lt_of_lt_of_eq (Nat.lt_succ_self _) hcount.symm
  exact Action.Ledger.owes_modify he (.of_same rfl (Nat.le_of_lt hlt)) hlt

/-- A remark leaves the books as they are. -/
theorem settles_report (he : e.options = options) {f : Finding} (hf : f.severity.isError = false)
    (position : Source.Position) : (ledger options allowed).Settles (report f position) e := by
  have hcount : (e.log.push (f.diagnostic position)).errorCount = e.log.errorCount := by
    rw [errorCount_push]
    exact congrArg _ (if_neg (Bool.eq_false_iff.1 hf))
  have hle := Nat.le_of_eq hcount.symm
  refine settles_modify he ⟨.of_same rfl hle, iff_of_false ?_ ?_⟩
  · exact Nat.not_lt.2 (Nat.le_of_eq hcount)
  · exact fun ⟨_, _, hold, hnew⟩ => hold hnew

theorem owes_reportHere (he : e.options = options) {f : Finding} (hf : f.severity.isError = true) :
    (ledger options allowed).Owes True (reportHere f) e :=
  accounts_get_bind (owes_report he hf _)

/-- An error at the current place that ends the compile. -/
theorem accounts_abort (he : e.options = options) {f : Finding} (hf : f.severity.isError = true) :
    (ledger options allowed).Accounts P (abort f) e :=
  (owes_reportHere he hf).bind_counted fun _ _ he' =>
    ⟨keeps_get_bind (keeps_throw he' _), fun _ h => by cases h⟩

/-- A type that is remembered pays for its flaws, since it was not known before. -/
theorem settles_remembered (he : e.options = options) {key : EmissionKey} {make : Emit TypeId}
    (hkey : key.isFlawed options = true → allowed key)
    (hmake : (ledger options allowed).Owes (key.isFlawed options = true) make e) :
    (ledger options allowed).Settles (remembered key none make) e := by
  refine accounts_get_bind ?_
  split
  · exact settles_pure he _
  rename_i hnone
  have hold : ¬e.Knows key := by
    rw [Knows, hnone]
    exact Bool.false_ne_true
  by_cases hflaw : key.isFlawed options = true
  · -- the flaw is counted, and it is remembered
    refine (hmake.congr fun _ => iff_true_intro hflaw).bind_pays fun id e₁ he₁ hlearns hlt =>
      ⟨id, { e₁ with known := (key, id) :: e₁.known }, rfl, he₁, ?_, ?_⟩
    · exact hlearns.trans (.remember e₁ fun _ => hkey hflaw)
    · exact iff_of_true hlt ⟨key, hflaw, hold, (Emitter.knows_cons e₁ id).2 (.inl rfl)⟩
  · refine (hmake.congr fun _ => iff_false_intro hflaw).bind fun id e₁ he₁ _ => ?_
    refine Accounts.bind (settles_modify he₁ ⟨.remember e₁ fun h => absurd h hflaw, ?_⟩)
      fun _ _ he₂ _ => settles_pure he₂ id
    refine iff_of_false (Nat.lt_irrefl _) ?_
    rintro ⟨key', hflaw', hold', hnew⟩
    rcases (Emitter.knows_cons e₁ id).1 hnew with rfl | hnew
    · exact hflaw hflaw'
    · exact hold' hnew

end Emit

end ShaderLowering
