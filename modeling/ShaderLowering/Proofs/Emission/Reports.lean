import ShaderLowering.Proofs.Emission.Flaws

/-!
# Reports of emission

Every emission function is walked through with the books open: where it fails, it has reported an
error, and where it answers, the errors that it reported are those of the flawed types that it
emitted for the first time (`Emit.settles_ofTy`).
-/

namespace ShaderLowering

open Source (Ty OptionalTy Fields Field Scalar Resource StructuredAccess)
open Spirv (TypeId)
open Action.Contract (keeps_throw)
open Action.Ledger (Accounts accounts_pure settles_pure settles_ofChecked settles_modify
  accounts_get_bind)

/-- Fields that cannot be joined into an element are an error. -/
theorem Texel.isError_of_joinFields : (fields : List Field) → {texel : Option Texel} →
    {f : Finding × Source.Position} → joinFields texel fields = .ok (.error f) →
    f.1.severity.isError = true
  | [], _, _, h => by cases h
  | field :: rest, texel, f, h => by
    rw [joinFields.eq_def] at h
    dsimp only at h
    split at h
    · cases h
      rfl
    · exact isError_of_joinFields rest h
    · split at h
      · obtain ⟨lanes, -, h⟩ := bind_eq_ok_iff.1 h
        exact isError_of_joinFields rest h
      · cases h
        rfl

namespace Emit

variable {options : Options} {allowed : EmissionKey → Prop} {e e' : Emitter}
  {rule : Layout.Rule} {o : Layout.Orientation} {expected : Option Scalar}

/-! ## Scalars, vectors, matrices and arrays -/

theorem settles_storedScalar (he : e.options = options) (s : Scalar) :
    (ledger options allowed).Settles (storedScalar rule expected s) e :=
  accounts_get_bind ((settles_declare he _ _).bind fun _ _ he₁ _ => settles_pure he₁ _)

theorem settles_ofScalar (he : e.options = options) (s : Scalar) :
    (ledger options allowed).Settles (ofScalar rule expected s) e :=
  (settles_storedScalar he s).bind fun _ _ he₁ _ => settles_onTarget he₁ _

theorem settles_vectorSize (he : e.options = options) (count : Nat) :
    (ledger options allowed).Settles (vectorSize count) e := by
  rw [vectorSize]
  split
  · exact settles_pure he _
  · exact accounts_abort he rfl

theorem settles_ofVector (he : e.options = options) (elem : Scalar) (count : Nat) :
    (ledger options allowed).Settles (ofVector rule expected elem count) e := by
  refine (settles_storedScalar he elem).bind fun stored e₁ he₁ _ => ?_
  split
  · exact settles_onTarget he₁ _
  · exact (settles_vectorSize he₁ count).bind fun _ _ he₂ _ => settles_onTarget he₂ _

theorem settles_strideOf (he : e.options = options) (ty : Ty) :
    (ledger options allowed).Settles (strideOf rule ty o) e := by
  rw [strideOf]
  split
  · exact settles_pure he _
  · exact accounts_get_bind ((settles_ofChecked he _).bind fun _ _ he₁ _ => settles_pure he₁ _)

theorem settles_ofMatrix (he : e.options = options) (elem : Scalar) (rows cols : Nat) :
    (ledger options allowed).Settles (ofMatrix rule o expected elem rows cols) e := by
  rw [ofMatrix]
  split
  · exact (settles_ofChecked he _).bind fun count _ he₁ _ => settles_ofVector he₁ elem count
  · refine (settles_ofVector he elem cols).bind fun row e₁ he₁ _ => ?_
    split
    · exact (settles_vectorSize he₁ rows).bind fun _ _ he₂ _ => settles_onTarget he₂ _
    · exact (settles_onTarget he₁ _).bind fun _ _ he₂ _ =>
        (settles_strideOf he₂ _).bind fun _ _ he₃ _ => settles_onTarget he₃ _

theorem settles_ofArray (he : e.options = options) (elem : Ty) (length : Option Nat)
    (base : TypeId) : (ledger options allowed).Settles (ofArray rule o elem length base) e := by
  rw [ofArray]
  dsimp only
  cases length with
  | some n =>
    have hlast : ∀ ds {e'}, e'.options = options → (ledger options allowed).Settles
        (do insertType ⟨none, .array base (← constant n), ds⟩) e' :=
      fun _ _ he' => (settles_onTarget he' _).bind fun _ _ he₁ _ => settles_onTarget he₁ _
    split
    · exact (settles_pure he _).bind fun ds _ he₁ _ => hlast ds he₁
    · exact (settles_strideOf he _).bind fun ds _ he₁ _ => hlast ds he₁
  | none =>
    split
    · exact (settles_pure he _).bind fun _ _ he₁ _ =>
        (settles_declare he₁ _ _).bind fun _ _ he₂ _ => settles_onTarget he₂ _
    · exact (settles_strideOf he _).bind fun _ _ he₁ _ => settles_onTarget he₁ _

/-! ## Structures -/

/-- Overlaps are errors, so reporting them owes something exactly if there are any. -/
theorem owes_reportOverlaps (he : e.options = options) (overlaps : List Layout.Overlap) :
    (ledger options allowed).Owes (overlaps ≠ [])
      (overlaps.forM fun o => report (.overlap o) o.position) e := by
  induction overlaps generalizing e with
  | nil => exact accounts_pure he (not_not_intro rfl)
  | cons first rest ih =>
    refine ((owes_report he rfl first.position).bind_owes fun _ _ he₁ _ => ih he₁).congr fun _ => ?_
    exact iff_of_true (.inl trivial) (List.cons_ne_nil _ _)

theorem owes_layoutDecorations (he : e.options = options) (parts : List Field) :
    (ledger options allowed).Owes (hasOverlaps options rule parts = true)
      (layoutDecorations rule parts) e := by
  rw [layoutDecorations, hasOverlaps]
  split
  · rename_i hrule
    exact accounts_pure he (by simp [hrule])
  · rename_i hrule
    refine accounts_get_bind ((settles_ofChecked he _).bind fun layout e₁ he₁ hrun => ?_)
    obtain ⟨hlayout, -⟩ := Action.runOn_ofChecked_eq_ok_iff.1 hrun
    rw [he] at hlayout
    have hoverlaps : layout.overlaps ≠ [] ↔ (decide (rule ≠ .unlaid) &&
        (Layout.unplacedParts options rule parts >>= Layout.RecordLayout.of rule).toOption.any
          fun layout => !layout.overlaps.isEmpty) = true := by
      rw [hlayout, decide_eq_true hrule, Bool.true_and]
      simp [Except.toOption]
    exact ((owes_reportOverlaps he₁ _).bind_settles fun _ _ he₂ _ => settles_ofChecked he₂ _).congr
      fun _ => hoverlaps

theorem owes_ofRecord (he : e.options = options) (name : String) (parts : List Field)
    (types : List TypeId) (role : BlockRole) :
    (ledger options allowed).Owes (hasOverlaps options rule parts = true)
      (ofRecord name parts types rule role) e :=
  (owes_layoutDecorations he parts).bind_settles fun _ _ he₁ _ => settles_onTarget he₁ _

/-! ## Images -/

theorem owes_describedTexel (he : e.options = options) (kind : Resource) (elem : Ty) :
    (ledger options allowed).Owes (Texel.isUndescribed elem = true) (describedTexel kind elem)
      e := by
  rw [describedTexel, Texel.isUndescribed]
  cases elem.shape with
  | scalar s => exact accounts_pure he Bool.false_ne_true
  | vector s count => exact accounts_pure he Bool.false_ne_true
  | matrix s rows cols =>
    exact (settles_ofChecked he _).bind fun _ _ he₁ _ => accounts_pure he₁ Bool.false_ne_true
  | struct name base fields =>
    refine (settles_ofChecked he _).bind fun r e₁ he₁ hrun => ?_
    have hjoin := (Action.runOn_ofChecked_eq_ok_iff.1 hrun).1
    dsimp only
    rw [hjoin]
    cases r with
    | ok t => exact accounts_pure he₁ Bool.false_ne_true
    | error f =>
      have hf := Texel.isError_of_joinFields fields.toList hjoin
      exact ((owes_report he₁ hf f.2).bind_settles fun _ _ he₂ _ => settles_pure he₂ none).congr
        fun _ => iff_of_true trivial rfl
  | void | array | resource | «alias» | oriented =>
    exact ((owes_reportHere he rfl).bind_settles fun _ _ he₁ _ => settles_pure he₁ _).congr
      fun _ => iff_of_true trivial rfl

/-- What the element is taken to be does not depend on the emitter. -/
theorem describedTexel_answer {kind : Resource} {elem : Ty} {t : Option Texel}
    (h : (describedTexel kind elem).runOn e = (.ok t, e')) :
    Written.describedTexel elem = .ok t := by
  rw [describedTexel] at h
  rw [Written.describedTexel]
  cases hshape : elem.shape with
  | scalar s | vector s count =>
    simp only [hshape] at h ⊢
    cases h
    rfl
  | matrix s rows cols =>
    simp only [hshape] at h ⊢
    obtain ⟨n, e₁, hn, h⟩ := Action.runOn_bind_eq_ok_iff.1 h
    cases h
    rw [(Action.runOn_ofChecked_eq_ok_iff.1 hn).1]
    rfl
  | struct name base fields =>
    simp only [hshape] at h ⊢
    obtain ⟨r, e₁, hr, h⟩ := Action.runOn_bind_eq_ok_iff.1 h
    rw [(Action.runOn_ofChecked_eq_ok_iff.1 hr).1]
    cases r <;> cases h <;> rfl
  | void | array | resource | «alias» | oriented =>
    simp only [hshape] at h ⊢
    cases h
    rfl

theorem owes_texel (he : e.options = options) (kind : Resource) (elem : Option Ty) :
    (ledger options allowed).Owes (Texel.isReplaced options elem = true) (texel kind elem) e := by
  cases elem with
  | none => exact accounts_pure he Bool.false_ne_true
  | some elem =>
    have hreplaced : Texel.isReplaced options (some elem) = true ↔
        Texel.isUndescribed elem = true ∨ Texel.isTooWide options elem = true :=
      Bool.or_eq_true _ _ ▸ Iff.rfl
    refine ((owes_describedTexel he kind elem).bind_owes (q := Texel.isTooWide options elem = true)
      fun t e₁ he₁ hrun => ?_).congr fun _ => hreplaced.symm
    have ht := describedTexel_answer hrun
    rw [Texel.isTooWide, ht]
    cases t with
    | none => exact accounts_pure he₁ Bool.false_ne_true
    | some t =>
      dsimp only
      refine accounts_get_bind ((settles_ofChecked he₁ _).bind fun n e₂ he₂ hrun => ?_)
      have hn := (Action.runOn_ofChecked_eq_ok_iff.1 hrun).1
      rw [he₁] at hn
      rw [hn]
      split
      · rename_i hwide
        exact ((owes_reportHere he₂ rfl).bind_settles fun _ _ he₃ _ => settles_pure he₃ _).congr
          fun _ => iff_of_true trivial (decide_eq_true hwide)
      · rename_i hwide
        exact accounts_pure he₂ fun h => hwide (of_decide_eq_true h)

theorem texel_answer (he : e.options = options) {kind : Resource} {elem : Option Ty} {t : Texel}
    (h : (texel kind elem).runOn e = (.ok t, e')) : Written.texel options elem = .ok t := by
  cases elem with
  | none =>
    cases h
    rfl
  | some elem =>
    obtain ⟨r, e₁, hr, h⟩ := Action.runOn_bind_eq_ok_iff.1 h
    have howes : (ledger options fun _ => True).Owes _ (describedTexel kind elem) e :=
      owes_describedTexel he kind elem
    have he₁ : e₁.options = options := (howes.toKeeps.of_run hr).1
    rw [Written.texel, describedTexel_answer hr]
    cases r with
    | none =>
      cases h
      rfl
    | some t' =>
      obtain ⟨_, _, hget, hrest⟩ := Action.runOn_bind_eq_ok_iff.1 h
      cases hget
      obtain ⟨n, e₂, hn, hlast⟩ := Action.runOn_bind_eq_ok_iff.1 hrest
      obtain ⟨hn, rfl⟩ := Action.runOn_ofChecked_eq_ok_iff.1 hn
      rw [he₁] at hn
      refine bind_eq_ok_iff.2 ⟨some t', rfl, bind_eq_ok_iff.2 ⟨n, by rw [hn]; rfl, ?_⟩⟩
      split at hlast
      · rename_i hwide
        cases hlast
        exact if_pos hwide
      · rename_i hwide
        cases hlast
        exact if_neg hwide

/-- A type without flaws of its own is remembered as it is emitted. -/
theorem settles_plain (he : e.options = options) {key : EmissionKey} {make : Emit TypeId}
    (hkey : key.isFlawed options = false) (hmake : (ledger options allowed).Settles make e) :
    (ledger options allowed).Settles (remembered key none make) e := by
  have hflaw : ¬key.isFlawed options = true := Bool.eq_false_iff.1 hkey
  exact settles_remembered he (fun h => absurd h hflaw)
    (hmake.congr fun _ => ⟨False.elim, hflaw⟩)

theorem settles_sampledType (he : e.options = options) (s : Scalar) :
    (ledger options allowed).Settles (sampledType s) e :=
  settles_plain he rfl (settles_ofScalar he s)

theorem owes_imageFormat (he : e.options = options) (kind : Resource) (writable : Bool)
    (t : Texel) :
    (ledger options allowed).Owes (t.format options = .unknown) (imageFormat kind writable t)
      e := by
  refine accounts_get_bind ?_
  dsimp only
  rw [he]
  have hrest : ∀ {e'}, e'.options = options → (ledger options allowed).Settles
      (if writable && (t.format options).isTwoChannel then do
        require .storageImageExtendedFormats
        return t.format options
      else return t.format options) e' := by
    intro e' he'
    split
    · exact (settles_require he' _).bind fun _ _ he₁ _ => settles_pure he₁ _
    · exact settles_pure he' _
  split
  · rename_i hunknown
    exact ((owes_reportHere he rfl).bind_settles fun _ _ he₁ _ => hrest he₁).congr
      fun _ => iff_of_true trivial hunknown
  · rename_i hknown
    exact (hrest he).congr fun _ => ⟨False.elim, hknown⟩

theorem settles_imageType (he : e.options = options) (name : String) (sampled : TypeId)
    (dim : Spirv.ImageDim) (arrayed multisampled inStorage : Bool) (format : Spirv.ImageFormat) :
    (ledger options allowed).Settles
      (imageType name sampled dim arrayed multisampled inStorage format) e := by
  rw [imageType]
  exact settles_onTarget he _

theorem hasNoFormat_iff {elem : Option Ty} {t : Texel} (ht : Written.texel options elem = .ok t) :
    Texel.hasNoFormat options elem = true ↔ t.format options = .unknown := by
  rw [Texel.hasNoFormat, ht]
  exact decide_eq_true_iff

/-- The format of a texture is asked for only where it is written to. -/
theorem owes_ofTexture (he : e.options = options) (kind : Resource) (dim : Source.TextureDim)
    (arrayed multisampled writable : Bool) (elem : Option Ty) :
    (ledger options allowed).Owes
      (isFlawedResource options rule (.texture dim arrayed multisampled writable) elem = true)
      (ofTexture kind dim arrayed multisampled writable elem) e := by
  refine ((owes_texel he kind elem).bind_owes fun t e₁ he₁ hrun => ?_).congr
    fun _ => (Bool.or_eq_true _ _).symm.to_iff
  refine (settles_sampledType he₁ _).bind fun sampled e₂ he₂ _ => ?_
  cases writable with
  | true =>
    rw [Bool.true_and, hasNoFormat_iff (texel_answer he hrun)]
    exact (owes_imageFormat he₂ kind true t).bind_settles fun _ _ he₃ _ =>
      (settles_declare he₃ _ _).bind fun _ _ he₄ _ => settles_imageType he₄ _ _ _ _ _ _ _
  | false =>
    refine Accounts.congr ?_ fun _ => (iff_false_intro Bool.false_ne_true).symm
    exact (settles_pure he₂ _).bind fun _ _ he₃ _ =>
      (settles_declare he₃ _ _).bind fun _ _ he₄ _ => settles_imageType he₄ _ _ _ _ _ _ _

theorem owes_ofBuffer (he : e.options = options) (kind : Resource) (writable : Bool)
    (elem : Option Ty) :
    (ledger options allowed).Owes (isFlawedResource options rule (.buffer writable) elem = true)
      (ofBuffer kind writable elem) e := by
  have hrest : ∀ {e'}, e'.options = options → (ledger options allowed).Owes
      ((Texel.isReplaced options elem || Texel.hasNoFormat options elem) = true)
      (do
        let t ← texel kind elem
        let sampled ← sampledType t.scalar
        let format ← imageFormat kind writable t
        require (if writable then .imageBuffer else .sampledBuffer)
        imageType "type.buffer.image" sampled .buffer false false writable format) e' := by
    intro e' he'
    refine ((owes_texel he' kind elem).bind_owes fun t e₁ he₁ hrun => ?_).congr
      fun _ => (Bool.or_eq_true _ _).symm.to_iff
    refine (settles_sampledType he₁ _).bind fun sampled e₂ he₂ _ => ?_
    rw [hasNoFormat_iff (texel_answer he' hrun)]
    exact (owes_imageFormat he₂ kind writable t).bind_settles fun _ _ he₃ _ =>
      (settles_require he₃ _).bind fun _ _ he₄ _ => settles_imageType he₄ _ _ _ _ _ _ _
  rw [ofBuffer, isFlawedResource]
  split
  · rename_i hrecord
    refine ((owes_reportHere he rfl).bind_owes fun _ _ he₁ _ => hrest he₁).congr fun _ => ?_
    rw [hrecord, Bool.true_or]
    exact iff_of_true (.inl trivial) rfl
  · rename_i hrecord
    rw [Bool.eq_false_iff.2 hrecord, Bool.false_or]
    exact hrest he

theorem owes_ofSubpassInput (he : e.options = options) (kind : Resource) (multisampled : Bool)
    (elem : Option Ty) :
    (ledger options allowed).Owes
      (isFlawedResource options rule (.subpassInput multisampled) elem = true)
      (ofSubpassInput kind multisampled elem) e :=
  (owes_texel he kind elem).bind_settles fun _ _ he₁ _ =>
    (settles_sampledType he₁ _).bind fun _ _ he₂ _ =>
      (settles_require he₂ _).bind fun _ _ he₃ _ => settles_imageType he₃ _ _ _ _ _ _ _

/-! ## Storage buffers -/

theorem settles_blockOrAlias (he : e.options = options) (block : TypeId) :
    (ledger options allowed).Settles (blockOrAlias block rule) e := by
  rw [blockOrAlias]
  split
  · exact settles_onTarget he _
  · exact settles_pure he _

theorem settles_wrapArray (he : e.options = options) (name : String) (array : TypeId)
    (decorations : List Spirv.TypeDecoration) :
    (ledger options allowed).Settles (wrapArray name array decorations) e := by
  rw [wrapArray]
  exact settles_onTarget he _

theorem settles_ofStructured (he : e.options = options) (access : StructuredAccess) (elem : Ty)
    (base : TypeId) : (ledger options allowed).Settles (ofStructured access elem base rule) e :=
  accounts_get_bind <| (settles_ofChecked he _).bind fun _ _ he₁ _ =>
    (settles_onTarget he₁ _).bind fun _ _ he₂ _ =>
      (settles_ofChecked he₂ _).bind fun _ _ he₃ _ =>
        (settles_wrapArray he₃ _ _ _).bind fun _ _ he₄ _ => settles_blockOrAlias he₄ _

theorem settles_ofByteAddress (he : e.options = options) (kind : Resource) (writable : Bool) :
    (ledger options allowed).Settles (ofByteAddress kind writable rule) e :=
  (settles_onTarget he _).bind fun _ _ he₁ _ =>
    (settles_onTarget he₁ _).bind fun _ _ he₂ _ =>
      (settles_wrapArray he₂ _ _ _).bind fun _ _ he₃ _ => settles_blockOrAlias he₃ _

theorem settles_counterType (he : e.options = options) :
    (ledger options allowed).Settles counterType e :=
  (settles_onTarget he _).bind fun _ _ he₁ _ => settles_onTarget he₁ _

/-! ## Types -/

mutual

/-- **Emission pays for its flaws.**  A type that is emitted has reported errors exactly if a flawed
structure or resource in it was not known before, and one that cannot be emitted has reported an
error. -/
theorem settles_ofTy : (ty : Ty) → (rule : Layout.Rule) → (o : Layout.Orientation) →
    (∀ key ∈ ty.emitted options rule o, allowed key) → {e : Emitter} → e.options = options →
    (ledger options allowed).Settles (ofTy ty rule o none) e
  | .alias _ target, rule, o, h, _, he => by
    rw [ofTy]
    exact settles_ofTy target rule o h he
  | .oriented order target, rule, o, h, _, he => by
    rw [ofTy]
    exact settles_ofTy target rule (o.annotate order) h he
  | .void, _, _, _, _, he => by
    rw [ofTy]
    exact settles_plain he rfl (settles_onTarget he _)
  | .scalar elem, _, _, _, _, he => by
    rw [ofTy]
    exact settles_plain he rfl (settles_ofScalar he elem)
  | .vector elem count, _, _, _, _, he => by
    rw [ofTy]
    exact settles_plain he rfl (settles_ofVector he elem count)
  | .matrix elem rows cols, _, _, _, _, he => by
    rw [ofTy]
    exact settles_plain he rfl (settles_ofMatrix he elem rows cols)
  | .array elem length, rule, o, h, _, he => by
    rw [ofTy]
    exact settles_plain he rfl ((settles_ofTy elem rule o.element h he).bind
      fun base _ he₁ _ => settles_ofArray he₁ elem length base)
  | .struct name base fields, rule, o, h, _, he => by
    rw [ofTy]
    -- the parts pay for themselves, and the record owes for what is flawed in it
    obtain ⟨hkey, hparts⟩ := List.forall_mem_cons.1 h
    obtain ⟨hbase, hfields⟩ := List.forall_mem_append.1 hparts
    exact settles_remembered he (fun _ => hkey) <|
      (settles_ofBase base rule hbase he).bind fun _ _ he₁ _ =>
        (settles_ofFields fields rule hfields he₁).bind fun _ _ he₂ _ => owes_ofRecord he₂ _ _ _ _
  | .resource kind elem, rule, o, h, _, he => by
    rw [ofTy]
    obtain ⟨hkey, helem⟩ := List.forall_mem_cons.1 h
    exact settles_remembered he (fun _ => hkey) (owes_ofResource elem kind rule helem he)

theorem settles_ofBase : (base : OptionalTy) → (rule : Layout.Rule) →
    (∀ key ∈ base.emitted options rule, allowed key) → {e : Emitter} → e.options = options →
    (ledger options allowed).Settles (ofBase base rule) e
  | .absent, _, _, _, he => settles_pure he _
  | .present ty, rule, h, _, he =>
    (settles_ofTy ty rule {} h he).bind fun _ _ he₁ _ => settles_pure he₁ _

theorem settles_ofFields : (fields : Fields) → (rule : Layout.Rule) →
    (∀ key ∈ fields.emitted options rule, allowed key) → {e : Emitter} → e.options = options →
    (ledger options allowed).Settles (ofFields fields rule) e
  | .nil, _, _, _, he => settles_pure he _
  | .cons _ ty _ _ rest, rule, h, _, he => by
    obtain ⟨hfirst, hrest⟩ := List.forall_mem_append.1 h
    exact (settles_ofTy ty rule {} hfirst he).bind fun _ _ he₁ _ =>
      (settles_ofFields rest rule hrest he₁).bind fun _ _ he₂ _ => settles_pure he₂ _

theorem owes_ofResource : (elem : OptionalTy) → (kind : Resource) → (rule : Layout.Rule) →
    (∀ key ∈ elem.emittedIn options kind rule, allowed key) → {e : Emitter} →
    e.options = options →
    (ledger options allowed).Owes (isFlawedResource options rule kind elem.toOption = true)
      (ofResource elem kind rule) e
  | elem, .texture _ _ _ _, _, _, _, he => by
    rw [ofResource]
    exact owes_ofTexture he _ _ _ _ _ _
  | elem, .buffer _, _, _, _, he => by
    rw [ofResource]
    exact owes_ofBuffer he _ _ _
  | elem, .subpassInput _, _, _, _, he => by
    rw [ofResource]
    exact owes_ofSubpassInput he _ _ _
  | _, .sampler _, _, _, _, he => by
    rw [ofResource, samplerType]
    exact (settles_onTarget he _).congr fun _ => ⟨False.elim, Bool.false_ne_true⟩
  | elem, .byteAddress writable, rule, _, _, he => by
    rw [ofResource]
    exact (settles_ofByteAddress he _ writable).congr fun _ => ⟨False.elim, Bool.false_ne_true⟩
  | .absent, .structured _, _, _, _, he | .absent, .constantBuffer, _, _, _, he
  | .absent, .textureBuffer, _, _, _, he | .absent, .stream _, _, _, _, he
  | .absent, .inputPatch _, _, _, _, he | .absent, .outputPatch _, _, _, _, he => by
    simp only [ofResource]
    -- without an element type the run ends with a report
    exact accounts_abort he rfl
  | .present elem, .structured access, rule, h, _, he => by
    simp only [ofResource]
    refine Accounts.congr (accounts_get_bind ?_) fun _ => ⟨False.elim, Bool.false_ne_true⟩
    rw [he]
    exact (settles_ofTy elem (elementRule options rule) {} h he).bind
      fun base _ he₁ _ => settles_ofStructured he₁ access elem base
  | .present elem, .stream _, rule, h, _, he => by
    simp only [ofResource]
    exact (settles_ofTy elem rule {} h he).congr fun _ => ⟨False.elim, Bool.false_ne_true⟩
  | .present elem, .inputPatch _, rule, h, _, he
  | .present elem, .outputPatch _, rule, h, _, he => by
    simp only [ofResource]
    refine Accounts.congr ?_ fun _ => ⟨False.elim, Bool.false_ne_true⟩
    exact (settles_ofTy elem .unlaid {} h he).bind fun _ _ he₁ _ =>
      (settles_onTarget he₁ _).bind fun _ _ he₂ _ => settles_onTarget he₂ _
  | .present elem, .constantBuffer, rule, h, _, he => by
    simp only [ofResource]
    exact owes_ofContent elem elem .constantBuffer rule h he
  | .present elem, .textureBuffer, rule, h, _, he => by
    simp only [ofResource]
    exact owes_ofContent elem elem .textureBuffer rule h he

theorem owes_ofContent : (ty whole : Ty) → (kind : Resource) → (rule : Layout.Rule) →
    (∀ key ∈ ty.emittedContent options (contentRule options kind rule).1, allowed key) →
    {e : Emitter} → e.options = options →
    (ledger options allowed).Owes (contentOverlaps options kind rule ty = true)
      (ofContent ty whole kind rule) e
  | .alias _ target, whole, kind, rule, h, _, he => by
    rw [ofContent]
    exact owes_ofContent target whole kind rule h he
  | .oriented _ target, whole, kind, rule, h, _, he => by
    rw [ofContent]
    exact owes_ofContent target whole kind rule h he
  | .struct name base fields, _, kind, rule, h, _, he => by
    rw [ofContent]
    refine accounts_get_bind ?_
    dsimp only
    rw [he]
    obtain ⟨hbase, hfields⟩ := List.forall_mem_append.1 h
    exact (settles_ofBase base _ hbase he).bind fun _ _ he₁ _ =>
      (settles_ofFields fields _ hfields he₁).bind fun _ _ he₂ _ => owes_ofRecord he₂ _ _ _ _
  | .void, _, _, _, _, _, he | .scalar _, _, _, _, _, _, he | .vector _ _, _, _, _, _, _, he
  | .matrix _ _ _, _, _, _, _, _, he | .array _ _, _, _, _, _, _, he
  | .resource _ _, _, _, _, _, _, he => by
    simp only [ofContent]
    exact (owes_reportHere he rfl).bind_counted fun _ _ he₁ =>
      ⟨keeps_throw he₁ _, fun _ h => by cases h⟩

end

/-! ## Errors alone -/

/-- The books in which nothing but errors is kept. -/
abbrev errorLedger (options : Options) : Action.Ledger Emitter :=
  (ledger options fun _ => True).weak

theorem settles_remembered_expecting (he : e.options = options) {key : EmissionKey}
    {make : Emit TypeId} (hmake : (errorLedger options).Settles make e) :
    (errorLedger options).Settles (remembered key expected make) e := by
  rw [remembered]
  split
  · exact hmake
  · refine accounts_get_bind ?_
    split
    · exact settles_pure he _
    · exact hmake.bind fun id e₁ he₁ _ =>
        Accounts.bind (settles_modify he₁ (.remember e₁ fun _ => trivial))
          fun _ _ he₂ _ => settles_pure he₂ id

/-- Whatever scalar is expected, a type that cannot be emitted has reported an error. -/
theorem settles_ofTy_expecting : (ty : Ty) → (rule : Layout.Rule) → (o : Layout.Orientation) →
    (expected : Option Scalar) → {e : Emitter} → e.options = options →
    (errorLedger options).Settles (ofTy ty rule o expected) e
  | .alias _ target, rule, o, expected, _, he => by
    rw [ofTy]
    exact settles_ofTy_expecting target rule o expected he
  | .oriented order target, rule, o, expected, _, he => by
    rw [ofTy]
    exact settles_ofTy_expecting target rule (o.annotate order) expected he
  | .void, _, _, _, _, he => by
    rw [ofTy]
    exact settles_remembered_expecting he (settles_onTarget he _).weak
  | .scalar elem, _, _, _, _, he => by
    rw [ofTy]
    exact settles_remembered_expecting he (settles_ofScalar he elem).weak
  | .vector elem count, _, _, _, _, he => by
    rw [ofTy]
    exact settles_remembered_expecting he (settles_ofVector he elem count).weak
  | .matrix elem rows cols, _, _, _, _, he => by
    rw [ofTy]
    exact settles_remembered_expecting he (settles_ofMatrix he elem rows cols).weak
  | .array elem length, rule, o, expected, _, he => by
    rw [ofTy]
    exact settles_remembered_expecting he
      ((settles_ofTy_expecting elem rule o.element expected he).bind
        fun base _ he₁ _ => (settles_ofArray he₁ elem length base).weak)
  | .struct name base fields, rule, o, expected, _, he => by
    rw [ofTy]
    refine settles_remembered_expecting he ?_
    exact (settles_ofBase base rule (fun _ _ => trivial) he).weak.bind fun _ _ he₁ _ =>
      (settles_ofFields fields rule (fun _ _ => trivial) he₁).weak.bind fun _ _ he₂ _ =>
        (owes_ofRecord he₂ _ _ _ _).weak
  | .resource kind elem, rule, o, expected, _, he => by
    rw [ofTy]
    exact settles_remembered_expecting he
      (owes_ofResource elem kind rule (fun _ _ => trivial) he).weak

/-- A block whose parts cannot be emitted has reported an error. -/
theorem settles_blockType (he : e.options = options) (name : String) (parts : List Field)
    (rule : Layout.Rule) (role : BlockRole) :
    (errorLedger options).Settles (blockType name parts rule role) e :=
  (Action.Ledger.settles_mapM parts
    (fun part _ he => settles_ofTy_expecting part.ty rule {} none he) he).bind
    fun _ _ he₁ _ => (owes_ofRecord he₁ _ _ _ _).weak

end Emit

end ShaderLowering
