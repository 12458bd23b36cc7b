import ShaderLowering.Proofs.Emission.Follows
import ShaderLowering.Proofs.Emission.Simulation
import ShaderLowering.Proofs.Layout.Parts

/-!
# Emission enters the written types

What emission adds to the tables, and in which order, can be told from the written type alone: an
emission that answers leaves the tables as they are after its tree was entered into them from the
leaves up (`Emit.enters_ofTy`).  There is one lemma for each emission function, in the order of
`ShaderLowering.Proofs.Emission.Simulation`.
-/

namespace ShaderLowering

open Source (Ty OptionalTy Fields Field Scalar Resource Record TextureDim StructuredAccess)
open Spirv (TypeTree TreeForm TreeMembers TypeDecoration TypeId)

namespace Emit

variable {e e' e₁ e₂ : Emitter} {rule : Layout.Rule} {o : Layout.Orientation}
  {expected : Option Scalar}

/-! ## Parts that enter nothing -/

theorem idle_storedScalar (s : Scalar) : Idle (storedScalar rule expected s) :=
  idle_get_bind fun _ => (idle_declare _ _).bind fun _ => idle_pure _

theorem idle_vectorSize (count : Nat) : Idle (vectorSize count) := by
  rw [vectorSize]
  split
  · exact idle_pure _
  · exact idle_abort _

theorem idle_strideOf (ty : Ty) : Idle (strideOf rule ty o) := by
  rw [strideOf]
  split
  · exact idle_pure _
  · exact idle_get_bind fun _ => (idle_ofChecked _).bind fun _ => idle_pure _

theorem idle_reportOverlaps (overlaps : List Layout.Overlap) :
    Idle (overlaps.forM fun o => report (.overlap o) o.position) := by
  induction overlaps with
  | nil => exact idle_pure ()
  | cons o rest ih => exact (idle_report _ _).bind fun _ => ih

theorem idle_layoutDecorations (parts : List Field) : Idle (layoutDecorations rule parts) := by
  rw [layoutDecorations]
  split
  · exact idle_pure _
  · exact idle_get_bind fun _ => (idle_ofChecked _).bind fun _ =>
      (idle_reportOverlaps _).bind fun _ => idle_ofChecked _

theorem idle_describedTexel (kind : Resource) (elem : Ty) : Idle (describedTexel kind elem) := by
  rw [describedTexel]
  split
  · exact idle_pure _
  · exact idle_pure _
  · exact (idle_ofChecked _).bind fun _ => idle_pure _
  · refine (idle_ofChecked _).bind fun joined => ?_
    split
    · exact idle_pure _
    · exact (idle_report _ _).bind fun _ => idle_pure _
  · exact (idle_reportHere _).bind fun _ => idle_pure _

theorem idle_texel (kind : Resource) (elem : Option Ty) : Idle (texel kind elem) := by
  cases elem with
  | none => exact idle_pure _
  | some elem =>
    refine (idle_describedTexel kind elem).bind fun t => ?_
    cases t with
    | none => exact idle_pure _
    | some t =>
      refine idle_get_bind fun _ => (idle_ofChecked _).bind fun _ => ?_
      split
      · exact (idle_reportHere _).bind fun _ => idle_pure _
      · exact idle_pure _

theorem idle_imageFormat (kind : Resource) (writable : Bool) (t : Texel) :
    Idle (imageFormat kind writable t) := by
  have hrest : ∀ format : Spirv.ImageFormat, Idle (do
      if writable && format.isTwoChannel then
        require .storageImageExtendedFormats
      return format) := by
    intro format
    dsimp only
    split
    · exact (idle_require _).bind fun _ => idle_pure _
    · exact idle_pure _
  refine idle_get_bind fun e => ?_
  dsimp only
  split
  · exact (idle_reportHere _).bind fun _ => hrest _
  · exact hrest _

/-! ## Scalars, vectors, matrices and arrays -/

theorem enters_ofScalar (he : e.Regular) (s : Scalar) :
    Follows (ofScalar rule expected s) e (.ok (Written.ofScalar e.options rule expected s))
      (Enters e) := by
  rw [ofScalar]
  refine (realizes_storedScalar he.sound s).passStep he (idle_storedScalar s) ?_
  intro e' _ _ hbare
  exact enters_scalarType _ hbare

theorem enters_ofVector (he : e.Regular) (elem : Scalar) (count : Nat) :
    Follows (ofVector rule expected elem count) e
      (Written.ofVector e.options rule expected elem count) (Enters e) := by
  rw [ofVector, Written.ofVector]
  refine (realizes_storedScalar he.sound elem).passStep he (idle_storedScalar elem) ?_
  intro e₁ he₁ _ hbare₁
  split
  · exact enters_scalarType _ hbare₁
  · refine (realizes_vectorSize he₁.sound count).pass he₁ (idle_vectorSize count) ?_
    intro e₂ size _ _ hbare₂
    exact enters_insertType (by rw [TreeForm.intern, hbare₂, hbare₁])

/-- An array of fixed length whose element type was entered last. -/
theorem enters_fixedArray {base : TypeId} {tree : TypeTree}
    (hbase : Enters e e' base tree) (n : Nat) (ds : List TypeDecoration) :
    Follows (do insertType ⟨none, .array base (← constant n), ds⟩) e'
      (.ok (.node none (.array tree n) ds)) (Enters e) := by
  refine (follows_constant e' n).step fun e₁ c hc => ?_
  refine enters_insertType ?_
  rw [TreeForm.intern, hbase]
  dsimp only
  rw [hc]

theorem enters_openArray {base : TypeId} {tree : TypeTree} (hbase : Enters e e' base tree)
    (ds : List TypeDecoration) :
    Follows (insertType ⟨none, .runtimeArray base, ds⟩) e'
      (.ok (.node none (.runtimeArray tree) ds)) (Enters e) :=
  enters_insertType (by rw [TreeForm.intern, hbase])

theorem enters_ofMatrix (he : e.Regular) (elem : Scalar) (rows cols : Nat) :
    Follows (ofMatrix rule o expected elem rows cols) e
      (Written.ofMatrix e.options rule o expected elem rows cols) (Enters e) := by
  rw [ofMatrix, Written.ofMatrix]
  split
  · refine (realizes_ofChecked he.sound _).pass he (idle_ofChecked _) ?_
    intro e' count he' hg hbare
    rw [← hg.options]
    exact (enters_ofVector he' elem count).imp fun _ _ _ h => h.of_start hbare
  · refine (realizes_ofVector he.sound elem cols).follow he (enters_ofVector he elem cols) ?_
    intro e₁ row rowTree he₁ hg₁ hrow
    split
    · refine (realizes_vectorSize he₁.sound rows).pass he₁ (idle_vectorSize rows) ?_
      intro e₂ size _ _ hbare₂
      exact enters_insertType (by rw [TreeForm.intern, hrow, hbare₂])
    · refine (realizes_constant he₁.sound rows).followStep he₁ (follows_constant e₁ rows) ?_
      intro e₂ length he₂ hg₂ hlength
      rw [← hg₁.options, ← hg₂.options]
      refine (realizes_strideOf he₂.sound _).pass he₂ (idle_strideOf _) ?_
      intro e₃ ds _ _ hbare₃
      refine enters_insertType ?_
      rw [TreeForm.intern, hrow, hbare₃]
      dsimp only
      rw [hlength]

theorem enters_ofArray (he : e'.Regular) (elem : Ty) (length : Option Nat) {base : TypeId}
    {tree : TypeTree} (hbase : Enters e e' base tree) :
    Follows (ofArray rule o elem length base) e'
      (Written.ofArray e'.options rule o elem length tree) (Enters e) := by
  rw [ofArray, Written.ofArray]
  dsimp only
  cases length with
  | some n =>
    split
    · exact enters_fixedArray hbase n []
    · refine (realizes_strideOf he.sound _).pass he (idle_strideOf _) ?_
      intro e₁ ds _ _ hbare₁
      exact enters_fixedArray (hbase.of_stop hbare₁) n ds
  | none =>
    split
    · have hnone : Realizes (pure ([] : List TypeDecoration)) e' (.ok []) Same :=
        realizes_pure he.sound rfl
      refine hnone.pass he (idle_pure []) ?_
      intro e₁ ds he₁ _ hbare₁
      refine (realizes_declare he₁.sound _ _).passStep he₁ (idle_declare _ _) ?_
      intro e₂ _ _ hbare₂
      exact enters_openArray (hbase.of_stop (hbare₂.trans hbare₁)) ds
    · refine (realizes_strideOf he.sound _).pass he (idle_strideOf _) ?_
      intro e₁ ds _ _ hbare₁
      exact enters_openArray (hbase.of_stop hbare₁) ds

/-! ## Structures -/

/-- The numbers of several trees, entered in order. -/
def internAll : List TypeTree → Spirv.Module → List TypeId × Spirv.Module
  | [], m => ([], m)
  | tree :: rest, m =>
    let (id, m) := tree.intern m
    let (ids, m) := internAll rest m
    (id :: ids, m)

theorem internAll_append (trees trees' : List TypeTree) (m : Spirv.Module) :
    internAll (trees ++ trees') m
      = ((internAll trees m).1 ++ (internAll trees' (internAll trees m).2).1,
        (internAll trees' (internAll trees m).2).2) := by
  induction trees generalizing m with
  | nil => rfl
  | cons tree rest ih => simp only [List.cons_append, internAll, ih]

/-- Members are entered with their types. -/
theorem intern_members : (parts : List Field) → (trees : List TypeTree) →
    trees.length = parts.length → (m : Spirv.Module) →
    (Written.members parts trees).intern m
      = (List.zipWith memberOf parts (internAll trees m).1, (internAll trees m).2)
  | [], [], _, _ => rfl
  | part :: parts, tree :: trees, h, m => by
    simp only [Written.members, TreeMembers.intern, intern_members parts trees (Nat.succ.inj h)]
    rfl

/-- The later tables are those of the earlier emitter with a number of trees entered in order. -/
structure EntersAll (e : Emitter) (count : Nat) (e' : Emitter) (ids : List TypeId)
    (trees : List TypeTree) : Prop where
  length : trees.length = count
  run : internAll trees e.target.bare = (ids, e'.target.bare)

theorem EntersAll.append {n n' : Nat} {ids ids' : List TypeId} {trees trees' : List TypeTree}
    (h : EntersAll e n e₁ ids trees) (h' : EntersAll e₁ n' e₂ ids' trees') :
    EntersAll e (n + n') e₂ (ids ++ ids') (trees ++ trees') where
  length := by rw [List.length_append, h.length, h'.length]
  run := by rw [internAll_append, h.run, h'.run]

theorem enters_ofRecord (he : e'.Regular) (name : String) {parts : List Field} {ids : List TypeId}
    {trees : List TypeTree} (h : EntersAll e parts.length e' ids trees) (role : BlockRole) :
    Follows (ofRecord name parts ids rule role) e'
      (Written.ofRecord e'.options name parts trees rule role) (Enters e) := by
  rw [ofRecord, Written.ofRecord]
  refine (realizes_layoutDecorations he.sound parts).pass he (idle_layoutDecorations parts) ?_
  intro e₁ ds _ _ hbare₁
  exact enters_insertType (by rw [TreeForm.intern, intern_members parts trees h.length, h.run,
    hbare₁])

/-! ## Images -/

theorem enters_sampledType (he : e.Regular) (s : Scalar) :
    Follows (sampledType s) e (.ok (Written.ofScalar e.options .unlaid none s)) (Enters e) :=
  enters_remembered he (fun _ => rfl) (enters_ofScalar he s)

theorem enters_imageType (name : String) {sampled : TypeId} {options : Options} {s : Scalar}
    (hs : Enters e e' sampled (Written.ofScalar options .unlaid none s)) (dim : Spirv.ImageDim)
    (arrayed multisampled inStorage : Bool) (format : Spirv.ImageFormat) :
    Follows (imageType name sampled dim arrayed multisampled inStorage format) e'
      (.ok (Written.imageType options name s dim arrayed multisampled inStorage format))
      (Enters e) :=
  enters_insertType (by rw [TreeForm.intern, hs])

theorem enters_ofTexture (he : e.Regular) (kind : Resource) (dim : TextureDim)
    (arrayed multisampled writable : Bool) (elem : Option Ty) :
    Follows (ofTexture kind dim arrayed multisampled writable elem) e
      (Written.ofTexture e.options dim arrayed multisampled writable elem) (Enters e) := by
  rw [ofTexture, Written.ofTexture]
  refine (realizes_texel he.sound kind elem).pass he (idle_texel kind elem) ?_
  intro e₁ t he₁ hg₁ hbare₁
  rw [← hg₁.options]
  refine (realizes_sampledType he₁.sound t.scalar).followStep he₁
    (enters_sampledType he₁ t.scalar) ?_
  intro e₂ sampled he₂ hg₂ hs
  dsimp only
  -- once the format is known, the rest is the same for both
  have hrest : ∀ e₃ format, e₃.Regular → e₃.target.bare = e₂.target.bare → Follows
      (do
        declare (dim.capability? arrayed writable) none
        imageType ("type." ++ dim.typeName ++ ".image" ++ (if arrayed then ".array" else ""))
          sampled dim.image arrayed multisampled writable format) e₃
      (.ok (Written.imageType e₁.options
        ("type." ++ dim.typeName ++ ".image" ++ (if arrayed then ".array" else "")) t.scalar
        dim.image arrayed multisampled writable format)) (Enters e) := by
    intro e₃ format he₃ hbare₃
    refine (realizes_declare he₃.sound _ _).passStep he₃ (idle_declare _ _) ?_
    intro e₄ _ _ hbare₄
    exact enters_imageType _ ((hs.of_start hbare₁).of_stop (hbare₄.trans hbare₃)) _ _ _ _ _
  cases writable with
  | true =>
    refine (realizes_imageFormat he₂.sound kind true t).passStep he₂ (idle_imageFormat _ _ _) ?_
    intro e₃ he₃ _ hbare₃
    rw [hg₂.options]
    exact hrest e₃ _ he₃ hbare₃
  | false => exact hrest e₂ .unknown he₂ rfl

theorem enters_ofBuffer (he : e.Regular) (kind : Resource) (writable : Bool) (elem : Option Ty) :
    Follows (ofBuffer kind writable elem) e (Written.ofBuffer e.options writable elem)
      (Enters e) := by
  rw [ofBuffer, Written.ofBuffer]
  -- what is done does not depend on the report before it
  have hrest : ∀ e₀, e₀.Regular → e₀.options = e.options → e₀.target.bare = e.target.bare → Follows
      (do
        let t ← texel kind elem
        let sampled ← sampledType t.scalar
        let format ← imageFormat kind writable t
        require (if writable then .imageBuffer else .sampledBuffer)
        imageType "type.buffer.image" sampled .buffer false false writable format) e₀
      (do
        let t ← Written.texel e.options elem
        return Written.imageType e.options "type.buffer.image" t.scalar .buffer false false writable
          (t.format e.options)) (Enters e) := by
    intro e₀ he₀ hoptions hbare₀
    rw [← hoptions]
    refine (realizes_texel he₀.sound kind elem).pass he₀ (idle_texel kind elem) ?_
    intro e₁ t he₁ hg₁ hbare₁
    rw [← hg₁.options]
    refine (realizes_sampledType he₁.sound t.scalar).followStep he₁
      (enters_sampledType he₁ t.scalar) ?_
    intro e₂ sampled he₂ hg₂ hs
    rw [← hg₂.options] at hs ⊢
    refine (realizes_imageFormat he₂.sound kind writable t).passStep he₂
      (idle_imageFormat _ _ _) ?_
    intro e₃ he₃ _ hbare₃
    refine (realizes_require he₃.sound _).passStep he₃ (idle_require _) ?_
    intro e₄ _ _ hbare₄
    have hstart : e₁.target.bare = e.target.bare := hbare₁.trans hbare₀
    exact enters_imageType _ ((hs.of_start hstart).of_stop (hbare₄.trans hbare₃)) _ _ _ _ _
  dsimp only
  split
  · refine (realizes_reportHere he.sound _).passStep he (idle_reportHere _) ?_
    intro e₀ he₀ hg₀ hbare₀
    exact hrest e₀ he₀ hg₀.options hbare₀
  · exact hrest e he rfl rfl

theorem enters_ofSubpassInput (he : e.Regular) (kind : Resource) (multisampled : Bool)
    (elem : Option Ty) :
    Follows (ofSubpassInput kind multisampled elem) e
      (Written.ofSubpassInput e.options multisampled elem) (Enters e) := by
  rw [ofSubpassInput, Written.ofSubpassInput]
  refine (realizes_texel he.sound kind elem).pass he (idle_texel kind elem) ?_
  intro e₁ t he₁ hg₁ hbare₁
  rw [← hg₁.options]
  refine (realizes_sampledType he₁.sound t.scalar).followStep he₁
    (enters_sampledType he₁ t.scalar) ?_
  intro e₂ sampled he₂ _ hs
  refine (realizes_require he₂.sound _).passStep he₂ (idle_require _) ?_
  intro e₃ _ _ hbare₃
  exact enters_imageType _ ((hs.of_start hbare₁).of_stop hbare₃) _ _ _ _ _

/-! ## Storage buffers -/

theorem enters_blockOrAlias {block : TypeId} {tree : TypeTree} (hblock : Enters e e' block tree) :
    Follows (blockOrAlias block rule) e' (.ok (Written.blockOrAlias tree rule)) (Enters e) := by
  rw [blockOrAlias, Written.blockOrAlias]
  split
  · exact enters_insertType (by rw [TreeForm.intern, hblock])
  · exact follows_pure hblock

theorem enters_wrapArray (name : String) {array : TypeId} {tree : TypeTree}
    (harray : Enters e e' array tree) (ds : List TypeDecoration) :
    Follows (wrapArray name array ds) e' (.ok (Written.wrapArray name tree ds)) (Enters e) :=
  enters_insertType (by
    rw [TreeForm.intern, TreeMembers.intern, harray]
    rfl)

theorem enters_ofStructured (he : e'.Regular) (access : StructuredAccess) (elem : Ty)
    {base : TypeId} {tree : TypeTree} (hbase : Enters e e' base tree) :
    Follows (ofStructured access elem base rule) e'
      (Written.ofStructured e'.options access elem tree rule) (Enters e) := by
  rw [ofStructured, Written.ofStructured]
  refine follows_get_bind ?_
  refine (realizes_ofChecked he.sound _).pass he (idle_ofChecked _) ?_
  intro e₁ x _ _ hbare₁
  refine (enters_openArray (hbase.of_stop hbare₁) _).step fun e₂ array harray => ?_
  refine (follows_ofChecked e₂ _).bind fun e₃ matrix matrix' _ hmatrix => ?_
  rw [hmatrix.1]
  refine (enters_wrapArray _ (harray.of_stop hmatrix.2) _).step fun e₄ block hblock => ?_
  exact enters_blockOrAlias hblock

theorem enters_ofByteAddress (e : Emitter) (kind : Resource) (writable : Bool) :
    Follows (ofByteAddress kind writable rule) e (.ok (Written.ofByteAddress kind writable rule))
      (Enters e) := by
  rw [ofByteAddress, Written.ofByteAddress]
  refine (enters_scalarType .uint32 rfl).step fun e₁ word hword => ?_
  refine (enters_openArray hword _).step fun e₂ array harray => ?_
  refine (enters_wrapArray _ harray _).step fun e₃ block hblock => ?_
  exact enters_blockOrAlias hblock

/-! ## Source types -/

theorem enters_remembered_shape (he : e.Regular) {ty : Ty}
    (halias : ∀ name target, ty ≠ .alias name target)
    (horiented : ∀ order target, ty ≠ .oriented order target) {make : Emit TypeId}
    (hmake : Follows make e (Written.ofTy e.options ty rule o expected) (Enters e)) :
    Follows (remembered ⟨ty, rule, o.order?⟩ expected make) e
      (Written.ofTy e.options ty rule o expected) (Enters e) := by
  refine enters_remembered he (fun hexpected => ?_) hmake
  rw [hexpected]
  have horder : Layout.Orientation.order? ⟨none, o.order?⟩ = o.order? := rfl
  exact Written.ofTy_congr halias horiented horder none

/-- A structure from its base and its fields, in the role it is used in. -/
theorem enters_ofStruct {base : OptionalTy} {fields : Fields}
    (hbase : ∀ e : Emitter, e.Regular →
      Follows (ofBase base rule) e (Written.ofBase e.options base rule) (EntersAll e base.count))
    (hfields : ∀ e : Emitter, e.Regular →
      Follows (ofFields fields rule) e (Written.ofFields e.options fields rule)
        (EntersAll e fields.length))
    (he : e.Regular) (name name' : String) (role : BlockRole) :
    Follows
      (do
        let inherited ← ofBase base rule
        let own ← ofFields fields rule
        ofRecord name (Record.parts ⟨name', base, fields⟩) (inherited ++ own) rule role) e
      (do
        let inherited ← Written.ofBase e.options base rule
        let own ← Written.ofFields e.options fields rule
        Written.ofRecord e.options name (Record.parts ⟨name', base, fields⟩) (inherited ++ own) rule
          role) (Enters e) := by
  refine (realizes_ofBase base rule he.sound).follow he (hbase e he) ?_
  intro e₁ ids₁ trees₁ he₁ hg₁ h₁
  rw [← hg₁.options]
  refine (realizes_ofFields fields rule he₁.sound).follow he₁ (hfields e₁ he₁) ?_
  intro e₂ ids₂ trees₂ he₂ hg₂ h₂
  rw [← hg₂.options]
  refine enters_ofRecord he₂ name ?_ role
  rw [Written.length_parts]
  exact h₁.append h₂

mutual

/-- **Emission enters the written type**, whatever the emitter has emitted before. -/
theorem enters_ofTy : (ty : Ty) → (rule : Layout.Rule) → (o : Layout.Orientation) →
    (expected : Option Scalar) → {e : Emitter} → e.Regular →
    Follows (ofTy ty rule o expected) e (Written.ofTy e.options ty rule o expected) (Enters e)
  | .alias _ target, rule, o, expected, e, he => by
    rw [ofTy, Written.ofTy]
    exact enters_ofTy target rule o expected he
  | .oriented order target, rule, o, expected, e, he => by
    rw [ofTy, Written.ofTy]
    exact enters_ofTy target rule (o.annotate order) expected he
  | .void, rule, o, expected, e, he => by
    rw [ofTy]
    exact enters_remembered_shape he (by simp) (by simp) (enters_insertType rfl)
  | .scalar elem, rule, o, expected, e, he => by
    rw [ofTy]
    refine enters_remembered_shape he (by simp) (by simp) ?_
    rw [Written.ofTy]
    exact enters_ofScalar he elem
  | .vector elem count, rule, o, expected, e, he => by
    rw [ofTy]
    refine enters_remembered_shape he (by simp) (by simp) ?_
    rw [Written.ofTy]
    exact enters_ofVector he elem count
  | .matrix elem rows cols, rule, o, expected, e, he => by
    rw [ofTy]
    refine enters_remembered_shape he (by simp) (by simp) ?_
    rw [Written.ofTy]
    exact enters_ofMatrix he elem rows cols
  | .array elem length, rule, o, expected, e, he => by
    rw [ofTy]
    refine enters_remembered_shape he (by simp) (by simp) ?_
    rw [Written.ofTy]
    -- the options are those of before the element, so the written type is, too
    refine (realizes_ofTy elem rule o.element expected he.sound).follow he
      (enters_ofTy elem rule o.element expected he) ?_
    intro e' base tree he' hg hbase
    rw [← hg.options]
    exact enters_ofArray he' elem length hbase
  | .struct name base fields, rule, o, expected, e, he => by
    rw [ofTy]
    refine enters_remembered_shape he (by simp) (by simp) ?_
    rw [Written.ofTy]
    exact enters_ofStruct (fun _ => enters_ofBase base rule)
      (fun _ => enters_ofFields fields rule) he name name .plain
  | .resource kind elem, rule, o, expected, e, he => by
    rw [ofTy]
    refine enters_remembered_shape he (by simp) (by simp) ?_
    rw [Written.ofTy]
    exact enters_ofResource elem kind rule he

theorem enters_ofBase : (base : OptionalTy) → (rule : Layout.Rule) → {e : Emitter} → e.Regular →
    Follows (ofBase base rule) e (Written.ofBase e.options base rule) (EntersAll e base.count)
  | .absent, rule, e, he => by
    rw [ofBase, Written.ofBase]
    exact follows_pure ⟨rfl, rfl⟩
  | .present ty, rule, e, he => by
    rw [ofBase, Written.ofBase]
    refine (enters_ofTy ty rule {} none he).bind fun e' id tree _ htree => ?_
    refine follows_pure ⟨rfl, ?_⟩
    rw [internAll, htree]
    rfl

theorem enters_ofFields : (fields : Fields) → (rule : Layout.Rule) → {e : Emitter} → e.Regular →
    Follows (ofFields fields rule) e (Written.ofFields e.options fields rule)
      (EntersAll e fields.length)
  | .nil, rule, e, he => by
    rw [ofFields, Written.ofFields]
    exact follows_pure ⟨rfl, rfl⟩
  | .cons _ ty _ _ rest, rule, e, he => by
    rw [ofFields, Written.ofFields]
    refine (realizes_ofTy ty rule {} none he.sound).follow he (enters_ofTy ty rule {} none he) ?_
    intro e₁ id tree he₁ hg₁ htree
    rw [← hg₁.options]
    refine (enters_ofFields rest rule he₁).bind fun e₂ ids trees _ h => ?_
    refine follows_pure ⟨congrArg (· + 1) h.length, ?_⟩
    rw [internAll, htree]
    dsimp only
    rw [h.run]

theorem enters_ofResource : (elem : OptionalTy) → (kind : Resource) → (rule : Layout.Rule) →
    {e : Emitter} → e.Regular →
    Follows (ofResource elem kind rule) e (Written.ofResource e.options elem kind rule) (Enters e)
  | elem, .texture dim arrayed multisampled writable, rule, e, he => by
    simp only [ofResource, Written.ofResource]
    exact enters_ofTexture he _ dim arrayed multisampled writable elem.toOption
  | elem, .buffer writable, rule, e, he => by
    simp only [ofResource, Written.ofResource]
    exact enters_ofBuffer he _ writable elem.toOption
  | elem, .subpassInput multisampled, rule, e, he => by
    simp only [ofResource, Written.ofResource]
    exact enters_ofSubpassInput he _ multisampled elem.toOption
  | elem, .sampler comparison, rule, e, he => by
    simp only [ofResource, Written.ofResource]
    exact enters_insertType rfl
  | elem, .byteAddress writable, rule, e, he => by
    simp only [ofResource, Written.ofResource]
    exact enters_ofByteAddress e _ writable
  | .absent, .structured _, rule, e, he | .absent, .stream _, rule, e, he
  | .absent, .inputPatch _, rule, e, he | .absent, .outputPatch _, rule, e, he
  | .absent, .constantBuffer, rule, e, he | .absent, .textureBuffer, rule, e, he => by
    simp only [ofResource, Written.ofResource]
    exact follows_of_error
  | .present elem, .structured access, rule, e, he => by
    simp only [ofResource, Written.ofResource]
    refine follows_get_bind ?_
    refine (realizes_ofTy elem _ {} none he.sound).follow he (enters_ofTy elem _ {} none he) ?_
    intro e' base tree he' hg hbase
    rw [← hg.options]
    exact enters_ofStructured he' access elem hbase
  | .present elem, .stream primitive, rule, e, he => by
    simp only [ofResource, Written.ofResource]
    exact enters_ofTy elem rule {} none he
  | .present elem, .inputPatch points, rule, e, he
  | .present elem, .outputPatch points, rule, e, he => by
    simp only [ofResource, Written.ofResource]
    refine (enters_ofTy elem .unlaid {} none he).bind fun e' base tree _ hbase => ?_
    exact enters_fixedArray hbase points []
  | .present elem, .constantBuffer, rule, e, he | .present elem, .textureBuffer, rule, e, he => by
    simp only [ofResource, Written.ofResource]
    exact enters_ofContent elem elem _ rule he

/-- A block from the structure that is its content. -/
theorem enters_ofContent : (ty whole : Ty) → (kind : Resource) → (rule : Layout.Rule) →
    {e : Emitter} → e.Regular →
    Follows (ofContent ty whole kind rule) e (Written.ofContent e.options ty kind rule) (Enters e)
  | .alias _ target, whole, kind, rule, e, he => by
    rw [ofContent, Written.ofContent]
    exact enters_ofContent target whole kind rule he
  | .oriented _ target, whole, kind, rule, e, he => by
    rw [ofContent, Written.ofContent]
    exact enters_ofContent target whole kind rule he
  | .struct name base fields, whole, kind, rule, e, he => by
    rw [ofContent, Written.ofContent]
    refine follows_get_bind ?_
    rcases contentRule e.options kind rule with ⟨inner, role⟩
    exact enters_ofStruct (fun _ => enters_ofBase base inner)
      (fun _ => enters_ofFields fields inner) he _ _ role
  | .void, whole, kind, rule, e, he | .scalar _, whole, kind, rule, e, he
  | .vector _ _, whole, kind, rule, e, he | .matrix _ _ _, whole, kind, rule, e, he
  | .array _ _, whole, kind, rule, e, he | .resource _ _, whole, kind, rule, e, he => by
    simp only [ofContent, Written.ofContent]
    exact follows_of_error

end

end Emit

end ShaderLowering
