import ShaderLowering.Proofs.Emission.Realizes

/-!
# Emission realizes the written types

In a sound emitter an emission answers with a number whose tree is the written one, whatever was
emitted before, and fails for the reason for which the written one fails.  There is one lemma for
each emission function, and the main result, `Emit.realizes_ofTy`, follows the recursion.
-/

namespace ShaderLowering

open Source (Ty OptionalTy Fields Field Scalar Resource Record TextureDim StructuredAccess)
open Spirv (TypeTree TreeForm TreeMembers TypeDecoration TypeId TypeEntry)

namespace Emit

variable {e : Emitter} {rule : Layout.Rule} {o : Layout.Orientation} {expected : Option Scalar}

/-! ## Scalars, vectors, matrices and arrays -/

theorem realizes_storedScalar (he : e.Sound) (s : Scalar) :
    Realizes (storedScalar rule expected s) e (.ok (s.stored e.options rule expected)) Same := by
  rw [storedScalar]
  refine realizes_get_bind ((realizes_declare he _ none).step fun e' _ he' _ _ => ?_)
  exact realizes_pure he' rfl

theorem realizes_ofScalar (he : e.Sound) (s : Scalar) :
    Realizes (ofScalar rule expected s) e (.ok (Written.ofScalar e.options rule expected s))
      IsTree := by
  rw [ofScalar]
  refine (realizes_storedScalar he s).step fun e' stored he' _ hs => ?_
  rw [hs]
  exact realizes_scalarType he' _

theorem realizes_vectorSize (he : e.Sound) (count : Nat) :
    Realizes (vectorSize count) e (Written.vectorSize count) Same := by
  rw [vectorSize, Written.vectorSize]
  cases Spirv.VectorSize.ofNat? count with
  | some size => exact realizes_pure he rfl
  | none => exact realizes_abort he _

theorem realizes_ofVector (he : e.Sound) (elem : Scalar) (count : Nat) :
    Realizes (ofVector rule expected elem count) e
      (Written.ofVector e.options rule expected elem count) IsTree := by
  rw [ofVector, Written.ofVector]
  refine (realizes_storedScalar he elem).step fun e' stored he' _ hs => ?_
  rw [hs]
  split
  · exact realizes_scalarType he' _
  · refine (realizes_vectorSize he' count).bind fun e' size size' he' _ hsize => ?_
    rw [hsize]
    exact realizes_insertType he' rfl

theorem realizes_strideOf (he : e.Sound) (ty : Ty) :
    Realizes (strideOf rule ty o) e (Written.strideOf e.options rule ty o) Same := by
  rw [strideOf, Written.strideOf]
  split
  · exact realizes_pure he rfl
  · refine realizes_get_bind ((realizes_ofChecked he _).bind fun e' x x' he' _ hx => ?_)
    rw [hx]
    exact realizes_pure he' rfl

theorem realizes_ofMatrix (he : e.Sound) (elem : Scalar) (rows cols : Nat) :
    Realizes (ofMatrix rule o expected elem rows cols) e
      (Written.ofMatrix e.options rule o expected elem rows cols) IsTree := by
  rw [ofMatrix, Written.ofMatrix]
  split
  · refine (realizes_ofChecked he _).bind fun e' count count' he' hg hcount => ?_
    rw [hcount, ← hg.options]
    exact realizes_ofVector he' elem count'
  · refine (realizes_ofVector he elem cols).bind fun e₁ row rowTree he₁ hg₁ hrow => ?_
    split
    · refine (realizes_vectorSize he₁ rows).bind fun e₂ size size' he₂ hg₂ hsize => ?_
      rw [hsize]
      refine realizes_insertType he₂ ?_
      simp only [Spirv.TypeEntry.tree?, Spirv.Shape.form?, hg₂.tree? hrow, Option.map_some]
      rfl
    · refine (realizes_constant he₁ rows).step fun e₂ length he₂ hg₂ hlength => ?_
      have hopt : e.options = e₂.options := (hg₁.trans hg₂).options.symm
      rw [hopt]
      refine (realizes_strideOf he₂ _).bind fun e₃ ds ds' he₃ hg₃ hds => ?_
      rw [hds]
      refine realizes_insertType he₃ ?_
      simp only [Spirv.TypeEntry.tree?, Spirv.Shape.form?, (hg₂.trans hg₃).tree? hrow,
        Spirv.Module.constantValue?_mono hg₃.target hlength, Option.bind_some, Option.map_some]

theorem realizes_fixedArray (he : e.Sound) {base : TypeId} {tree : TypeTree}
    (hbase : IsTree e base tree) (n : Nat) (ds : List TypeDecoration) :
    Realizes (do insertType ⟨none, .array base (← constant n), ds⟩) e
      (.ok (.node none (.array tree n) ds)) IsTree := by
  refine (realizes_constant he n).step fun e' c he' hg hc => realizes_insertType he' ?_
  simp only [Spirv.TypeEntry.tree?, Spirv.Shape.form?, hg.tree? hbase, hc, Option.bind_some,
    Option.map_some]

theorem realizes_openArray (he : e.Sound) {base : TypeId} {tree : TypeTree}
    (hbase : IsTree e base tree) (ds : List TypeDecoration) :
    Realizes (insertType ⟨none, .runtimeArray base, ds⟩) e
      (.ok (.node none (.runtimeArray tree) ds)) IsTree := by
  have hbase' : e.target.tree? base = some tree := hbase
  refine realizes_insertType he ?_
  simp only [Spirv.TypeEntry.tree?, Spirv.Shape.form?, hbase', Option.map_some]

theorem realizes_ofArray (he : e.Sound) (elem : Ty) (length : Option Nat) {base : TypeId}
    {tree : TypeTree} (hbase : IsTree e base tree) :
    Realizes (ofArray rule o elem length base) e
      (Written.ofArray e.options rule o elem length tree) IsTree := by
  rw [ofArray, Written.ofArray]
  dsimp only
  cases length with
  | some n =>
    -- the array itself is the same with and without a stride
    have hlast : ∀ e' (ds ds' : List TypeDecoration), e'.Sound → e.Grows e' → ds = ds' →
        Realizes (do insertType ⟨none, .array base (← constant n), ds⟩) e'
          (.ok (.node none (.array tree n) ds')) IsTree := by
      rintro e' ds _ he' hg rfl
      exact realizes_fixedArray he' (hg.tree? hbase) n ds
    split
    · exact (realizes_pure he rfl).bind (R := Same) hlast
    · exact (realizes_strideOf he _).bind hlast
  | none =>
    split
    · refine (realizes_pure he rfl).bind (R := Same) fun e₁ ds ds' he₁ hg₁ hds => ?_
      rw [hds]
      refine (realizes_declare he₁ _ _).step fun e₂ _ he₂ hg₂ _ => ?_
      exact realizes_openArray he₂ ((hg₁.trans hg₂).tree? hbase) ds'
    · refine (realizes_strideOf he _).bind fun e₁ ds ds' he₁ hg₁ hds => ?_
      rw [hds]
      exact realizes_openArray he₁ (hg₁.tree? hbase) ds'

/-! ## Structures -/

/-- Members whose types have given trees. -/
theorem ofMembers?_zipWith_memberOf {m : Spirv.Module} {parts : List Field} {ids : List TypeId}
    {trees : List TypeTree} (h : List.Forall₂ (fun id tree => m.tree? id = some tree) ids trees) :
    TreeMembers.ofMembers? m.tree? (List.zipWith memberOf parts ids)
      = some (Written.members parts trees) := by
  induction h generalizing parts with
  | nil => cases parts <;> rfl
  | cons hid _ ih =>
    cases parts with
    | nil => rfl
    | cons part parts =>
      simp only [List.zipWith_cons_cons, TreeMembers.ofMembers?, memberOf, hid, ih, Written.members,
        Option.bind_some, Option.map_some]

theorem realizes_reportOverlaps (overlaps : List Layout.Overlap) (he : e.Sound) :
    Realizes (overlaps.forM fun o => report (.overlap o) o.position) e (.ok ()) Same := by
  induction overlaps generalizing e with
  | nil => exact realizes_pure he rfl
  | cons o rest ih =>
    exact (realizes_report he _ _).step fun e' _ he' _ _ => ih he'

theorem realizes_layoutDecorations (he : e.Sound) (parts : List Field) :
    Realizes (layoutDecorations rule parts) e (Written.layoutDecorations e.options rule parts)
      Same := by
  rw [layoutDecorations, Written.layoutDecorations]
  split
  · exact realizes_pure he rfl
  · refine realizes_get_bind ((realizes_ofChecked he _).bind fun e₁ x x' he₁ _ hx => ?_)
    rw [hx]
    refine (realizes_reportOverlaps _ he₁).step fun e₂ _ he₂ _ _ => ?_
    exact realizes_ofChecked he₂ _

theorem realizes_ofRecord (he : e.Sound) (name : String) (parts : List Field)
    {ids : List TypeId} {trees : List TypeTree} (h : List.Forall₂ (IsTree e) ids trees)
    (role : BlockRole) :
    Realizes (ofRecord name parts ids rule role) e
      (Written.ofRecord e.options name parts trees rule role) IsTree := by
  rw [ofRecord, Written.ofRecord]
  refine (realizes_layoutDecorations he parts).bind fun e' ds ds' he' hg hds => ?_
  rw [hds]
  refine realizes_insertType he' ?_
  simp only [Spirv.TypeEntry.tree?, Spirv.Shape.form?,
    ofMembers?_zipWith_memberOf (hg.tree?_all h), Option.map_some]

/-! ## Images -/

theorem realizes_describedTexel (he : e.Sound) (kind : Resource) (elem : Ty) :
    Realizes (describedTexel kind elem) e (Written.describedTexel elem) Same := by
  rw [describedTexel, Written.describedTexel]
  cases elem.shape with
  | scalar s => exact realizes_pure he rfl
  | vector s count => exact realizes_pure he rfl
  | matrix s rows cols =>
    refine (realizes_ofChecked he _).bind fun e' n n' he' _ hn => ?_
    rw [hn]
    exact realizes_pure he' rfl
  | struct name base fields =>
    refine (realizes_ofChecked he _).bind fun e₁ r r' he₁ _ hr => ?_
    rw [hr]
    cases r' with
    | ok t => exact realizes_pure he₁ rfl
    | error f => exact (realizes_report he₁ _ _).step fun e₂ _ he₂ _ _ => realizes_pure he₂ rfl
  | void | array | resource | «alias» | oriented =>
    exact (realizes_reportHere he _).step fun e' _ he' _ _ => realizes_pure he' rfl

theorem realizes_texel (he : e.Sound) (kind : Resource) (elem : Option Ty) :
    Realizes (texel kind elem) e (Written.texel e.options elem) Same := by
  cases elem with
  | none => exact realizes_pure he rfl
  | some elem =>
    rw [texel, Written.texel]
    refine (realizes_describedTexel he kind elem).bind fun e₁ t t' he₁ hg₁ ht => ?_
    rw [ht]
    cases t' with
    | none => exact realizes_pure he₁ rfl
    | some t =>
      rw [← hg₁.options]
      refine realizes_get_bind ((realizes_ofChecked he₁ _).bind fun e₂ n n' he₂ _ hn => ?_)
      rw [hn]
      split
      · exact (realizes_reportHere he₂ _).step fun e₃ _ he₃ _ _ => realizes_pure he₃ rfl
      · exact realizes_pure he₂ rfl

theorem realizes_sampledType (he : e.Sound) (s : Scalar) :
    Realizes (sampledType s) e (.ok (Written.ofScalar e.options .unlaid none s)) IsTree :=
  realizes_remembered he (fun _ => rfl) (realizes_ofScalar he s)

theorem realizes_imageFormat (he : e.Sound) (kind : Resource) (writable : Bool) (t : Texel) :
    Realizes (imageFormat kind writable t) e (.ok (t.format e.options)) Same := by
  rw [imageFormat]
  refine realizes_get_bind ?_
  dsimp only
  have hrest : ∀ e', e'.Sound → Realizes
      (if writable && (t.format e.options).isTwoChannel then do
        require .storageImageExtendedFormats
        return t.format e.options
      else return t.format e.options) e' (.ok (t.format e.options)) Same := by
    intro e' he'
    split
    · exact (realizes_require he' _).step fun e'' _ he'' _ _ => realizes_pure he'' rfl
    · exact realizes_pure he' rfl
  split
  · exact (realizes_reportHere he _).step fun e' _ he' _ _ => hrest e' he'
  · exact hrest e he

theorem realizes_imageType (he : e.Sound) (name : String) {sampled : TypeId} {options : Options}
    {s : Scalar} (hs : IsTree e sampled (Written.ofScalar options .unlaid none s))
    (dim : Spirv.ImageDim) (arrayed multisampled inStorage : Bool) (format : Spirv.ImageFormat) :
    Realizes (imageType name sampled dim arrayed multisampled inStorage format) e
      (.ok (Written.imageType options name s dim arrayed multisampled inStorage format))
      IsTree := by
  have hs' : e.target.tree? sampled = _ := hs
  refine realizes_insertType he ?_
  simp only [Spirv.TypeEntry.tree?, Spirv.Shape.form?, hs', Option.map_some, Written.imageType]

theorem realizes_ofTexture (he : e.Sound) (kind : Resource) (dim : TextureDim)
    (arrayed multisampled writable : Bool) (elem : Option Ty) :
    Realizes (ofTexture kind dim arrayed multisampled writable elem) e
      (Written.ofTexture e.options dim arrayed multisampled writable elem) IsTree := by
  rw [ofTexture, Written.ofTexture]
  refine (realizes_texel he kind elem).bind fun e₁ t t' he₁ hg₁ ht => ?_
  rw [ht]
  refine (realizes_sampledType he₁ t'.scalar).step fun e₂ sampled he₂ hg₂ hs => ?_
  have hopt : e₁.options = e.options := hg₁.options
  dsimp only
  -- once the format is known, the rest is the same for both
  have hrest : ∀ e₃ format, e₃.Sound → e₂.Grows e₃ → Realizes
      (do
        declare (dim.capability? arrayed writable) none
        imageType ("type." ++ dim.typeName ++ ".image" ++ (if arrayed then ".array" else ""))
          sampled dim.image arrayed multisampled writable format) e₃
      (.ok (Written.imageType e.options
        ("type." ++ dim.typeName ++ ".image" ++ (if arrayed then ".array" else "")) t'.scalar
        dim.image arrayed multisampled writable format)) IsTree := by
    intro e₃ format he₃ hg₃
    refine (realizes_declare he₃ _ _).step fun e₄ _ he₄ hg₄ _ => ?_
    exact realizes_imageType he₄ _ (hopt ▸ (hg₃.trans hg₄).tree? hs) _ _ _ _ _
  cases writable with
  | true =>
    refine (realizes_imageFormat he₂ kind true t').step fun e₃ format he₃ hg₃ hf => ?_
    rw [hf, hg₂.options, hopt]
    exact hrest e₃ _ he₃ hg₃
  | false => exact hrest e₂ .unknown he₂ (.refl e₂)

theorem realizes_ofBuffer (he : e.Sound) (kind : Resource) (writable : Bool) (elem : Option Ty) :
    Realizes (ofBuffer kind writable elem) e (Written.ofBuffer e.options writable elem) IsTree := by
  rw [ofBuffer, Written.ofBuffer]
  -- what is done does not depend on the report before it
  have hrest : ∀ e₀, e₀.Sound → e.Grows e₀ → Realizes
      (do
        let t ← texel kind elem
        let sampled ← sampledType t.scalar
        let format ← imageFormat kind writable t
        require (if writable then .imageBuffer else .sampledBuffer)
        imageType "type.buffer.image" sampled .buffer false false writable format) e₀
      (do
        let t ← Written.texel e.options elem
        return Written.imageType e.options "type.buffer.image" t.scalar .buffer false false writable
          (t.format e.options)) IsTree := by
    intro e₀ he₀ hg₀
    rw [← hg₀.options]
    refine (realizes_texel he₀ kind elem).bind fun e₁ t t' he₁ hg₁ ht => ?_
    rw [ht]
    refine (realizes_sampledType he₁ t'.scalar).step fun e₂ sampled he₂ hg₂ hs => ?_
    refine (realizes_imageFormat he₂ kind writable t').step fun e₃ format he₃ hg₃ hf => ?_
    refine (realizes_require he₃ _).step fun e₄ _ he₄ hg₄ _ => ?_
    rw [hf, hg₂.options, hg₁.options]
    exact realizes_imageType he₄ _ (hg₁.options ▸ (hg₃.trans hg₄).tree? hs) _ _ _ _ _
  dsimp only
  split
  · exact (realizes_reportHere he _).step fun e₀ _ he₀ hg₀ _ => hrest e₀ he₀ hg₀
  · exact hrest e he (.refl e)

theorem realizes_ofSubpassInput (he : e.Sound) (kind : Resource) (multisampled : Bool)
    (elem : Option Ty) :
    Realizes (ofSubpassInput kind multisampled elem) e
      (Written.ofSubpassInput e.options multisampled elem) IsTree := by
  rw [ofSubpassInput, Written.ofSubpassInput]
  refine (realizes_texel he kind elem).bind fun e₁ t t' he₁ hg₁ ht => ?_
  rw [ht]
  refine (realizes_sampledType he₁ t'.scalar).step fun e₂ sampled he₂ hg₂ hs => ?_
  refine (realizes_require he₂ _).step fun e₃ _ he₃ hg₃ _ => ?_
  exact realizes_imageType he₃ _ (hg₁.options ▸ hg₃.tree? hs) _ _ _ _ _

/-! ## Storage buffers -/

theorem realizes_blockOrAlias (he : e.Sound) {block : TypeId} {tree : TypeTree}
    (hblock : IsTree e block tree) :
    Realizes (blockOrAlias block rule) e (.ok (Written.blockOrAlias tree rule)) IsTree := by
  have hblock' : e.target.tree? block = some tree := hblock
  rw [blockOrAlias, Written.blockOrAlias]
  split
  · refine realizes_insertType he ?_
    simp only [Spirv.TypeEntry.tree?, Spirv.Shape.form?, hblock', Option.map_some, Written.plain]
  · exact realizes_pure he hblock

theorem realizes_wrapArray (he : e.Sound) (name : String) {array : TypeId} {tree : TypeTree}
    (harray : IsTree e array tree) (ds : List TypeDecoration) :
    Realizes (wrapArray name array ds) e (.ok (Written.wrapArray name tree ds)) IsTree := by
  have harray' : e.target.tree? array = some tree := harray
  refine realizes_insertType he ?_
  simp only [Spirv.TypeEntry.tree?, Spirv.Shape.form?, TreeMembers.ofMembers?, harray',
    Option.bind_some, Option.map_some, Written.wrapArray]

theorem realizes_ofStructured (he : e.Sound) (access : StructuredAccess) (elem : Ty)
    {base : TypeId} {tree : TypeTree} (hbase : IsTree e base tree) :
    Realizes (ofStructured access elem base rule) e
      (Written.ofStructured e.options access elem tree rule) IsTree := by
  rw [ofStructured, Written.ofStructured]
  refine realizes_get_bind ((realizes_ofChecked he _).bind fun e₁ x x' he₁ hg₁ hx => ?_)
  rw [hx]
  refine (realizes_openArray he₁ (hg₁.tree? hbase) _).step fun e₂ array he₂ _ harray => ?_
  refine (realizes_ofChecked he₂ _).bind fun e₃ y y' he₃ hg₃ hy => ?_
  rw [hy]
  refine (realizes_wrapArray he₃ _ (hg₃.tree? harray) _).step fun e₄ block he₄ _ hblock => ?_
  exact realizes_blockOrAlias he₄ hblock

theorem realizes_ofByteAddress (he : e.Sound) (kind : Resource) (writable : Bool) :
    Realizes (ofByteAddress kind writable rule) e (.ok (Written.ofByteAddress kind writable rule))
      IsTree := by
  rw [ofByteAddress, Written.ofByteAddress]
  refine (realizes_scalarType he .uint32).step fun e₁ word he₁ _ hword => ?_
  refine (realizes_openArray he₁ hword _).step fun e₂ array he₂ _ harray => ?_
  refine (realizes_wrapArray he₂ _ harray _).step fun e₃ block he₃ _ hblock => ?_
  exact realizes_blockOrAlias he₃ hblock

theorem realizes_counterType (he : e.Sound) :
    Realizes counterType e (.ok Written.counterType) IsTree := by
  rw [counterType]
  refine (realizes_scalarType he .int32).step fun e' number he' _ hnumber => ?_
  have hnumber' : e'.target.tree? number = _ := hnumber
  refine realizes_insertType he' ?_
  simp only [Spirv.TypeEntry.tree?, Spirv.Shape.form?, TreeMembers.ofMembers?, hnumber',
    Option.bind_some, Option.map_some, Written.counterType]

/-! ## Types -/

/-- Trees of several types. -/
abbrev AreTrees (e : Emitter) : List TypeId → List TypeTree → Prop := List.Forall₂ (IsTree e)

theorem realizes_remembered_shape (he : e.Sound) {ty : Ty}
    (halias : ∀ name target, ty ≠ .alias name target)
    (horiented : ∀ order target, ty ≠ .oriented order target) {make : Emit TypeId}
    (hmake : Realizes make e (Written.ofTy e.options ty rule o expected) IsTree) :
    Realizes (remembered ⟨ty, rule, o.order?⟩ expected make) e
      (Written.ofTy e.options ty rule o expected) IsTree := by
  refine realizes_remembered he (fun hexpected => ?_) hmake
  rw [hexpected]
  have horder : Layout.Orientation.order? ⟨none, o.order?⟩ = o.order? := rfl
  exact Written.ofTy_congr halias horiented horder none

/-- A structure from its base and its fields, in the role it is used in. -/
theorem realizes_ofStruct {base : OptionalTy} {fields : Fields}
    (hbase : ∀ e : Emitter, e.Sound →
      Realizes (ofBase base rule) e (Written.ofBase e.options base rule) AreTrees)
    (hfields : ∀ e : Emitter, e.Sound →
      Realizes (ofFields fields rule) e (Written.ofFields e.options fields rule) AreTrees)
    (he : e.Sound) (name : String) (parts : List Field) (role : BlockRole) :
    Realizes
      (do
        let inherited ← ofBase base rule
        let own ← ofFields fields rule
        ofRecord name parts (inherited ++ own) rule role) e
      (do
        let inherited ← Written.ofBase e.options base rule
        let own ← Written.ofFields e.options fields rule
        Written.ofRecord e.options name parts (inherited ++ own) rule role) IsTree := by
  refine (hbase e he).bind fun e₁ ids₁ trees₁ he₁ hg₁ h₁ => ?_
  rw [← hg₁.options]
  refine (hfields e₁ he₁).bind fun e₂ ids₂ trees₂ he₂ hg₂ h₂ => ?_
  rw [← hg₂.options]
  exact realizes_ofRecord he₂ name parts (List.rel_append (hg₂.tree?_all h₁) h₂) role

mutual

/-- **Emission writes the written type**, whatever the emitter has emitted before. -/
theorem realizes_ofTy : (ty : Ty) → (rule : Layout.Rule) → (o : Layout.Orientation) →
    (expected : Option Scalar) → {e : Emitter} → e.Sound →
    Realizes (ofTy ty rule o expected) e (Written.ofTy e.options ty rule o expected) IsTree
  | .alias _ target, rule, o, expected, e, he => by
    rw [ofTy, Written.ofTy]
    exact realizes_ofTy target rule o expected he
  | .oriented order target, rule, o, expected, e, he => by
    rw [ofTy, Written.ofTy]
    exact realizes_ofTy target rule (o.annotate order) expected he
  | .void, rule, o, expected, e, he => by
    rw [ofTy]
    exact realizes_remembered_shape he (by simp) (by simp) (realizes_insertType he rfl)
  | .scalar elem, rule, o, expected, e, he => by
    rw [ofTy]
    refine realizes_remembered_shape he (by simp) (by simp) ?_
    rw [Written.ofTy]
    exact realizes_ofScalar he elem
  | .vector elem count, rule, o, expected, e, he => by
    rw [ofTy]
    refine realizes_remembered_shape he (by simp) (by simp) ?_
    rw [Written.ofTy]
    exact realizes_ofVector he elem count
  | .matrix elem rows cols, rule, o, expected, e, he => by
    rw [ofTy]
    refine realizes_remembered_shape he (by simp) (by simp) ?_
    rw [Written.ofTy]
    exact realizes_ofMatrix he elem rows cols
  | .array elem length, rule, o, expected, e, he => by
    rw [ofTy]
    refine realizes_remembered_shape he (by simp) (by simp) ?_
    rw [Written.ofTy]
    -- the options are those of before the element, so the written type is, too
    refine (realizes_ofTy elem rule o.element expected he).bind fun e' base tree he' hg hbase => ?_
    rw [← hg.options]
    exact realizes_ofArray he' elem length hbase
  | .struct name base fields, rule, o, expected, e, he => by
    rw [ofTy]
    refine realizes_remembered_shape he (by simp) (by simp) ?_
    rw [Written.ofTy]
    exact realizes_ofStruct (fun _ => realizes_ofBase base rule)
      (fun _ => realizes_ofFields fields rule) he name _ .plain
  | .resource kind elem, rule, o, expected, e, he => by
    rw [ofTy]
    refine realizes_remembered_shape he (by simp) (by simp) ?_
    rw [Written.ofTy]
    exact realizes_ofResource elem kind rule he

theorem realizes_ofBase : (base : OptionalTy) → (rule : Layout.Rule) → {e : Emitter} → e.Sound →
    Realizes (ofBase base rule) e (Written.ofBase e.options base rule) AreTrees
  | .absent, rule, e, he => by
    rw [ofBase, Written.ofBase]
    exact realizes_pure he .nil
  | .present ty, rule, e, he => by
    rw [ofBase, Written.ofBase]
    refine (realizes_ofTy ty rule {} none he).bind fun e' id tree he' _ htree => ?_
    exact realizes_pure he' (.cons htree .nil)

theorem realizes_ofFields : (fields : Fields) → (rule : Layout.Rule) → {e : Emitter} → e.Sound →
    Realizes (ofFields fields rule) e (Written.ofFields e.options fields rule) AreTrees
  | .nil, rule, e, he => by
    rw [ofFields, Written.ofFields]
    exact realizes_pure he .nil
  | .cons _ ty _ _ rest, rule, e, he => by
    rw [ofFields, Written.ofFields]
    refine (realizes_ofTy ty rule {} none he).bind fun e₁ id tree he₁ hg₁ htree => ?_
    rw [← hg₁.options]
    refine (realizes_ofFields rest rule he₁).bind fun e₂ ids trees he₂ hg₂ htrees => ?_
    exact realizes_pure he₂ (.cons (hg₂.tree? htree) htrees)

theorem realizes_ofResource : (elem : OptionalTy) → (kind : Resource) → (rule : Layout.Rule) →
    {e : Emitter} → e.Sound →
    Realizes (ofResource elem kind rule) e (Written.ofResource e.options elem kind rule) IsTree
  | elem, .texture dim arrayed multisampled writable, rule, e, he => by
    simp only [ofResource, Written.ofResource]
    exact realizes_ofTexture he _ dim arrayed multisampled writable elem.toOption
  | elem, .buffer writable, rule, e, he => by
    simp only [ofResource, Written.ofResource]
    exact realizes_ofBuffer he _ writable elem.toOption
  | elem, .subpassInput multisampled, rule, e, he => by
    simp only [ofResource, Written.ofResource]
    exact realizes_ofSubpassInput he _ multisampled elem.toOption
  | elem, .sampler comparison, rule, e, he => by
    simp only [ofResource, Written.ofResource]
    exact realizes_insertType he rfl
  | elem, .byteAddress writable, rule, e, he => by
    simp only [ofResource, Written.ofResource]
    exact realizes_ofByteAddress he _ writable
  | .absent, .structured _, rule, e, he | .absent, .stream _, rule, e, he
  | .absent, .inputPatch _, rule, e, he | .absent, .outputPatch _, rule, e, he
  | .absent, .constantBuffer, rule, e, he | .absent, .textureBuffer, rule, e, he => by
    simp only [ofResource, Written.ofResource]
    exact realizes_abort he _
  | .present elem, .structured access, rule, e, he => by
    simp only [ofResource, Written.ofResource]
    refine realizes_get_bind ?_
    refine (realizes_ofTy elem _ {} none he).bind fun e' base tree he' hg hbase => ?_
    rw [← hg.options]
    exact realizes_ofStructured he' access elem hbase
  | .present elem, .stream primitive, rule, e, he => by
    simp only [ofResource, Written.ofResource]
    exact realizes_ofTy elem rule {} none he
  | .present elem, .inputPatch points, rule, e, he
  | .present elem, .outputPatch points, rule, e, he => by
    simp only [ofResource, Written.ofResource]
    refine (realizes_ofTy elem .unlaid {} none he).bind fun e' base tree he' _ hbase => ?_
    exact realizes_fixedArray he' hbase points []
  | .present elem, .constantBuffer, rule, e, he | .present elem, .textureBuffer, rule, e, he => by
    simp only [ofResource, Written.ofResource]
    exact realizes_ofContent elem elem _ rule he

/-- A block from the structure that is its content. -/
theorem realizes_ofContent : (ty whole : Ty) → (kind : Resource) → (rule : Layout.Rule) →
    {e : Emitter} → e.Sound →
    Realizes (ofContent ty whole kind rule) e (Written.ofContent e.options ty kind rule) IsTree
  | .alias _ target, whole, kind, rule, e, he => by
    rw [ofContent, Written.ofContent]
    exact realizes_ofContent target whole kind rule he
  | .oriented _ target, whole, kind, rule, e, he => by
    rw [ofContent, Written.ofContent]
    exact realizes_ofContent target whole kind rule he
  | .struct name base fields, whole, kind, rule, e, he => by
    rw [ofContent, Written.ofContent]
    refine realizes_get_bind ?_
    rcases contentRule e.options kind rule with ⟨inner, role⟩
    exact realizes_ofStruct (fun _ => realizes_ofBase base inner)
      (fun _ => realizes_ofFields fields inner) he _ _ role
  | .void, whole, kind, rule, e, he | .scalar _, whole, kind, rule, e, he
  | .vector _ _, whole, kind, rule, e, he | .matrix _ _ _, whole, kind, rule, e, he
  | .array _ _, whole, kind, rule, e, he | .resource _ _, whole, kind, rule, e, he => by
    simp only [ofContent, Written.ofContent]
    exact (realizes_reportHere he _).step fun e' _ he' _ _ => realizes_throw he' rfl

end

end Emit

end ShaderLowering
