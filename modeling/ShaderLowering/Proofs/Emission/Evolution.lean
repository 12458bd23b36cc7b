import ShaderLowering.Proofs.Emission.Reports
import ShaderLowering.Proofs.Layout.PlainData
import ShaderLowering.Proofs.Spirv.Requirements

/-!
# What emission does to any emitter

Emission adds types, constants and requirements to the module, leaves its variables alone and
reports findings; it does so in every emitter, sound or not, and also where it breaks off.  If all
scalars in the emitted types have standard widths, a capability is declared before the type that
asks for it is added, so a module that declares what its types ask for goes on doing so.

`Emitter.Evolves` says all of this about two emitters, and `Emit.Evolving` that an action keeps it,
wherever it is run.  There is one lemma for each emission function; the main one,
`Emit.evolving_ofTy`, follows the recursion.
-/

namespace ShaderLowering

open Source (Ty OptionalTy Fields Field Scalar Resource Record TextureDim StructuredAccess)
open Spirv (TypeId TypeEntry)

/-! ## Standard widths -/

namespace Source

mutual

/-- Whether all scalars that a type mentions have standard widths, those inside resources too. -/
def Ty.isStandard : Ty → Bool
  | .void => true
  | .scalar elem | .vector elem _ | .matrix elem _ _ => elem.isSized
  | .array elem _ => elem.isStandard
  | .struct _ base fields => base.isStandard && fields.areStandard
  | .resource _ elem => elem.isStandard
  | .alias _ target | .oriented _ target => target.isStandard

/-- Whether all scalars of a type have standard widths, if there is one. -/
def OptionalTy.isStandard : OptionalTy → Bool
  | .absent => true
  | .present ty => ty.isStandard

/-- Whether all scalars in the types of fields have standard widths. -/
def Fields.areStandard : Fields → Bool
  | .nil => true
  | .cons _ ty _ _ rest => ty.isStandard && rest.areStandard

end

theorem Ty.isStandard_shape : (ty : Ty) → ty.shape.isStandard = ty.isStandard
  | .alias _ target => target.isStandard_shape
  | .oriented _ target => target.isStandard_shape
  | .void | .scalar _ | .vector _ _ | .matrix _ _ _ | .array _ _ | .struct _ _ _
  | .resource _ _ => rfl

theorem Ty.isSized_elementScalar? {ty : Ty} (h : ty.isStandard = true) {s : Scalar}
    (hs : ty.elementScalar? = some s) : s.isSized = true := by
  rw [← ty.isStandard_shape] at h
  rw [elementScalar?] at hs
  split at hs <;> cases hs <;> rename_i hshape <;> rw [hshape] at h <;> exact h

theorem OptionalTy.isStandard_toOption {elem : OptionalTy} (h : elem.isStandard = true) {ty : Ty}
    (hty : elem.toOption = some ty) : ty.isStandard = true := by
  cases elem <;> cases hty
  exact h

theorem Fields.isStandard_of_mem : {fields : Fields} → fields.areStandard = true →
    ∀ f ∈ fields.toList, f.ty.isStandard = true
  | .nil, _ => List.forall_mem_nil _
  | .cons _ _ _ _ _, h =>
    have h := Bool.and_eq_true_iff.1 h
    List.forall_mem_cons.2 ⟨h.1, isStandard_of_mem h.2⟩

namespace Scalar

variable {options : Options} {s : Scalar} {expected : Option Scalar}

theorem isSized_settled (hs : s.isSized = true)
    (hexpected : ∀ t, expected = some t → t.isSized = true) :
    (s.settled expected).isSized = true := by
  rw [settled.eq_def]
  split
  · split
    · exact hexpected _ rfl
    · exact hs
  · split
    · exact hexpected _ rfl
    · exact hs
  · exact hs

/-- Nothing settles a literal as a truth value. -/
theorem settled_ne_bool (hs : s ≠ .bool) : s.settled expected ≠ .bool := by
  rw [settled.eq_def]
  split
  · split
    · rintro rfl
      simp_all [isInteger]
    · exact hs
  · split
    · rintro rfl
      simp_all [isFloat]
    · exact hs
  · exact hs

/-- The scalar that is stored asks for the capability that is declared for its width. -/
theorem capability?_stored (rule : Layout.Rule) (hs : s.isSized = true)
    (hexpected : ∀ t, expected = some t → t.isSized = true) :
    (s.stored options rule expected).capability? = s.widthCapability? options expected := by
  rw [stored, widthCapability?]
  split
  · split <;> rfl
  · rename_i hbool
    have hbits : (s.settled expected).bits options = 16 ∨ (s.settled expected).bits options = 32 ∨
        (s.settled expected).bits options = 64 :=
      bits_of_isSized options (isSized_settled hs hexpected)
    rw [expectedBits, kind, if_neg (settled_ne_bool hbool)]
    generalize (s.settled expected).bits options = bits at hbits
    cases (s.settled expected).isFloat <;> cases (s.settled expected).isSigned <;>
      rcases hbits with rfl | rfl | rfl <;> rfl

end Scalar

end Source

/-! ## The contract of emission -/

namespace Emitter

/-- What emission may do to an emitter.  If only scalars of standard widths are emitted
(`standard`), the module goes on declaring what its types ask for. -/
structure Evolves (standard : Prop) (e e' : Emitter) : Prop where
  options : e'.options = e.options
  target : e.target.Grows e'.target
  log : e.log.entries <+: e'.log.entries
  covered : standard → e.target.Covered → e'.target.Covered

variable {standard : Prop} {e e' e'' : Emitter}

theorem Evolves.refl (standard : Prop) (e : Emitter) : e.Evolves standard e :=
  ⟨rfl, .refl _, List.prefix_refl _, fun _ => id⟩

theorem Evolves.trans (h : e.Evolves standard e') (h' : e'.Evolves standard e'') :
    e.Evolves standard e'' where
  options := h'.options.trans h.options
  target := h.target.trans h'.target
  log := h.log.trans h'.log
  covered hstandard he := h'.covered hstandard (h.covered hstandard he)

/-- The contract of emission, which asks nothing of an emitter. -/
def evolution (standard : Prop) : Action.Contract Emitter where
  invariant _ := True
  step := Evolves standard
  refl := .refl standard
  trans := .trans

end Emitter

namespace Emit

open Action.Contract (keeps_pure keeps_throw keeps_ofChecked keeps_get_bind keeps_forM)
open Emitter (evolution)

/-- Wherever it is run, the action only emits. -/
def Evolving {α : Type} (standard : Prop) (x : Emit α) : Prop :=
  ∀ e, (evolution standard).Keeps x e

section

variable {α β : Type} {standard : Prop}

theorem Evolving.bind {x : Emit α} {f : α → Emit β} (hx : Evolving standard x)
    (hf : ∀ a, Evolving standard (f a)) : Evolving standard (x >>= f) :=
  fun e => (hx e).bind fun a e' _ _ _ => hf a e'

theorem evolving_pure (a : α) : Evolving standard (pure a) := fun _ => keeps_pure trivial a

theorem evolving_throw (f : Failure) : Evolving standard (throw f : Emit α) :=
  fun _ => keeps_throw trivial f

theorem evolving_ofChecked (c : Checked α) : Evolving standard (.ofChecked c) :=
  fun _ => keeps_ofChecked trivial c

theorem evolving_get_bind {f : Emitter → Emit α} (hf : ∀ e, Evolving standard (f e)) :
    Evolving standard (get >>= f) :=
  fun e => keeps_get_bind (hf e e)

/-! ### Single steps -/

theorem evolving_moveTo (position : Source.Position) : Evolving standard (moveTo position) :=
  fun e => ⟨trivial, { Emitter.Evolves.refl standard e with }⟩

theorem evolving_report (f : Finding) (position : Source.Position) :
    Evolving standard (report f position) :=
  fun e => ⟨trivial, { Emitter.Evolves.refl standard e with log := List.prefix_append _ _ }⟩

theorem evolving_reportHere (f : Finding) : Evolving standard (reportHere f) :=
  evolving_get_bind fun _ => evolving_report f _

theorem evolving_abort (f : Finding) : Evolving standard (abort f : Emit α) :=
  (evolving_reportHere f).bind fun _ => evolving_get_bind fun _ => evolving_throw _

theorem evolving_require (c : Spirv.Capability) : Evolving standard (require c) := fun e =>
  ⟨trivial, { Emitter.Evolves.refl standard e with
    target := e.target.grows_require c
    covered := fun _ he => Spirv.Module.covered_require he c }⟩

theorem evolving_enable (x : Spirv.Extension) : Evolving standard (enable x) := fun e =>
  ⟨trivial, { Emitter.Evolves.refl standard e with
    target := e.target.grows_enable x
    covered := fun _ he => Spirv.Module.covered_enable he x }⟩

theorem evolving_declare (c : Option Spirv.Capability) (x : Option Spirv.Extension) :
    Evolving standard (declare c x) := by
  have hdeclare : declare c x = ((c.elim (pure ()) fun c => require c) >>= fun _ =>
      x.elim (pure ()) fun x => enable x) := by
    cases c <;> cases x <;> rfl
  rw [hdeclare]
  refine Evolving.bind ?_ fun _ => ?_
  · cases c with
    | none => exact evolving_pure ()
    | some c => exact evolving_require c
  · cases x with
    | none => exact evolving_pure ()
    | some x => exact evolving_enable x

/-- A type is added where all that it asks for is declared. -/
theorem evolves_insertType {e : Emitter} {t : TypeEntry}
    (ht : standard → t.shape.capabilities ⊆ e.target.capabilities) :
    (evolution standard).Keeps (insertType t) e :=
  ⟨trivial, { Emitter.Evolves.refl standard e with
    target := e.target.grows_insertType t
    covered := fun h he => Spirv.Module.covered_insertType he (ht h) }⟩

theorem evolving_insertType {t : TypeEntry} (ht : t.shape.capabilities = []) :
    Evolving standard (insertType t) :=
  fun _ => evolves_insertType fun _ => ht ▸ List.nil_subset _

theorem evolving_constant (value : Nat) : Evolving standard (constant value) := fun e =>
  ⟨trivial, { Emitter.Evolves.refl standard e with
    target := e.target.grows_constant value
    covered := fun _ he => Spirv.Module.covered_constant he value }⟩

theorem evolving_remembered {key : EmissionKey} {expected : Option Scalar} {make : Emit TypeId}
    (hmake : Evolving standard make) : Evolving standard (remembered key expected make) := by
  rw [remembered]
  split
  · exact hmake
  · refine evolving_get_bind fun e => ?_
    split
    · exact evolving_pure _
    · exact hmake.bind fun id e => ⟨trivial, { Emitter.Evolves.refl standard e with }⟩

end

variable {standard : Prop} {rule : Layout.Rule} {o : Layout.Orientation} {expected : Option Scalar}
  {e e' : Emitter}

/-! ## Scalars, vectors, matrices and arrays -/

theorem evolving_storedScalar (s : Scalar) : Evolving standard (storedScalar rule expected s) :=
  evolving_get_bind fun _ => (evolving_declare _ _).bind fun _ => evolving_pure _

/-- A capability is there once it is declared. -/
theorem declared_declare {c : Option Spirv.Capability} {u : Unit}
    (h : (declare c none).runOn e = (.ok u, e')) : c.toList ⊆ e'.target.capabilities := by
  cases h
  cases c with
  | none => exact List.nil_subset _
  | some c => exact List.cons_subset.2 ⟨e.target.mem_require c, List.nil_subset _⟩

/-- What a stored scalar asks for is declared before it is used. -/
theorem declared_storedScalar {s : Scalar} {stored : Spirv.Scalar} (hs : s.isSized = true)
    (hexpected : ∀ t, expected = some t → t.isSized = true)
    (h : (storedScalar rule expected s).runOn e = (.ok stored, e')) :
    stored.capability?.toList ⊆ e'.target.capabilities := by
  obtain ⟨_, _, hget, h⟩ := Action.runOn_bind_eq_ok_iff.1 h
  cases hget
  obtain ⟨_, e₁, hdeclare, h⟩ := Action.runOn_bind_eq_ok_iff.1 h
  cases h
  rw [Scalar.capability?_stored rule hs hexpected]
  exact declared_declare hdeclare

theorem evolving_vectorSize (count : Nat) : Evolving standard (vectorSize count) := by
  rw [vectorSize]
  split
  · exact evolving_pure _
  · exact evolving_abort _

theorem evolving_strideOf (ty : Ty) : Evolving standard (strideOf rule ty o) := by
  rw [strideOf]
  split
  · exact evolving_pure _
  · exact evolving_get_bind fun _ => (evolving_ofChecked _).bind fun _ => evolving_pure _

theorem evolving_ofArray (elem : Ty) (length : Option Nat) (base : TypeId) :
    Evolving standard (ofArray rule o elem length base) := by
  rw [ofArray]
  dsimp only
  cases length with
  | some n =>
    have hlast : ∀ ds, Evolving standard (do insertType ⟨none, .array base (← constant n), ds⟩) :=
      fun _ => (evolving_constant n).bind fun _ => evolving_insertType rfl
    split
    · exact (evolving_pure _).bind hlast
    · exact (evolving_strideOf _).bind hlast
  | none =>
    have hlast : ∀ ds, Evolving standard (insertType ⟨none, .runtimeArray base, ds⟩) :=
      fun _ => evolving_insertType rfl
    split
    · exact (evolving_pure _).bind fun ds => (evolving_declare _ _).bind fun _ => hlast ds
    · exact (evolving_strideOf _).bind hlast

section Numeric

variable {elem : Scalar} (helem : standard → elem.isSized = true)
  (hexpected : standard → ∀ t, expected = some t → t.isSized = true)

include helem hexpected

theorem evolving_ofScalar : Evolving standard (ofScalar rule expected elem) := fun e =>
  (evolving_storedScalar elem e).bind fun _ _ _ _ hrun =>
    evolves_insertType fun h => declared_storedScalar (helem h) (hexpected h) hrun

theorem evolving_ofVector (count : Nat) : Evolving standard (ofVector rule expected elem count) := by
  intro e
  refine (evolving_storedScalar elem e).bind fun stored e₁ _ _ hrun => ?_
  have hdeclared : standard → stored.capability?.toList ⊆ e₁.target.capabilities :=
    fun h => declared_storedScalar (helem h) (hexpected h) hrun
  split
  · exact evolves_insertType hdeclared
  · exact (evolving_vectorSize count e₁).bind fun size e₂ _ hstep _ => evolves_insertType fun h =>
      List.Subset.trans (hdeclared h) hstep.target.capabilities

theorem evolving_ofMatrix (rows cols : Nat) :
    Evolving standard (ofMatrix rule o expected elem rows cols) := by
  rw [ofMatrix]
  split
  · exact (evolving_ofChecked _).bind fun count => evolving_ofVector helem hexpected count
  · refine (evolving_ofVector helem hexpected cols).bind fun row => ?_
    split
    · exact (evolving_vectorSize rows).bind fun _ => evolving_insertType rfl
    · exact (evolving_constant rows).bind fun _ => (evolving_strideOf _).bind fun _ =>
        evolving_insertType rfl

end Numeric

/-! ## Structures -/

theorem evolving_layoutDecorations (parts : List Field) :
    Evolving standard (layoutDecorations rule parts) := by
  rw [layoutDecorations]
  split
  · exact evolving_pure _
  · refine evolving_get_bind fun _ => (evolving_ofChecked _).bind fun layout => ?_
    exact Evolving.bind (fun _ => keeps_forM _ (fun o e _ => evolving_report _ _ e) trivial)
      fun _ => evolving_ofChecked _

theorem evolving_ofRecord (name : String) (parts : List Field) (types : List TypeId)
    (role : BlockRole) : Evolving standard (ofRecord name parts types rule role) :=
  (evolving_layoutDecorations parts).bind fun _ => evolving_insertType rfl

/-! ## Images -/

end Emit

namespace Texel

/-- All scalars of an element have standard widths. -/
def IsStandard (t : Texel) : Prop := t.scalar.isSized = true

theorem isStandard_ofVector? {ty : Ty} (hty : ty.isStandard = true) {t : Texel}
    (h : ofVector? ty = some t) : t.IsStandard := by
  rw [← ty.isStandard_shape] at hty
  rw [ofVector?] at h
  split at h <;> cases h <;> rename_i hshape <;> rw [hshape] at hty <;> exact hty

/-- The scalar of an element that is joined from fields is that of one of them. -/
theorem isStandard_joinFields : (fields : List Field) → {texel : Option Texel} →
    {joined : Option Texel} → joinFields texel fields = .ok (.ok joined) →
    (∀ f ∈ fields, f.ty.isStandard = true) → (∀ t, texel = some t → t.IsStandard) →
    ∀ t, joined = some t → t.IsStandard
  | [], _, _, h, _, htexel => by
    cases h
    exact htexel
  | field :: rest, texel, joined, h, hfields, htexel => by
    obtain ⟨hfield, hrest⟩ := List.forall_mem_cons.1 hfields
    rw [joinFields.eq_def] at h
    dsimp only at h
    split at h
    · cases h
    · rename_i t hvector
      refine isStandard_joinFields rest h hrest ?_
      rintro _ ⟨⟩
      exact isStandard_ofVector? hfield hvector
    · rename_i t sum hvector
      split at h
      · obtain ⟨lanes, -, h⟩ := bind_eq_ok_iff.1 h
        refine isStandard_joinFields rest h hrest ?_
        rintro _ ⟨⟩
        exact htexel sum rfl
      · cases h

theorem isStandard_describedTexel {elem : Ty} (helem : elem.isStandard = true) {texel : Option Texel}
    (h : Written.describedTexel elem = .ok texel) : ∀ t, texel = some t → t.IsStandard := by
  rw [← elem.isStandard_shape] at helem
  rw [Written.describedTexel] at h
  cases hshape : elem.shape with
  | scalar s | vector s count =>
    rw [hshape] at h helem
    cases h
    rintro _ ⟨⟩
    exact helem
  | matrix s rows cols =>
    rw [hshape] at h helem
    obtain ⟨n, -, h⟩ := bind_eq_ok_iff.1 h
    cases h
    rintro _ ⟨⟩
    exact helem
  | struct name base fields =>
    rw [hshape] at h helem
    obtain ⟨r, hr, h⟩ := bind_eq_ok_iff.1 h
    cases r with
    | error f =>
      cases h
      rintro _ ⟨⟩
    | ok joined =>
      cases h
      have hfields := Fields.isStandard_of_mem (Bool.and_eq_true_iff.1 helem).2
      refine isStandard_joinFields _ (Written.ofChecked_eq_ok_iff.1 hr) hfields ?_
      rintro _ ⟨⟩
  | void | array | resource | «alias» | oriented =>
    rw [hshape] at h
    cases h
    rintro _ ⟨⟩

/-- The scalar of an image has a standard width if those in its element do. -/
theorem isStandard_texel {options : Options} {elem : Option Ty}
    (helem : ∀ ty, elem = some ty → ty.isStandard = true) {t : Texel}
    (h : Written.texel options elem = .ok t) : t.IsStandard := by
  cases elem with
  | none =>
    cases h
    rfl
  | some ty =>
    obtain ⟨described, hdescribed, h⟩ := bind_eq_ok_iff.1 h
    cases described with
    | none =>
      cases h
      rfl
    | some u =>
      obtain ⟨n, -, h⟩ := bind_eq_ok_iff.1 h
      split at h <;> cases h
      · rfl
      · exact isStandard_describedTexel (helem ty rfl) hdescribed _ rfl

end Texel

namespace Emit

open Emitter (evolution)

variable {standard : Prop} {rule : Layout.Rule} {e e' : Emitter}

theorem evolving_describedTexel (kind : Resource) (elem : Ty) :
    Evolving standard (describedTexel kind elem) := by
  rw [describedTexel]
  cases elem.shape with
  | scalar s => exact evolving_pure _
  | vector s count => exact evolving_pure _
  | matrix s rows cols => exact (evolving_ofChecked _).bind fun _ => evolving_pure _
  | struct name base fields =>
    refine (evolving_ofChecked _).bind fun r => ?_
    cases r with
    | ok t => exact evolving_pure _
    | error f => exact (evolving_report _ _).bind fun _ => evolving_pure _
  | void | array | resource | «alias» | oriented =>
    exact (evolving_reportHere _).bind fun _ => evolving_pure _

theorem evolving_texel (kind : Resource) (elem : Option Ty) :
    Evolving standard (texel kind elem) := by
  cases elem with
  | none => exact evolving_pure _
  | some elem =>
    refine (evolving_describedTexel kind elem).bind fun t => ?_
    cases t with
    | none => exact evolving_pure _
    | some t =>
      refine evolving_get_bind fun _ => (evolving_ofChecked _).bind fun n => ?_
      split
      · exact (evolving_reportHere _).bind fun _ => evolving_pure _
      · exact evolving_pure _

theorem evolving_sampledType {s : Scalar} (hs : standard → s.isSized = true) :
    Evolving standard (sampledType s) :=
  evolving_remembered (evolving_ofScalar hs fun _ => nofun)

/-- The element of an image and the type of its samples. -/
theorem evolving_texel_sampledType (kind : Resource) {elem : Option Ty}
    (helem : standard → ∀ ty, elem = some ty → ty.isStandard = true) {α : Type}
    {f : Texel → TypeId → Emit α} (hf : ∀ t sampled, Evolving standard (f t sampled)) :
    Evolving standard (do
      let t ← texel kind elem
      let sampled ← sampledType t.scalar
      f t sampled) := fun e =>
  (evolving_texel kind elem e).bind fun t e₁ _ _ hrun =>
    (evolving_sampledType (fun h => Texel.isStandard_texel (helem h) (texel_answer rfl hrun)) e₁).bind
      fun sampled e₂ _ _ _ => hf t sampled e₂

theorem evolving_imageFormat (kind : Resource) (writable : Bool) (t : Texel) :
    Evolving standard (imageFormat kind writable t) := by
  refine evolving_get_bind fun e => ?_
  dsimp only
  have hrest : Evolving standard (if writable && (t.format e.options).isTwoChannel then do
      require .storageImageExtendedFormats
      return t.format e.options
    else return t.format e.options) := by
    split
    · exact (evolving_require _).bind fun _ => evolving_pure _
    · exact evolving_pure _
  split
  · exact (evolving_reportHere _).bind fun _ => hrest
  · exact hrest

/-- What the format of a storage image asks for is declared with it. -/
theorem declared_imageFormat {kind : Resource} {writable : Bool} {t : Texel}
    {format : Spirv.ImageFormat} (h : (imageFormat kind writable t).runOn e = (.ok format, e')) :
    (if writable && format.isTwoChannel then [Spirv.Capability.storageImageExtendedFormats]
      else []) ⊆ e'.target.capabilities := by
  obtain ⟨_, _, hget, h⟩ := Action.runOn_bind_eq_ok_iff.1 h
  cases hget
  dsimp only at h
  have hrest : ∀ e₁, (if writable && (t.format e.options).isTwoChannel then do
        require .storageImageExtendedFormats
        return t.format e.options
      else return t.format e.options : Emit Spirv.ImageFormat).runOn e₁ = (.ok format, e') →
      (if writable && format.isTwoChannel then [Spirv.Capability.storageImageExtendedFormats]
        else []) ⊆ e'.target.capabilities := by
    intro e₁ h
    split at h
    · rename_i htwo
      cases h
      rw [if_pos htwo]
      exact declared_declare (c := some .storageImageExtendedFormats) (e := e₁) rfl
    · rename_i htwo
      cases h
      rw [if_neg htwo]
      exact List.nil_subset _
  split at h
  · obtain ⟨_, e₁, _, h⟩ := Action.runOn_bind_eq_ok_iff.1 h
    exact hrest e₁ h
  · exact hrest e h

/-- An image type is added where what it asks for is declared. -/
theorem evolves_imageType (name : String) (sampled : TypeId) {dim : Spirv.ImageDim}
    {arrayed inStorage : Bool} (multisampled : Bool) {format : Spirv.ImageFormat}
    (hdim : (dim.capability? arrayed inStorage).toList ⊆ e.target.capabilities)
    (hformat : (if inStorage && format.isTwoChannel then
      [Spirv.Capability.storageImageExtendedFormats] else []) ⊆ e.target.capabilities) :
    (evolution standard).Keeps
      (imageType name sampled dim arrayed multisampled inStorage format) e := by
  refine evolves_insertType fun _ => List.append_subset.2 ?_
  cases inStorage <;> exact ⟨hdim, hformat⟩

theorem capability?_image (dim : TextureDim) (arrayed writable : Bool) :
    dim.image.capability? arrayed writable = dim.capability? arrayed writable := by
  cases dim <;> cases arrayed <;> cases writable <;> rfl

theorem evolving_ofTexture (kind : Resource) (dim : TextureDim)
    (arrayed multisampled writable : Bool) {elem : Option Ty}
    (helem : standard → ∀ ty, elem = some ty → ty.isStandard = true) :
    Evolving standard (ofTexture kind dim arrayed multisampled writable elem) := by
  refine evolving_texel_sampledType kind helem fun t sampled e => ?_
  -- from the format on, whatever declared it
  have hrest : ∀ (format : Spirv.ImageFormat) (e₁ : Emitter),
      (if writable && format.isTwoChannel then [Spirv.Capability.storageImageExtendedFormats]
        else []) ⊆ e₁.target.capabilities →
      (evolution standard).Keeps (do
        declare (dim.capability? arrayed writable) none
        imageType ("type." ++ dim.typeName ++ ".image" ++ (if arrayed then ".array" else ""))
          sampled dim.image arrayed multisampled writable format) e₁ := by
    intro format e₁ hformat
    refine (evolving_declare _ _ e₁).bind fun _ e₂ _ hstep hrun => ?_
    refine evolves_imageType _ _ _ ?_ (List.Subset.trans hformat hstep.target.capabilities)
    rw [capability?_image]
    exact declared_declare hrun
  cases writable with
  | true =>
    exact (evolving_imageFormat kind true t e).bind fun format e₁ _ _ hrun =>
      hrest format e₁ (declared_imageFormat hrun)
  | false => exact hrest .unknown e (List.nil_subset _)

theorem evolving_ofBuffer (kind : Resource) (writable : Bool) {elem : Option Ty}
    (helem : standard → ∀ ty, elem = some ty → ty.isStandard = true) :
    Evolving standard (ofBuffer kind writable elem) := by
  have hrest : Evolving standard (do
      let t ← texel kind elem
      let sampled ← sampledType t.scalar
      let format ← imageFormat kind writable t
      require (if writable then .imageBuffer else .sampledBuffer)
      imageType "type.buffer.image" sampled .buffer false false writable format) := by
    refine evolving_texel_sampledType kind helem fun t sampled e => ?_
    refine (evolving_imageFormat kind writable t e).bind fun format e₁ _ _ hrun => ?_
    have hformat := declared_imageFormat hrun
    refine (evolving_require _ e₁).bind fun _ e₂ _ hstep hrun₂ => ?_
    refine evolves_imageType _ _ _ ?_ (List.Subset.trans hformat hstep.target.capabilities)
    have hdeclared := declared_declare (c := some _) hrun₂
    cases writable <;> exact hdeclared
  rw [ofBuffer]
  dsimp only
  split
  · exact (evolving_reportHere _).bind fun _ => hrest
  · exact hrest

theorem evolving_ofSubpassInput (kind : Resource) (multisampled : Bool) {elem : Option Ty}
    (helem : standard → ∀ ty, elem = some ty → ty.isStandard = true) :
    Evolving standard (ofSubpassInput kind multisampled elem) := by
  refine evolving_texel_sampledType kind helem fun t sampled e => ?_
  refine (evolving_require _ e).bind fun _ e₁ _ _ hrun => ?_
  refine evolves_imageType _ _ _ ?_ (List.nil_subset _)
  exact declared_declare (c := some .inputAttachment) hrun

/-! ## Storage buffers -/

theorem evolving_blockOrAlias (block : TypeId) : Evolving standard (blockOrAlias block rule) := by
  rw [blockOrAlias]
  split
  · exact evolving_insertType rfl
  · exact evolving_pure _

theorem evolving_ofStructured (access : StructuredAccess) (elem : Ty) (base : TypeId) :
    Evolving standard (ofStructured access elem base rule) :=
  evolving_get_bind fun _ => (evolving_ofChecked _).bind fun _ =>
    (evolving_insertType rfl).bind fun _ => (evolving_ofChecked _).bind fun _ =>
      (evolving_insertType rfl).bind fun _ => evolving_blockOrAlias _

theorem evolving_ofByteAddress (kind : Resource) (writable : Bool) :
    Evolving standard (ofByteAddress kind writable rule) :=
  (evolving_insertType rfl).bind fun _ => (evolving_insertType rfl).bind fun _ =>
    (evolving_insertType rfl).bind fun _ => evolving_blockOrAlias _

theorem evolving_counterType : Evolving standard counterType :=
  (evolving_insertType rfl).bind fun _ => evolving_insertType rfl

/-! ## Types -/

section Types

mutual

/-- **Emission of a type only emits**, and declares what the type asks for. -/
theorem evolving_ofTy : (ty : Ty) → (rule : Layout.Rule) → (o : Layout.Orientation) →
    (expected : Option Scalar) → (standard → ty.isStandard = true) →
    (standard → ∀ t, expected = some t → t.isSized = true) →
    Evolving standard (ofTy ty rule o expected)
  | .alias _ target, rule, o, expected, hty, hexpected =>
    evolving_ofTy target rule o expected hty hexpected
  | .oriented order target, rule, o, expected, hty, hexpected =>
    evolving_ofTy target rule (o.annotate order) expected hty hexpected
  | .void, _, _, _, _, _ => evolving_remembered (evolving_insertType rfl)
  | .scalar _, _, _, _, hty, hexpected => evolving_remembered (evolving_ofScalar hty hexpected)
  | .vector _ count, _, _, _, hty, hexpected =>
    evolving_remembered (evolving_ofVector hty hexpected count)
  | .matrix _ rows cols, _, _, _, hty, hexpected =>
    evolving_remembered (evolving_ofMatrix hty hexpected rows cols)
  | .array elem length, rule, o, expected, hty, hexpected => by
    rw [ofTy]
    exact evolving_remembered ((evolving_ofTy elem rule o.element expected hty hexpected).bind
      fun base => evolving_ofArray elem length base)
  | .struct name base fields, rule, o, expected, hty, _ => by
    have hparts := fun h => Bool.and_eq_true_iff.1 (hty h)
    rw [ofTy]
    exact evolving_remembered ((evolving_ofBase base rule fun h => (hparts h).1).bind
      fun inherited => (evolving_ofFields fields rule fun h => (hparts h).2).bind
        fun own => evolving_ofRecord _ _ _ _)
  | .resource kind elem, rule, _, _, hty, _ =>
    evolving_remembered (evolving_ofResource elem kind rule hty)

theorem evolving_ofBase : (base : OptionalTy) → (rule : Layout.Rule) →
    (standard → base.isStandard = true) → Evolving standard (ofBase base rule)
  | .absent, _, _ => evolving_pure _
  | .present ty, rule, hty =>
    (evolving_ofTy ty rule {} none hty fun _ => nofun).bind fun _ => evolving_pure _

theorem evolving_ofFields : (fields : Fields) → (rule : Layout.Rule) →
    (standard → fields.areStandard = true) → Evolving standard (ofFields fields rule)
  | .nil, _, _ => evolving_pure _
  | .cons _ ty _ _ rest, rule, hfields => by
    have hparts := fun h => Bool.and_eq_true_iff.1 (hfields h)
    exact (evolving_ofTy ty rule {} none (fun h => (hparts h).1) fun _ => nofun).bind fun _ =>
      (evolving_ofFields rest rule fun h => (hparts h).2).bind fun _ => evolving_pure _

theorem evolving_ofResource : (elem : OptionalTy) → (kind : Resource) → (rule : Layout.Rule) →
    (standard → elem.isStandard = true) → Evolving standard (ofResource elem kind rule)
  | elem, .texture dim arrayed multisampled writable, rule, helem => by
    simp only [ofResource]
    exact evolving_ofTexture _ dim arrayed multisampled writable
      (fun h _ => OptionalTy.isStandard_toOption (helem h))
  | elem, .buffer writable, rule, helem => by
    simp only [ofResource]
    exact evolving_ofBuffer _ writable (fun h _ => OptionalTy.isStandard_toOption (helem h))
  | elem, .subpassInput multisampled, rule, helem => by
    simp only [ofResource]
    exact evolving_ofSubpassInput _ multisampled
      (fun h _ => OptionalTy.isStandard_toOption (helem h))
  | elem, .sampler comparison, rule, helem => by
    simp only [ofResource]
    exact evolving_insertType rfl
  | elem, .byteAddress writable, rule, helem => by
    simp only [ofResource]
    exact evolving_ofByteAddress _ writable
  | .absent, .structured _, rule, helem | .absent, .stream _, rule, helem
  | .absent, .inputPatch _, rule, helem | .absent, .outputPatch _, rule, helem
  | .absent, .constantBuffer, rule, helem | .absent, .textureBuffer, rule, helem => by
    simp only [ofResource]
    exact evolving_abort _
  | .present elem, .structured access, rule, helem => by
    simp only [ofResource]
    exact evolving_get_bind fun _ => (evolving_ofTy elem _ {} none helem fun _ => nofun).bind
      fun base => evolving_ofStructured access elem base
  | .present elem, .stream primitive, rule, helem => by
    simp only [ofResource]
    exact evolving_ofTy elem rule {} none helem fun _ => nofun
  | .present elem, .inputPatch points, rule, helem
  | .present elem, .outputPatch points, rule, helem => by
    simp only [ofResource]
    exact (evolving_ofTy elem .unlaid {} none helem fun _ => nofun).bind fun base =>
      (evolving_constant points).bind fun _ => evolving_insertType rfl
  | .present elem, .constantBuffer, rule, helem | .present elem, .textureBuffer, rule, helem => by
    simp only [ofResource]
    exact evolving_ofContent elem elem _ rule helem

theorem evolving_ofContent : (ty whole : Ty) → (kind : Resource) → (rule : Layout.Rule) →
    (standard → ty.isStandard = true) → Evolving standard (ofContent ty whole kind rule)
  | .alias _ target, whole, kind, rule, hty => by
    rw [ofContent]
    exact evolving_ofContent target whole kind rule hty
  | .oriented _ target, whole, kind, rule, hty => by
    rw [ofContent]
    exact evolving_ofContent target whole kind rule hty
  | .struct name base fields, whole, kind, rule, hty => by
    have hparts := fun h => Bool.and_eq_true_iff.1 (hty h)
    rw [ofContent]
    refine evolving_get_bind fun e => ?_
    rcases contentRule e.options kind rule with ⟨inner, role⟩
    exact (evolving_ofBase base inner fun h => (hparts h).1).bind fun inherited =>
      (evolving_ofFields fields inner fun h => (hparts h).2).bind fun own =>
        evolving_ofRecord _ _ _ _
  | .void, whole, kind, rule, _ | .scalar _, whole, kind, rule, _
  | .vector _ _, whole, kind, rule, _ | .matrix _ _ _, whole, kind, rule, _
  | .array _ _, whole, kind, rule, _ | .resource _ _, whole, kind, rule, _ => by
    simp only [ofContent]
    exact (evolving_reportHere _).bind fun _ => evolving_throw _

end

end Types

theorem evolving_type {ty : Ty} (hty : standard → ty.isStandard = true) (rule : Layout.Rule) :
    Evolving standard (type ty rule) :=
  evolving_ofTy ty rule {} none hty fun _ => nofun

theorem evolving_typeExpecting {ty : Ty} (hty : standard → ty.isStandard = true)
    (rule : Layout.Rule) {expected : Option Ty}
    (hexpected : standard → ∀ ty, expected = some ty → ty.isStandard = true) :
    Evolving standard (typeExpecting ty rule expected) := by
  refine evolving_ofTy ty rule {} _ hty fun h t ht => ?_
  obtain ⟨hint, rfl, ht⟩ := Option.bind_eq_some_iff.1 ht
  exact Ty.isSized_elementScalar? (hexpected h hint rfl) ht

theorem evolving_blockType (name : String) {parts : List Field} (rule : Layout.Rule)
    (role : BlockRole) (hparts : standard → ∀ f ∈ parts, f.ty.isStandard = true) :
    Evolving standard (blockType name parts rule role) := by
  have htypes : Evolving standard (parts.mapM fun part => type part.ty rule) := by
    induction parts with
    | nil => exact evolving_pure _
    | cons part rest ih =>
      rw [List.mapM_cons]
      have hall := fun h => List.forall_mem_cons.1 (hparts h)
      exact (evolving_type (fun h => (hall h).1) rule).bind fun _ =>
        (ih fun h => (hall h).2).bind fun _ => evolving_pure _
  exact htypes.bind fun types => evolving_ofRecord name parts types role

end Emit

end ShaderLowering
