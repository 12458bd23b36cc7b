import ShaderLowering.Proofs.Emission.Interchange
import ShaderLowering.Proofs.Emission.Pointers
import ShaderLowering.Proofs.Layout.Typedefs

/-!
# Typedef names and emitted types

Typedef names are taken off wherever emission meets them, with one exception: a storage buffer is
named after its elements, and elements that are no structure are spelled out as they were declared.
So a type can be emitted without its typedef names in the place of the declared one exactly if no
storage buffer in it has a typedef name in its own name (`Emit.interchangeable_unaliased_iff`).
-/

namespace ShaderLowering

open Source (Ty OptionalTy Fields Field Record Resource)
open Spirv (TypeTree TreeMembers)

namespace Source

/-- Whether a storage buffer with such elements is named alike without typedef names: by the
declaration of a structure, else by the spelling of the type. -/
def Ty.keepsName (elem : Ty) : Bool :=
  elem.record?.isSome || elem.text == elem.unaliased.text

mutual

/-- Whether every storage buffer that is emitted for the type is named alike without typedef
names. -/
def Ty.keepsBufferNames : Ty → Bool
  | .alias _ target | .oriented _ target => target.keepsBufferNames
  | .array elem _ => elem.keepsBufferNames
  | .struct _ base fields => base.keepsBufferNames && fields.keepBufferNames
  | .resource kind elem => elem.keepsBufferNamesIn kind
  | .void | .scalar _ | .vector _ _ | .matrix _ _ _ => true

/-- Whether the storage buffers for the type, if there is one, are named alike. -/
def OptionalTy.keepsBufferNames : OptionalTy → Bool
  | .absent => true
  | .present ty => ty.keepsBufferNames

/-- Whether the storage buffers for a resource with such an element are named alike.  The element
of an image is not emitted. -/
def OptionalTy.keepsBufferNamesIn (kind : Resource) : OptionalTy → Bool
  | .absent => true
  | .present elem =>
    match kind with
    | .structured _ => elem.keepsName && elem.keepsBufferNames
    | .constantBuffer | .textureBuffer | .inputPatch _ | .outputPatch _ | .stream _ =>
      elem.keepsBufferNames
    | _ => true

/-- Whether the storage buffers for the types of all fields are named alike. -/
def Fields.keepBufferNames : Fields → Bool
  | .nil => true
  | .cons _ ty _ _ rest => ty.keepsBufferNames && rest.keepBufferNames

end

end Source

namespace Written

/-! ## Equality under a condition -/

/-- Both are written, and they are the same exactly under the condition, or both fail for the same
reason. -/
def SameIff {α : Type} (condition : Prop) : Written α → Written α → Prop
  | .ok a, .ok b => a = b ↔ condition
  | .error f, .error g => f = g
  | _, _ => False

namespace SameIff

variable {α β : Type} {p q : Prop} {x y : Written α} {f g : α → Written β}

theorem refl (hp : p) (x : Written α) : SameIff p x x := by
  cases x with
  | ok a => exact iff_of_true rfl hp
  | error e => exact rfl

theorem bind (h : SameIff p x y)
    (hfg : ∀ a b, x = .ok a → y = .ok b → (a = b ↔ p) → SameIff q (f a) (g b)) :
    SameIff q (x >>= f) (y >>= g) := by
  rcases x with e | a <;> rcases y with e' | b
  · exact h
  · exact False.elim h
  · exact False.elim h
  · exact hfg a b rfl rfl h

/-- A part that is the same on both sides decides nothing. -/
theorem bind_same (x : Written α) (hfg : ∀ a, SameIff q (f a) (g a)) :
    SameIff q (x >>= f) (x >>= g) := by
  cases x with
  | ok a => exact hfg a
  | error e => exact rfl

theorem eq_iff (h : SameIff p x y) : x = y ↔ ((∃ a, x = .ok a) → p) := by
  rcases x with e | a <;> rcases y with e' | b
  · refine iff_of_true (congrArg Except.error h) ?_
    rintro ⟨a, ha⟩
    cases ha
  · exact False.elim h
  · exact False.elim h
  · have hab : a = b ↔ p := h
    rw [Except.ok.injEq, hab]
    exact ⟨fun hp _ => hp, fun hp => hp ⟨a, rfl⟩⟩

end SameIff

/-! ## Parts of types -/

variable {options : Options} {rule : Layout.Rule} {o : Layout.Orientation}

theorem describedTexel_unaliased : (ty : Ty) → describedTexel ty.unaliased = describedTexel ty
  | .alias _ target | .oriented _ target => describedTexel_unaliased target
  | .struct name base fields => by
    simp only [Ty.unaliased, describedTexel, Ty.shape, Fields.toList_unaliased,
      Texel.joinFields_unaliased]
  | .void | .scalar _ | .vector _ _ | .matrix _ _ _ | .array _ _ | .resource _ _ => rfl

theorem texel_unaliased (elem : OptionalTy) :
    texel options elem.unaliased.toOption = texel options elem.toOption := by
  cases elem with
  | absent => rfl
  | present elem =>
    simp only [OptionalTy.unaliased, OptionalTy.toOption, texel, describedTexel_unaliased]

theorem layoutDecorations_unaliased (parts : List Field) :
    layoutDecorations options rule (parts.map Field.unaliased)
      = layoutDecorations options rule parts := by
  simp only [layoutDecorations, Layout.unplacedParts_unaliased, Layout.partDecorations_unaliased]

theorem count_unaliased (base : OptionalTy) : base.unaliased.count = base.count := by
  cases base <;> rfl

/-- Members have the same names without typedef names, so they are the same if their types are. -/
theorem members_unaliased_inj : (parts : List Field) → (trees trees' : List TypeTree) →
    parts.length = trees.length → parts.length = trees'.length →
    (members parts trees = members (parts.map Field.unaliased) trees' ↔ trees = trees')
  | [], [], [], _, _ => iff_of_true rfl rfl
  | part :: parts, tree :: trees, tree' :: trees', h, h' => by
    rw [List.map_cons, members, members, TreeMembers.cons.injEq, List.cons.injEq,
      members_unaliased_inj parts trees trees' (Nat.succ.inj h) (Nat.succ.inj h')]
    exact and_iff_right rfl

theorem sameIff_ofArray {p : Prop} {elem : Ty} {base base' : TypeTree} (h : base = base' ↔ p)
    (length : Option Nat) :
    SameIff p (ofArray options rule o elem length base)
      (ofArray options rule o elem.unaliased length base') := by
  have hstride : strideOf options rule (.array elem.unaliased length) o
      = strideOf options rule (.array elem length) o := by
    rw [strideOf, strideOf, ← Layout.extentAt_unaliased (.array elem length) o, Ty.unaliased]
  rw [ofArray, ofArray, elem.isResourceArray_unaliased, hstride]
  cases length with
  | some n =>
    have hnode : ∀ ds, TypeTree.node none (.array base n) ds = .node none (.array base' n) ds ↔ p :=
      fun ds => by simpa using h
    split <;> exact SameIff.bind_same _ hnode
  | none =>
    have hnode : ∀ ds,
        TypeTree.node none (.runtimeArray base) ds = .node none (.runtimeArray base') ds ↔ p :=
      fun ds => by simpa using h
    split <;> exact SameIff.bind_same _ hnode

theorem sameIff_ofRecord {p : Prop} {parts : List Field} {trees trees' : List TypeTree}
    (h : trees = trees' ↔ p) (hlength : parts.length = trees.length)
    (hlength' : parts.length = trees'.length) (name : String) (role : BlockRole) :
    SameIff p (ofRecord options name parts trees rule role)
      (ofRecord options name (parts.map Field.unaliased) trees' rule role) := by
  rw [ofRecord, ofRecord, layoutDecorations_unaliased, List.length_map]
  refine SameIff.bind_same _ fun ds => ?_
  change TypeTree.node (some name) (.struct (members parts trees)) _
    = .node (some name) (.struct (members (parts.map Field.unaliased) trees')) _ ↔ p
  simpa [members_unaliased_inj parts trees trees' hlength hlength'] using h

/-- A structure is written alike if the types of its base structure and of its fields are. -/
theorem sameIff_ofParts {p q : Prop} {base : OptionalTy} {fields : Fields} (name : String)
    {shown : String} (role : BlockRole)
    (hbase : SameIff p (ofBase options base rule) (ofBase options base.unaliased rule))
    (hfields : SameIff q (ofFields options fields rule) (ofFields options fields.unaliased rule)) :
    SameIff (p ∧ q)
      (do
        let inherited ← ofBase options base rule
        let own ← ofFields options fields rule
        ofRecord options shown (Record.parts ⟨name, base, fields⟩) (inherited ++ own) rule role)
      (do
        let inherited ← ofBase options base.unaliased rule
        let own ← ofFields options fields.unaliased rule
        ofRecord options shown (Record.parts ⟨name, base.unaliased, fields.unaliased⟩)
          (inherited ++ own) rule role) := by
  refine hbase.bind fun inherited inherited' hinherited hinherited' h => ?_
  refine hfields.bind fun own own' hown hown' h' => ?_
  have hlength := length_ofBase_append_ofFields name hinherited hown
  have hlength' := length_ofBase_append_ofFields name hinherited' hown'
  rw [Record.parts_unaliased, List.length_map] at hlength'
  rw [Record.parts_unaliased]
  refine sameIff_ofRecord ?_ hlength hlength' shown role
  rw [← h, ← h']
  refine ⟨fun heq => List.append_inj heq ?_, fun heq => congrArg₂ (· ++ ·) heq.1 heq.2⟩
  rw [length_ofBase hinherited, length_ofBase hinherited', count_unaliased]

/-- The name of a storage buffer ends in the name of its elements. -/
theorem elementName_eq_iff (elem : Ty) (start : String) :
    start ++ (elem.record?.map (·.name)).getD elem.text
        = start ++ (elem.unaliased.record?.map (·.name)).getD elem.unaliased.text ↔
      elem.keepsName = true := by
  rw [String.append_right_inj, elem.name_record?_unaliased, Ty.keepsName]
  cases elem.record? with
  | none => simp
  | some r => simp

theorem blockOrAlias_inj {block block' : TypeTree} :
    blockOrAlias block rule = blockOrAlias block' rule ↔ block = block' := by
  rw [blockOrAlias, blockOrAlias]
  split
  · simp [plain]
  · exact Iff.rfl

theorem sameIff_ofStructured {p : Prop} {elem : Ty} {base base' : TypeTree} (h : base = base' ↔ p)
    (access : Source.StructuredAccess) :
    SameIff (elem.keepsName = true ∧ p) (ofStructured options access elem base rule)
      (ofStructured options access elem.unaliased base' rule) := by
  rw [ofStructured, ofStructured, Layout.extent_unaliased, Layout.matrixStride?_unaliased]
  refine SameIff.bind_same _ fun extent => SameIff.bind_same _ fun matrix => ?_
  refine blockOrAlias_inj.trans ?_
  simp only [wrapArray, TypeTree.node.injEq, Option.some.injEq, elementName_eq_iff,
    Spirv.TreeForm.struct.injEq, TreeMembers.cons.injEq, Spirv.TreeForm.runtimeArray.injEq, h,
    true_and, and_true]

/-! ## Types -/

mutual

/-- **A type is written alike without typedef names exactly if its storage buffers keep their
names.**  If one of the two is not written, the other is not either. -/
theorem sameIff_ofTy : (ty : Ty) → (rule : Layout.Rule) → (o : Layout.Orientation) →
    (expected : Option Source.Scalar) →
    SameIff (ty.keepsBufferNames = true) (ofTy options ty rule o expected)
      (ofTy options ty.unaliased rule o expected)
  | .alias _ target, rule, o, expected => by
    rw [Ty.keepsBufferNames, Ty.unaliased, ofTy]
    exact sameIff_ofTy target rule o expected
  | .oriented order target, rule, o, expected => by
    rw [Ty.keepsBufferNames, Ty.unaliased, ofTy, ofTy]
    exact sameIff_ofTy target rule (o.annotate order) expected
  | .array elem length, rule, o, expected => by
    rw [Ty.keepsBufferNames, Ty.unaliased, ofTy, ofTy]
    exact (sameIff_ofTy elem rule o.element expected).bind
      fun _ _ _ _ h => sameIff_ofArray h length
  | .struct name base fields, rule, o, expected => by
    rw [Ty.keepsBufferNames, Ty.unaliased, ofTy, ofTy, Bool.and_eq_true]
    exact sameIff_ofParts name .plain (sameIff_ofBase base rule) (sameIff_ofFields fields rule)
  | .resource kind elem, rule, o, expected => by
    rw [Ty.keepsBufferNames, Ty.unaliased, ofTy, ofTy]
    exact sameIff_ofResource elem kind rule
  | .void, _, _, _ | .scalar _, _, _, _ | .vector _ _, _, _, _ | .matrix _ _ _, _, _, _ =>
    SameIff.refl rfl _

theorem sameIff_ofBase : (base : OptionalTy) → (rule : Layout.Rule) →
    SameIff (base.keepsBufferNames = true) (ofBase options base rule)
      (ofBase options base.unaliased rule)
  | .absent, _ => SameIff.refl rfl _
  | .present ty, rule => by
    rw [OptionalTy.keepsBufferNames, OptionalTy.unaliased, ofBase, ofBase]
    refine (sameIff_ofTy ty rule {} none).bind fun tree tree' _ _ h => ?_
    change [tree] = [tree'] ↔ _
    rw [List.cons.injEq, h]
    exact and_iff_left rfl

theorem sameIff_ofFields : (fields : Fields) → (rule : Layout.Rule) →
    SameIff (fields.keepBufferNames = true) (ofFields options fields rule)
      (ofFields options fields.unaliased rule)
  | .nil, _ => SameIff.refl rfl _
  | .cons _ ty _ _ rest, rule => by
    rw [Fields.keepBufferNames, Fields.unaliased, ofFields, ofFields, Bool.and_eq_true]
    refine (sameIff_ofTy ty rule {} none).bind fun tree tree' _ _ h => ?_
    refine (sameIff_ofFields rest rule).bind fun trees trees' _ _ hrest => ?_
    change tree :: trees = tree' :: trees' ↔ _
    rw [List.cons.injEq, h, hrest]

theorem sameIff_ofResource : (elem : OptionalTy) → (kind : Resource) → (rule : Layout.Rule) →
    SameIff (elem.keepsBufferNamesIn kind = true) (ofResource options elem kind rule)
      (ofResource options elem.unaliased kind rule)
  | .absent, kind, rule => SameIff.refl rfl _
  | .present elem, .structured access, rule => by
    rw [OptionalTy.keepsBufferNamesIn, OptionalTy.unaliased, ofResource, ofResource,
      Bool.and_eq_true]
    exact (sameIff_ofTy elem _ {} none).bind fun _ _ _ _ h => sameIff_ofStructured h access
  | .present elem, .stream _, rule => by
    rw [OptionalTy.keepsBufferNamesIn, OptionalTy.unaliased, ofResource, ofResource]
    exact sameIff_ofTy elem rule {} none
  | .present elem, .inputPatch points, rule | .present elem, .outputPatch points, rule => by
    rw [OptionalTy.keepsBufferNamesIn, OptionalTy.unaliased, ofResource, ofResource]
    refine (sameIff_ofTy elem .unlaid {} none).bind fun tree tree' _ _ h => ?_
    change plain (.array tree points) = plain (.array tree' points) ↔ _
    simpa [plain] using h
  | .present elem, .constantBuffer, rule => sameIff_ofContent elem .constantBuffer rule
  | .present elem, .textureBuffer, rule => sameIff_ofContent elem .textureBuffer rule
  | .present elem, .texture dim arrayed multisampled writable, rule => by
    rw [ofResource, ofResource, ofTexture, ofTexture, texel_unaliased]
    exact SameIff.refl rfl _
  | .present elem, .buffer writable, rule => by
    rw [ofResource, ofResource, ofBuffer, ofBuffer, texel_unaliased]
    exact SameIff.refl rfl _
  | .present elem, .subpassInput multisampled, rule => by
    rw [ofResource, ofResource, ofSubpassInput, ofSubpassInput, texel_unaliased]
    exact SameIff.refl rfl _
  | .present elem, .sampler _, rule | .present elem, .byteAddress _, rule =>
    SameIff.refl rfl _

theorem sameIff_ofContent : (ty : Ty) → (kind : Resource) → (rule : Layout.Rule) →
    SameIff (ty.keepsBufferNames = true) (ofContent options ty kind rule)
      (ofContent options ty.unaliased kind rule)
  | .alias _ target, kind, rule => by
    rw [Ty.keepsBufferNames, Ty.unaliased, ofContent]
    exact sameIff_ofContent target kind rule
  | .oriented order target, kind, rule => by
    rw [Ty.keepsBufferNames, Ty.unaliased, ofContent, ofContent]
    exact sameIff_ofContent target kind rule
  | .struct name base fields, kind, rule => by
    rw [Ty.keepsBufferNames, Ty.unaliased, ofContent, ofContent, Bool.and_eq_true]
    exact sameIff_ofParts _ _ (sameIff_ofBase base _) (sameIff_ofFields fields _)
  | .void, _, _ | .scalar _, _, _ | .vector _ _, _, _ | .matrix _ _ _, _, _ | .array _ _, _, _
  | .resource _ _, _, _ => rfl

end

end Written

namespace Written

variable {α β : Type} {R R' : α → β → Prop} {r r' : Except Failure α} {d d' : Written β}

/-- Something is answered exactly if something is written. -/
theorem Agrees.exists_ok_iff (h : Agrees R r d) : (∃ a, r = .ok a) ↔ ∃ b, d = .ok b := by
  obtain ⟨a, b, rfl, rfl, -⟩ | ⟨f, rfl, rfl⟩ := h.cases
  · exact iff_of_true ⟨a, rfl⟩ ⟨b, rfl⟩
  · simp

/-- Where the same is written under a condition, both answer or both fail alike. -/
theorem SameIff.agree {p : Prop} (h : SameIff p d d') (hr : Agrees R r d) (hr' : Agrees R' r' d') :
    Action.Agree (fun _ _ => True) r r' := by
  obtain ⟨a, b, rfl, rfl, -⟩ | ⟨f, rfl, rfl⟩ := hr.cases <;>
    obtain ⟨a', b', rfl, rfl, -⟩ | ⟨f', rfl, rfl⟩ := hr'.cases
  · trivial
  · exact False.elim h
  · exact False.elim h
  · exact h

end Written

namespace Emit

open ShaderLowering.Action (Agree)

variable {options : Options} {e : Emitter}

/-- **Typedef names are transparent exactly where no storage buffer is named after one.**  A type
and the type without typedef names are emitted together or fail alike.  They get the same number, in
every state and in either order, unless they are emitted and the name of a storage buffer in the
type spells out elements with a typedef name. -/
theorem interchangeable_unaliased_iff (he : Emitter.Attained options e) (ty : Ty)
    (rule : Layout.Rule) :
    Agree (fun _ _ => True) ((type ty rule).runOn e).1 ((type ty.unaliased rule).runOn e).1 ∧
      (Interchangeable (type ty rule) (type ty.unaliased rule) e ↔
        ((∃ id, ((type ty rule).runOn e).1 = .ok id) → ty.keepsBufferNames = true)) := by
  have hsame : Written.SameIff (ty.keepsBufferNames = true)
      (Written.ofTy e.options ty rule {} none) (Written.ofTy e.options ty.unaliased rule {} none) :=
    Written.sameIff_ofTy ty rule {} none
  have hx := (realizes_typeExpecting he.sound.1 ty rule none).agrees
  have hy := (realizes_typeExpecting he.sound.1 ty.unaliased rule none).agrees
  refine ⟨hsame.agree hx hy, ?_⟩
  have hemitted : (∃ id, ((type ty rule).runOn e).1 = .ok id) ↔
      ∃ tree, Written.ofTy e.options ty rule {} none = .ok tree := hx.exists_ok_iff
  have hiff : Interchangeable (typeExpecting ty rule none) (type ty.unaliased rule) e ↔ _ :=
    interchangeable_type_iff he.regular
  rw [hemitted, ← hsame.eq_iff]
  exact hiff

/-- Buffers of structures, with typedef names on the array, the elements and a field. -/
def aliasedPoints : Ty :=
  .alias "Tables" (.array (.resource (.structured .readWrite) (.present (.alias "P" (.struct "Point"
    .absent (.cons "pos" (.alias "Vec" (.vector .single 3)) {} {} .nil))))) (some 2))

theorem interchangeable_unaliased_iff_aliasedPoints :
    Emitter.Attained {} afterWideVector ∧ aliasedPoints ≠ aliasedPoints.unaliased ∧
    (∃ id, ((type aliasedPoints .std430).runOn afterWideVector).1 = .ok id) ∧
    aliasedPoints.keepsBufferNames = true ∧
    Interchangeable (type aliasedPoints .std430) (type aliasedPoints.unaliased .std430)
      afterWideVector := by
  have hattained : Emitter.Attained {} afterWideVector :=
    .inl (.typeExpecting (.vector .single 5) .std140 none .start)
  have hkeeps : aliasedPoints.keepsBufferNames = true := by decide +kernel
  refine ⟨hattained, by decide +kernel, ⟨5, by decide +kernel⟩, hkeeps, ?_⟩
  exact (interchangeable_unaliased_iff hattained aliasedPoints .std430).2.2 fun _ => hkeeps

/-- A typedef name in the elements of a storage buffer, which are numbers. -/
def aliasedNumbers : Ty :=
  .resource (.structured .read) (.present (.alias "T" (.scalar .single)))

/-- The storage buffer without the typedef name is another one, since its name is another. -/
theorem not_interchangeable_aliasedNumbers :
    aliasedNumbers.unaliased = .resource (.structured .read) (.present (.scalar .single)) ∧
    ((type aliasedNumbers.unaliased .std430).runOn (.start {})).1 = .ok 2 ∧
    ((type aliasedNumbers .std430).runOn
      ((type aliasedNumbers.unaliased .std430).runOn (.start {})).2).1 = .ok 3 ∧
    ¬ Interchangeable (type aliasedNumbers .std430) (type aliasedNumbers.unaliased .std430)
      (.start {}) := by
  have hplain : ((type aliasedNumbers.unaliased .std430).runOn (.start {})).1 = .ok 2 := by
    decide +kernel
  have haliased : ((type aliasedNumbers .std430).runOn
      ((type aliasedNumbers.unaliased .std430).runOn (.start {})).2).1 = .ok 3 := by
    decide +kernel
  refine ⟨rfl, hplain, haliased, fun h => ?_⟩
  have heq := h.preceding
  rw [hplain, haliased] at heq
  cases heq

end Emit

end ShaderLowering
