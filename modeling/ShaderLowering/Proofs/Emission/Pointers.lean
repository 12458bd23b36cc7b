import ShaderLowering.Proofs.Counter.Reach
import ShaderLowering.Proofs.Layout.Parts
import ShaderLowering.Proofs.Spirv.Nodes

/-!
# Pointers in emitted types

A pointer is emitted for a buffer that can be aliased, where no memory layout is asked for.  Inside
a buffer there is a layout, so buffers in it are emitted without a pointer; only the patches and
streams of a stage interface ask for no layout again.  In a type that mentions none of these, there
is a pointer exactly if the type holds a buffer that can be aliased (`Written.hasPointer_ofTy`).
-/

namespace ShaderLowering

open Source (Ty OptionalTy Fields Field Record Resource Scalar)
open Spirv (TypeTree TreeMembers)

namespace Source

mutual

/-- Whether a resource of some kinds is anywhere in the type, also in elements of resources. -/
def Ty.mentions (kinds : Resource → Bool) : Ty → Bool
  | .alias _ target | .oriented _ target => target.mentions kinds
  | .array elem _ => elem.mentions kinds
  | .struct _ base fields => base.mentions kinds || fields.mention kinds
  | .resource kind elem => kinds kind || elem.mentions kinds
  | _ => false

/-- Whether a resource of some kinds is anywhere in the type, if present. -/
def OptionalTy.mentions (kinds : Resource → Bool) : OptionalTy → Bool
  | .absent => false
  | .present ty => ty.mentions kinds

/-- Whether a resource of some kinds is anywhere in a field. -/
def Fields.mention (kinds : Resource → Bool) : Fields → Bool
  | .nil => false
  | .cons _ ty _ _ rest => ty.mentions kinds || rest.mention kinds

end

/-- Whether the type mentions a patch or a stream. -/
def Ty.mentionsInterface (ty : Ty) : Bool := ty.mentions (·.isStageInterface)

end Source

/-! ## Rules for the content of buffers -/

theorem Options.constantRule_ne_unlaid (options : Options) : options.constantRule ≠ .unlaid := by
  rw [constantRule]
  cases options.family <;> nofun

theorem Options.textureRule_ne_unlaid (options : Options) : options.textureRule ≠ .unlaid := by
  rw [textureRule]
  cases options.family <;> nofun

/-- The content of a constant or texture buffer always has a layout. -/
theorem contentRule_ne_unlaid (options : Options) (kind : Resource) (rule : Layout.Rule) :
    (contentRule options kind rule).1 ≠ .unlaid := by
  rw [contentRule]
  split <;> dsimp only <;> split
  · exact options.constantRule_ne_unlaid
  · assumption
  · exact options.textureRule_ne_unlaid
  · assumption

namespace Written

variable {options : Options} {rule : Layout.Rule} {o : Layout.Orientation}
variable {test : TypeTree → Bool} {tree : TypeTree}

/-! ## What stands in the members of a structure -/

theorem any_members : (parts : List Field) → (trees : List TypeTree) →
    parts.length = trees.length → (members parts trees).any test = trees.any (·.any test)
  | [], [], _ => rfl
  | _ :: parts, tree :: trees, h => by
    rw [members, TreeMembers.any, any_members parts trees (Nat.succ.inj h), List.any_cons]

/-- The trees of the base structure and of the fields are those of the members. -/
theorem length_ofBase_append_ofFields (name : String) {base : OptionalTy} {fields : Fields}
    {inherited own : List TypeTree} (hbase : ofBase options base rule = .ok inherited)
    (hfields : ofFields options fields rule = .ok own) :
    (Record.parts ⟨name, base, fields⟩).length = (inherited ++ own).length := by
  rw [length_parts, List.length_append, length_ofBase hbase, length_ofFields fields own hfields]

/-- What is inside a structure is in one of its members. -/
theorem anyInside_ofRecord {name : String} {parts : List Field} {trees : List TypeTree}
    {role : BlockRole} (hlength : parts.length = trees.length)
    (h : ofRecord options name parts trees rule role = .ok tree) :
    tree.anyInside test = trees.any (·.any test) := by
  rw [ofRecord] at h
  obtain ⟨ds, -, h⟩ := bind_eq_ok_iff.1 h
  cases h
  rw [TypeTree.anyInside, Spirv.TreeForm.any, any_members parts trees hlength]

/-- What is in a structure is in one of its members, if the structure itself is not meant. -/
theorem any_ofRecord (htest : ∀ name members ds, test (.node name (.struct members) ds) = false)
    {name : String} {parts : List Field} {trees : List TypeTree} {role : BlockRole}
    (hlength : parts.length = trees.length)
    (h : ofRecord options name parts trees rule role = .ok tree) :
    tree.any test = trees.any (·.any test) := by
  rw [← anyInside_ofRecord hlength h, TypeTree.any_eq]
  rw [ofRecord] at h
  obtain ⟨ds, -, h⟩ := bind_eq_ok_iff.1 h
  cases h
  rw [htest, Bool.false_or]

/-- What is in an array is in its elements, if the array itself is not meant. -/
theorem any_ofArray (hsized : ∀ base n ds, test (.node none (.array base n) ds) = false)
    (hopen : ∀ base ds, test (.node none (.runtimeArray base) ds) = false) {elem : Ty}
    {length : Option Nat} {base : TypeTree}
    (h : ofArray options rule o elem length base = .ok tree) : tree.any test = base.any test := by
  have hnode : ∃ ds, tree = .node none (.runtimeArray base) ds ∨
      ∃ n, tree = .node none (.array base n) ds := by
    rw [ofArray] at h
    dsimp only at h
    cases length <;> split at h
    case none.isTrue =>
      cases h
      exact ⟨[], .inl rfl⟩
    case some.isTrue n _ =>
      cases h
      exact ⟨[], .inr ⟨n, rfl⟩⟩
    case none.isFalse =>
      obtain ⟨ds, -, h⟩ := bind_eq_ok_iff.1 h
      cases h
      exact ⟨ds, .inl rfl⟩
    case some.isFalse n _ =>
      obtain ⟨ds, -, h⟩ := bind_eq_ok_iff.1 h
      cases h
      exact ⟨ds, .inr ⟨n, rfl⟩⟩
  obtain ⟨ds, rfl | ⟨n, rfl⟩⟩ := hnode
  · rw [TypeTree.any, hopen, Bool.false_or, Spirv.TreeForm.any]
  · rw [TypeTree.any, hsized, Bool.false_or, Spirv.TreeForm.any]

theorem hasPointer_ofRecord {name : String} {parts : List Field} {trees : List TypeTree}
    {role : BlockRole} (hlength : parts.length = trees.length)
    (h : ofRecord options name parts trees rule role = .ok tree) :
    tree.hasPointer = trees.any (·.hasPointer) :=
  any_ofRecord (fun _ _ _ => rfl) hlength h

/-- A vector is made of numbers. -/
theorem any_ofVector (htest : ∀ name form ds, form.isNumeric → test (.node name form ds) = false)
    {expected : Option Scalar} {elem : Scalar} {count : Nat}
    (h : ofVector options rule expected elem count = .ok tree) : tree.any test = false := by
  rw [ofVector] at h
  split at h
  · cases h
    exact (Bool.or_false _).trans (htest _ _ _ rfl)
  · obtain ⟨size, -, h⟩ := bind_eq_ok_iff.1 h
    cases h
    exact (Bool.or_false _).trans (htest _ _ _ rfl)

/-- A matrix is made of numbers. -/
theorem any_ofMatrix (htest : ∀ name form ds, form.isNumeric → test (.node name form ds) = false)
    {expected : Option Scalar} {elem : Scalar} {rows cols : Nat}
    (h : ofMatrix options rule o expected elem rows cols = .ok tree) : tree.any test = false := by
  rw [ofMatrix] at h
  split at h
  · obtain ⟨count, -, h⟩ := bind_eq_ok_iff.1 h
    exact any_ofVector htest h
  · obtain ⟨row, hrow, h⟩ := bind_eq_ok_iff.1 h
    split at h
    · obtain ⟨size, -, h⟩ := bind_eq_ok_iff.1 h
      cases h
      rw [plain, TypeTree.any, htest _ _ _ rfl, Bool.false_or, Spirv.TreeForm.any,
        any_ofVector htest hrow]
    · obtain ⟨ds, -, h⟩ := bind_eq_ok_iff.1 h
      cases h
      rw [TypeTree.any, htest _ _ _ rfl, Bool.false_or, Spirv.TreeForm.any,
        any_ofVector htest hrow]

/-! ## Types without pointers of their own -/

theorem isPointer_of_isNumeric (name : Option String) (form : Spirv.TreeForm)
    (ds : List Spirv.TypeDecoration) (h : form.isNumeric) :
    (TypeTree.node name form ds).isPointer = false := by
  cases form with
  | scalar | vector | matrix | array => rfl
  | void | runtimeArray | struct | image | sampler | pointer => cases h

theorem hasPointer_ofVector {expected : Option Scalar} {elem : Scalar} {count : Nat}
    (h : ofVector options rule expected elem count = .ok tree) : tree.hasPointer = false :=
  any_ofVector isPointer_of_isNumeric h

theorem hasPointer_ofMatrix {expected : Option Scalar} {elem : Scalar} {rows cols : Nat}
    (h : ofMatrix options rule o expected elem rows cols = .ok tree) : tree.hasPointer = false :=
  any_ofMatrix isPointer_of_isNumeric h

theorem hasPointer_ofArray {elem : Ty} {length : Option Nat} {base : TypeTree}
    (h : ofArray options rule o elem length base = .ok tree) :
    tree.hasPointer = base.hasPointer :=
  any_ofArray (fun _ _ _ => rfl) (fun _ _ => rfl) h

theorem hasPointer_ofTexture {dim : Source.TextureDim} {arrayed multisampled writable : Bool}
    {elem : Option Ty}
    (h : ofTexture options dim arrayed multisampled writable elem = .ok tree) :
    tree.hasPointer = false := by
  obtain ⟨t, -, h⟩ := bind_eq_ok_iff.1 h
  cases h
  rfl

theorem hasPointer_ofBuffer {writable : Bool} {elem : Option Ty}
    (h : ofBuffer options writable elem = .ok tree) : tree.hasPointer = false := by
  obtain ⟨t, -, h⟩ := bind_eq_ok_iff.1 h
  cases h
  rfl

theorem hasPointer_ofSubpassInput {multisampled : Bool} {elem : Option Ty}
    (h : ofSubpassInput options multisampled elem = .ok tree) : tree.hasPointer = false := by
  obtain ⟨t, -, h⟩ := bind_eq_ok_iff.1 h
  cases h
  rfl

/-! ## Buffers -/

theorem hasPointer_blockOrAlias {block : TypeTree} :
    (blockOrAlias block rule).hasPointer = (decide (rule = .unlaid) || block.hasPointer) := by
  rw [blockOrAlias]
  split
  · rename_i h
    rw [decide_eq_true h, Bool.true_or]
    rfl
  · rename_i h
    rw [decide_eq_false h, Bool.false_or]

/-- A structured buffer is a pointer where no layout is asked for. -/
theorem hasPointer_ofStructured {access : Source.StructuredAccess} {elem : Ty} {base : TypeTree}
    (h : ofStructured options access elem base rule = .ok tree) :
    tree.hasPointer = (decide (rule = .unlaid) || base.hasPointer) := by
  rw [ofStructured] at h
  obtain ⟨extent, -, h⟩ := bind_eq_ok_iff.1 h
  obtain ⟨matrix, -, h⟩ := bind_eq_ok_iff.1 h
  cases h
  rw [hasPointer_blockOrAlias]
  congr 1
  exact Bool.or_false _

theorem hasPointer_ofByteAddress {kind : Resource} {writable : Bool} :
    (ofByteAddress kind writable rule).hasPointer = decide (rule = .unlaid) := by
  rw [ofByteAddress, hasPointer_blockOrAlias]
  exact Bool.or_false _

/-! ## All types -/

mutual

/-- **The pointers of an emitted type are those of the buffers that can be aliased, where no layout
is asked for.** -/
theorem hasPointer_ofTy : (ty : Ty) → {rule : Layout.Rule} → {o : Layout.Orientation} →
    {expected : Option Scalar} → {tree : TypeTree} → ty.mentionsInterface = false →
    ofTy options ty rule o expected = .ok tree →
    tree.hasPointer = (decide (rule = .unlaid) && ty.holdsAliasable)
  | .alias _ target, _, _, _, _, hty, h => by
    rw [ofTy] at h
    rw [Ty.holdsAliasable]
    exact hasPointer_ofTy target hty h
  | .oriented _ target, _, _, _, _, hty, h => by
    rw [ofTy] at h
    rw [Ty.holdsAliasable]
    exact hasPointer_ofTy target hty h
  | .void, _, _, _, _, _, h | .scalar _, _, _, _, _, _, h => by
    rw [ofTy] at h
    cases h
    exact (Bool.and_false _).symm
  | .vector _ _, _, _, _, _, _, h => by
    rw [ofTy] at h
    exact (hasPointer_ofVector h).trans (Bool.and_false _).symm
  | .matrix _ _ _, _, _, _, _, _, h => by
    rw [ofTy] at h
    exact (hasPointer_ofMatrix h).trans (Bool.and_false _).symm
  | .array elem _, _, _, _, _, hty, h => by
    rw [ofTy] at h
    obtain ⟨base, hbase, h⟩ := bind_eq_ok_iff.1 h
    rw [hasPointer_ofArray h, Ty.holdsAliasable]
    exact hasPointer_ofTy elem hty hbase
  | .struct name base fields, _, _, _, _, hty, h => by
    rw [Ty.mentionsInterface, Ty.mentions, Bool.or_eq_false_iff] at hty
    rw [ofTy] at h
    obtain ⟨inherited, hinherited, h⟩ := bind_eq_ok_iff.1 h
    obtain ⟨own, hown, h⟩ := bind_eq_ok_iff.1 h
    rw [hasPointer_ofRecord (length_ofBase_append_ofFields name hinherited hown) h,
      List.any_append, any_hasPointer_ofBase base hty.1 hinherited,
      any_hasPointer_ofFields fields hty.2 hown, ← Bool.and_or_distrib_left, Ty.holdsAliasable]
  | .resource kind elem, _, _, _, _, hty, h => by
    rw [Ty.mentionsInterface, Ty.mentions, Bool.or_eq_false_iff] at hty
    rw [ofTy] at h
    rw [Ty.holdsAliasable]
    exact hasPointer_ofResource elem hty.1 hty.2 h

theorem any_hasPointer_ofBase : (base : OptionalTy) → {rule : Layout.Rule} →
    {trees : List TypeTree} → base.mentions (·.isStageInterface) = false →
    ofBase options base rule = .ok trees →
    trees.any (·.hasPointer) = (decide (rule = .unlaid) && base.holdsAliasable)
  | .absent, _, _, _, h => by
    cases h
    exact (Bool.and_false _).symm
  | .present ty, _, _, hty, h => by
    rw [ofBase] at h
    obtain ⟨tree, htree, h⟩ := bind_eq_ok_iff.1 h
    cases h
    rw [List.any_cons, List.any_nil, Bool.or_false, OptionalTy.holdsAliasable]
    exact hasPointer_ofTy ty hty htree

theorem any_hasPointer_ofFields : (fields : Fields) → {rule : Layout.Rule} →
    {trees : List TypeTree} → fields.mention (·.isStageInterface) = false →
    ofFields options fields rule = .ok trees →
    trees.any (·.hasPointer) = (decide (rule = .unlaid) && fields.holdAliasable)
  | .nil, _, _, _, h => by
    cases h
    exact (Bool.and_false _).symm
  | .cons _ ty _ _ rest, _, _, hty, h => by
    rw [Fields.mention, Bool.or_eq_false_iff] at hty
    rw [ofFields] at h
    obtain ⟨first, hfirst, h⟩ := bind_eq_ok_iff.1 h
    obtain ⟨others, hothers, h⟩ := bind_eq_ok_iff.1 h
    cases h
    rw [List.any_cons, hasPointer_ofTy ty hty.1 hfirst, any_hasPointer_ofFields rest hty.2 hothers,
      ← Bool.and_or_distrib_left, Fields.holdAliasable]

theorem hasPointer_ofResource : (elem : OptionalTy) → {kind : Resource} → {rule : Layout.Rule} →
    {tree : TypeTree} → kind.isStageInterface = false →
    elem.mentions (·.isStageInterface) = false → ofResource options elem kind rule = .ok tree →
    tree.hasPointer = (decide (rule = .unlaid) && kind.isAliasable)
  | elem, .texture _ _ _ _, _, _, _, _, h => by
    rw [ofResource] at h
    exact (hasPointer_ofTexture h).trans (Bool.and_false _).symm
  | elem, .buffer _, _, _, _, _, h => by
    rw [ofResource] at h
    exact (hasPointer_ofBuffer h).trans (Bool.and_false _).symm
  | elem, .subpassInput _, _, _, _, _, h => by
    rw [ofResource] at h
    exact (hasPointer_ofSubpassInput h).trans (Bool.and_false _).symm
  | elem, .sampler _, _, _, _, _, h => by
    rw [ofResource] at h
    cases h
    exact (Bool.and_false _).symm
  | elem, .byteAddress _, _, _, _, _, h => by
    rw [ofResource] at h
    cases h
    exact hasPointer_ofByteAddress.trans (Bool.and_true _).symm
  | .absent, .structured _, _, _, _, _, h | .absent, .constantBuffer, _, _, _, _, h
  | .absent, .textureBuffer, _, _, _, _, h => by
    simp only [ofResource] at h
    cases h
  | .present elem, .structured access, rule, _, _, helem, h => by
    simp only [ofResource] at h
    obtain ⟨base, hbase, h⟩ := bind_eq_ok_iff.1 h
    rw [hasPointer_ofStructured h, hasPointer_ofTy elem helem hbase]
    cases hrule : decide (rule = .unlaid) with
    | true => rfl
    | false => rw [Emit.elementRule, if_neg (of_decide_eq_false hrule), hrule]; rfl
  | .present elem, .constantBuffer, _, _, _, helem, h
  | .present elem, .textureBuffer, _, _, _, helem, h => by
    simp only [ofResource] at h
    exact (hasPointer_ofContent elem helem h).trans (Bool.and_false _).symm
  | _, .inputPatch _, _, _, hkind, _, _ | _, .outputPatch _, _, _, hkind, _, _
  | _, .stream _, _, _, hkind, _, _ => nomatch hkind

theorem hasPointer_ofContent : (ty : Ty) → {kind : Resource} → {rule : Layout.Rule} →
    {tree : TypeTree} → ty.mentions (·.isStageInterface) = false →
    ofContent options ty kind rule = .ok tree → tree.hasPointer = false
  | .alias _ target, _, _, _, hty, h => by
    rw [ofContent] at h
    exact hasPointer_ofContent target hty h
  | .oriented _ target, _, _, _, hty, h => by
    rw [ofContent] at h
    exact hasPointer_ofContent target hty h
  | .struct name base fields, kind, rule, _, hty, h => by
    rw [Ty.mentions, Bool.or_eq_false_iff] at hty
    rw [ofContent] at h
    obtain ⟨inherited, hinherited, h⟩ := bind_eq_ok_iff.1 h
    obtain ⟨own, hown, h⟩ := bind_eq_ok_iff.1 h
    have hrule := decide_eq_false (contentRule_ne_unlaid options kind rule)
    rw [hasPointer_ofRecord (length_ofBase_append_ofFields name hinherited hown) h,
      List.any_append, any_hasPointer_ofBase base hty.1 hinherited,
      any_hasPointer_ofFields fields hty.2 hown, hrule]
    rfl
  | .void, _, _, _, _, h | .scalar _, _, _, _, _, h | .vector _ _, _, _, _, _, h
  | .matrix _ _ _, _, _, _, _, h | .array _ _, _, _, _, _, h | .resource _ _, _, _, _, _, h => by
    simp only [ofContent] at h
    cases h

end

end Written

end ShaderLowering
