import ShaderLowering.Proofs.Emission.Pointers
import ShaderLowering.Proofs.Layout.Members

/-!
# Resources in emitted types

Images, samplers and storage buffers are types of their own in a module.  Every texture, sampler or
buffer of a source type becomes one of these, in whatever structures, base structures, arrays and
elements of other resources it stands.  Only a constant buffer is emitted as its content, and a
patch or a stream as its elements.  So an emitted type holds a resource exactly if the source type
mentions one of the former kinds (`Written.holdsResource_ofTy`).
-/

namespace ShaderLowering

open Source (Ty OptionalTy Fields Field Record Resource Scalar)
open Spirv (TypeTree TypeDecoration)

namespace Spirv

/-- Whether a type is an image, a sampler or the block of a storage buffer. -/
def TypeTree.isResource : TypeTree → Bool
  | .node _ (.image _ _ _ _ _ _ _) _ | .node _ .sampler _ => true
  | .node _ (.struct _) ds => ds.contains .bufferBlock
  | _ => false

/-- Whether there is an image, a sampler or the block of a storage buffer anywhere in a type. -/
def TypeTree.holdsResource (tree : TypeTree) : Bool := tree.any isResource

end Spirv

/-- Whether the kind is emitted as an image, a sampler or a storage buffer. -/
def Source.Resource.staysResource : Resource → Bool
  | .constantBuffer | .inputPatch _ | .outputPatch _ | .stream _ => false
  | _ => true

/-- Whether a structure in the role is the block of a storage buffer. -/
def BlockRole.isBuffer : BlockRole → Bool
  | .bufferBlock _ => true
  | _ => false

namespace Written

variable {options : Options} {rule : Layout.Rule} {o : Layout.Orientation} {tree : TypeTree}

/-! ## Structures -/

theorem bufferBlock_not_mem_layoutDecorations {parts : List Field} {ds : List TypeDecoration}
    (h : layoutDecorations options rule parts = .ok ds) : .bufferBlock ∉ ds := by
  rw [layoutDecorations] at h
  split at h
  · cases h
    exact List.not_mem_nil
  · obtain ⟨layout, -, h⟩ := bind_eq_ok_iff.1 h
    -- the decorations of a layout are those of members
    intro hmem
    obtain ⟨_, hmember, -⟩ :=
      Layout.le_member_of_mem_partDecorations (ofChecked_eq_ok_iff.1 h) _ hmem
    cases hmember

theorem contains_decorations (role : BlockRole) (count : Nat) :
    (role.decorations count).contains .bufferBlock = role.isBuffer := by
  cases role with
  | plain | block => rfl
  | bufferBlock readOnly => cases readOnly <;> simp [BlockRole.decorations, BlockRole.isBuffer]

theorem isResource_ofRecord {name : String} {parts : List Field} {trees : List TypeTree}
    {role : BlockRole} (h : ofRecord options name parts trees rule role = .ok tree) :
    tree.isResource = role.isBuffer := by
  rw [ofRecord] at h
  obtain ⟨ds, hds, h⟩ := bind_eq_ok_iff.1 h
  cases h
  rw [TypeTree.isResource, List.contains_append, contains_decorations,
    List.contains_eq_mem, decide_eq_false (bufferBlock_not_mem_layoutDecorations hds),
    Bool.false_or]

theorem holdsResource_ofRecord {name : String} {parts : List Field} {trees : List TypeTree}
    {role : BlockRole} (hlength : parts.length = trees.length)
    (h : ofRecord options name parts trees rule role = .ok tree) :
    tree.holdsResource = (role.isBuffer || trees.any (·.holdsResource)) := by
  rw [TypeTree.holdsResource, TypeTree.any_eq, isResource_ofRecord h, anyInside_ofRecord hlength h]
  rfl

/-! ## Numbers and resources -/

theorem isResource_of_isNumeric (name : Option String) (form : Spirv.TreeForm)
    (ds : List TypeDecoration) (h : form.isNumeric) :
    (TypeTree.node name form ds).isResource = false := by
  cases form with
  | scalar | vector | matrix | array => rfl
  | void | runtimeArray | struct | image | sampler | pointer => cases h

theorem holdsResource_blockOrAlias {block : TypeTree} :
    (blockOrAlias block rule).holdsResource = block.holdsResource := by
  rw [blockOrAlias]
  split <;> rfl

/-- A storage buffer holds its own block. -/
theorem holdsResource_wrapArray {name : String} {array : TypeTree} {ds : List TypeDecoration}
    (h : .bufferBlock ∈ ds) : (wrapArray name array ds).holdsResource = true := by
  rw [TypeTree.holdsResource, TypeTree.any_eq, wrapArray, TypeTree.isResource,
    List.contains_eq_mem, decide_eq_true h, Bool.true_or]

theorem holdsResource_ofStructured {access : Source.StructuredAccess} {elem : Ty} {base : TypeTree}
    (h : ofStructured options access elem base rule = .ok tree) : tree.holdsResource = true := by
  rw [ofStructured] at h
  obtain ⟨extent, -, h⟩ := bind_eq_ok_iff.1 h
  obtain ⟨matrix, -, h⟩ := bind_eq_ok_iff.1 h
  cases h
  rw [holdsResource_blockOrAlias, holdsResource_wrapArray (by simp)]

theorem holdsResource_ofByteAddress {kind : Resource} {writable : Bool} :
    (ofByteAddress kind writable rule).holdsResource = true := by
  rw [ofByteAddress, holdsResource_blockOrAlias, holdsResource_wrapArray (by simp)]

/-! ## All types -/

mutual

/-- **The resources of an emitted type are those that the source type mentions**, constant buffers,
patches and streams aside. -/
theorem holdsResource_ofTy : (ty : Ty) → {rule : Layout.Rule} → {o : Layout.Orientation} →
    {expected : Option Scalar} → {tree : TypeTree} → ofTy options ty rule o expected = .ok tree →
    tree.holdsResource = ty.mentions (·.staysResource)
  | .alias _ target, _, _, _, _, h => by
    rw [ofTy] at h
    rw [Ty.mentions]
    exact holdsResource_ofTy target h
  | .oriented _ target, _, _, _, _, h => by
    rw [ofTy] at h
    rw [Ty.mentions]
    exact holdsResource_ofTy target h
  | .void, _, _, _, _, h | .scalar _, _, _, _, _, h => by
    rw [ofTy] at h
    cases h
    rfl
  | .vector _ _, _, _, _, _, h => by
    rw [ofTy] at h
    exact any_ofVector isResource_of_isNumeric h
  | .matrix _ _ _, _, _, _, _, h => by
    rw [ofTy] at h
    exact any_ofMatrix isResource_of_isNumeric h
  | .array elem _, _, _, _, _, h => by
    rw [ofTy] at h
    obtain ⟨base, hbase, h⟩ := bind_eq_ok_iff.1 h
    rw [Ty.mentions]
    exact (any_ofArray (fun _ _ _ => rfl) (fun _ _ => rfl) h).trans (holdsResource_ofTy elem hbase)
  | .struct name base fields, _, _, _, _, h => by
    rw [ofTy] at h
    obtain ⟨inherited, hinherited, h⟩ := bind_eq_ok_iff.1 h
    obtain ⟨own, hown, h⟩ := bind_eq_ok_iff.1 h
    rw [holdsResource_ofRecord (length_ofBase_append_ofFields name hinherited hown) h,
      List.any_append, any_holdsResource_ofBase base hinherited,
      any_holdsResource_ofFields fields hown, Ty.mentions]
    rfl
  | .resource kind elem, _, _, _, _, h => by
    rw [ofTy] at h
    rw [Ty.mentions]
    exact holdsResource_ofResource elem h

theorem any_holdsResource_ofBase : (base : OptionalTy) → {rule : Layout.Rule} →
    {trees : List TypeTree} → ofBase options base rule = .ok trees →
    trees.any (·.holdsResource) = base.mentions (·.staysResource)
  | .absent, _, _, h => by
    cases h
    rfl
  | .present ty, _, _, h => by
    rw [ofBase] at h
    obtain ⟨tree, htree, h⟩ := bind_eq_ok_iff.1 h
    cases h
    rw [List.any_cons, List.any_nil, Bool.or_false, OptionalTy.mentions]
    exact holdsResource_ofTy ty htree

theorem any_holdsResource_ofFields : (fields : Fields) → {rule : Layout.Rule} →
    {trees : List TypeTree} → ofFields options fields rule = .ok trees →
    trees.any (·.holdsResource) = fields.mention (·.staysResource)
  | .nil, _, _, h => by
    cases h
    rfl
  | .cons _ ty _ _ rest, _, _, h => by
    rw [ofFields] at h
    obtain ⟨first, hfirst, h⟩ := bind_eq_ok_iff.1 h
    obtain ⟨others, hothers, h⟩ := bind_eq_ok_iff.1 h
    cases h
    rw [List.any_cons, holdsResource_ofTy ty hfirst, any_holdsResource_ofFields rest hothers,
      Fields.mention]

theorem holdsResource_ofResource : (elem : OptionalTy) → {kind : Resource} →
    {rule : Layout.Rule} → {tree : TypeTree} → ofResource options elem kind rule = .ok tree →
    tree.holdsResource = (kind.staysResource || elem.mentions (·.staysResource))
  | elem, .texture _ _ _ _, _, _, h | elem, .buffer _, _, _, h
  | elem, .subpassInput _, _, _, h => by
    rw [ofResource] at h
    obtain ⟨t, -, h⟩ := bind_eq_ok_iff.1 h
    cases h
    rfl
  | elem, .sampler _, _, _, h => by
    rw [ofResource] at h
    cases h
    rfl
  | elem, .byteAddress _, _, _, h => by
    rw [ofResource] at h
    cases h
    exact holdsResource_ofByteAddress
  | .absent, .structured _, _, _, h | .absent, .constantBuffer, _, _, h
  | .absent, .textureBuffer, _, _, h | .absent, .stream _, _, _, h
  | .absent, .inputPatch _, _, _, h | .absent, .outputPatch _, _, _, h => by
    simp only [ofResource] at h
    cases h
  | .present elem, .structured _, _, _, h => by
    simp only [ofResource] at h
    obtain ⟨base, -, h⟩ := bind_eq_ok_iff.1 h
    exact holdsResource_ofStructured h
  | .present elem, .stream _, _, _, h => by
    simp only [ofResource] at h
    exact holdsResource_ofTy elem h
  | .present elem, .inputPatch _, _, _, h | .present elem, .outputPatch _, _, _, h => by
    simp only [ofResource] at h
    obtain ⟨base, hbase, h⟩ := bind_eq_ok_iff.1 h
    cases h
    rw [OptionalTy.mentions, ← holdsResource_ofTy elem hbase]
    rfl
  | .present elem, .constantBuffer, _, _, h | .present elem, .textureBuffer, _, _, h => by
    simp only [ofResource] at h
    exact holdsResource_ofContent elem h

theorem holdsResource_ofContent : (ty : Ty) → {kind : Resource} → {rule : Layout.Rule} →
    {tree : TypeTree} → ofContent options ty kind rule = .ok tree →
    tree.holdsResource =
      ((contentRule options kind rule).2.isBuffer || ty.mentions (·.staysResource))
  | .alias _ target, _, _, _, h => by
    rw [ofContent] at h
    rw [Ty.mentions]
    exact holdsResource_ofContent target h
  | .oriented _ target, _, _, _, h => by
    rw [ofContent] at h
    rw [Ty.mentions]
    exact holdsResource_ofContent target h
  | .struct name base fields, _, _, _, h => by
    rw [ofContent] at h
    obtain ⟨inherited, hinherited, h⟩ := bind_eq_ok_iff.1 h
    obtain ⟨own, hown, h⟩ := bind_eq_ok_iff.1 h
    rw [holdsResource_ofRecord (length_ofBase_append_ofFields name hinherited hown) h,
      List.any_append, any_holdsResource_ofBase base hinherited,
      any_holdsResource_ofFields fields hown, Ty.mentions]
  | .void, _, _, _, h | .scalar _, _, _, _, h | .vector _ _, _, _, _, h
  | .matrix _ _ _, _, _, _, h | .array _ _, _, _, _, h | .resource _ _, _, _, _, h => by
    simp only [ofContent] at h
    cases h

end

theorem ofFields_eq_mapM : (fields : Fields) → (rule : Layout.Rule) →
    ofFields options fields rule
      = fields.toList.mapM fun part => ofTy options part.ty rule {} none
  | .nil, _ => rfl
  | .cons _ _ _ _ rest, rule => by
    rw [ofFields, Fields.toList, List.mapM_cons, ofFields_eq_mapM rest rule]

/-- What is inside a block that is put together from fields. -/
theorem anyInside_ofRecord_fields {name : String} {fields : Fields} {trees : List TypeTree}
    {role : BlockRole} (htrees : ofFields options fields rule = .ok trees)
    (h : ofRecord options name fields.toList trees rule role = .ok tree) :
    tree.anyInside (·.isResource) = fields.mention (·.staysResource) := by
  have hlength : fields.toList.length = trees.length := by
    rw [Fields.length_toList, length_ofFields fields trees htrees]
  rw [anyInside_ofRecord hlength h]
  exact any_holdsResource_ofFields fields htrees

end Written

end ShaderLowering
