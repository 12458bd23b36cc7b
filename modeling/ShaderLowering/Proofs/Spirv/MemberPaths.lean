import ShaderLowering.Proofs.Spirv.Footprint

/-!
# Paths through the members of structures

A path of member numbers leads through the structures of a type table as it leads through the
written-out type: where it ends, the type there has the tree of the part
(`Module.memberAt?_of_part?`).
-/

namespace ShaderLowering.Spirv

/-- The type of a member of a structure. -/
def Shape.member? : Shape → Nat → Option TypeId
  | .struct members, i => members[i]?.map (·.ty)
  | _, _ => none

namespace Module

/-- The type at the end of a path of member numbers. -/
def memberAt? (m : Module) : TypeId → List Nat → Option TypeId
  | id, [] => some id
  | id, i :: path =>
    ((m.types.get? id).bind (·.shape.member? i)).bind fun part => m.memberAt? part path

/-- A pointer to a buffer block in the storage class of uniforms. -/
def IsBufferPointer (m : Module) (id : TypeId) : Prop :=
  ∃ name members ds,
    m.tree? id = some (.node none (.pointer (.node name (.struct members) ds) .uniform) []) ∧
    TypeDecoration.bufferBlock ∈ ds

end Module

/-- A part of the members of a written-out structure is a part of one of them. -/
theorem TreeMembers.exists_of_part? {part : TypeId → Option TypeTree} {members : List Member}
    {trees : TreeMembers} (h : TreeMembers.ofMembers? part members = some trees) {i : Nat}
    {path : List PartStep} {sub : TypeTree} (hsub : trees.part? i path = some sub) :
    ∃ member tree, members[i]? = some member ∧ part member.ty = some tree ∧
      tree.part? path = some sub := by
  induction members generalizing trees i with
  | nil =>
    cases h
    rw [TreeMembers.part?] at hsub
    cases hsub
  | cons member rest ih =>
    rw [ofMembers?] at h
    obtain ⟨tree, htree, h⟩ := Option.bind_eq_some_iff.1 h
    obtain ⟨others, hothers, rfl⟩ := Option.map_eq_some_iff.1 h
    cases i with
    | zero =>
      rw [TreeMembers.part?] at hsub
      exact ⟨member, tree, rfl, htree, hsub⟩
    | succ i =>
      rw [TreeMembers.part?] at hsub
      exact ih hothers hsub

section

variable {length : ConstantId → Option Nat} {part : TypeId → Option TypeTree}

/-- Only a structure is written out as one. -/
theorem Shape.exists_of_form?_eq_struct {s : Shape} {trees : TreeMembers}
    (h : s.form? length part = some (.struct trees)) :
    ∃ members, s = .struct members ∧ TreeMembers.ofMembers? part members = some trees := by
  cases s with
  | struct members =>
    obtain ⟨_, htrees, heq⟩ := Option.map_eq_some_iff.1 h
    cases heq
    exact ⟨members, rfl, htrees⟩
  | _ => simp [form?, Option.bind_eq_some_iff] at h

/-- A member of a written-out type is a member of the type, which is then a structure. -/
theorem TypeEntry.exists_of_part? {t : TypeEntry} {tree sub : TypeTree}
    (h : t.tree? length part = some tree) {i : Nat} {path : List PartStep}
    (hsub : tree.part? (.member i :: path) = some sub) :
    ∃ id inner, t.shape.member? i = some id ∧ part id = some inner ∧
      inner.part? path = some sub := by
  obtain ⟨form, hform, rfl⟩ := Option.map_eq_some_iff.1 h
  rw [TypeTree.part?] at hsub
  cases form with
  | struct trees =>
    obtain ⟨members, hshape, htrees⟩ := Shape.exists_of_form?_eq_struct hform
    rw [TreeForm.part?] at hsub
    obtain ⟨member, inner, hmember, hinner, hsub⟩ := TreeMembers.exists_of_part? htrees hsub
    exact ⟨member.ty, inner, by rw [hshape, Shape.member?, hmember]; rfl, hinner, hsub⟩
  | _ => simp [TreeForm.part?] at hsub

end

namespace Module

variable {m : Module} {id : TypeId} {tree sub : TypeTree}

/-- A path through a written-out type leads to the same place in the table. -/
theorem memberAt?_of_part? (hm : m.WellFormed) (path : List Nat) (htree : m.tree? id = some tree)
    (hsub : tree.part? (path.map .member) = some sub) :
    ∃ part, m.memberAt? id path = some part ∧ m.tree? part = some sub := by
  induction path generalizing id tree with
  | nil =>
    rw [List.map_nil, TypeTree.part?] at hsub
    cases hsub
    exact ⟨id, rfl, htree⟩
  | cons i path ih =>
    obtain ⟨t, ht⟩ : ∃ t, m.types.get? id = some t :=
      ⟨_, List.getElem?_eq_getElem (lt_of_tree? htree)⟩
    rw [tree?_of_get? hm ht] at htree
    obtain ⟨next, inner, hnext, hinner, hsub⟩ := TypeEntry.exists_of_part? htree hsub
    rw [memberAt?, ht, Option.bind_some, hnext, Option.bind_some]
    exact ih hinner hsub

end Module

end ShaderLowering.Spirv
