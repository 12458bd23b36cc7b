import ShaderLowering.Proofs.Layout.Footprint

/-!
# Parts of a type and of what is emitted for it

A path leads from a source type to a part of it, through array elements and structure members, and
from the emitted type to a part of that.  The second part is what is emitted for the first one, at
the orders that hold there (`part?_ofTy`).
-/

namespace ShaderLowering

open Source (Ty OptionalTy Fields Field Record)
open Spirv (TypeTree TreeForm TreeMembers PartStep)

namespace Source

/-- How many members a base structure takes before the fields. -/
def OptionalTy.count : OptionalTy → Nat
  | .absent => 0
  | .present _ => 1

mutual

/-- The part at the end of a path, with the matrix orders that hold there.  Wrappers are passed; the
base structure is the first member. -/
def Ty.part? : Ty → Layout.Orientation → List PartStep → Option (Ty × Layout.Orientation)
  | .alias _ target, o, path => target.part? o path
  | .oriented order target, o, path => target.part? (o.annotate order) path
  | .array elem _, o, .element :: path => elem.part? o.element path
  | .struct _ base fields, _, .member i :: path =>
    if i < base.count then base.part? path else fields.part? (i - base.count) path
  | ty, o, [] => some (ty, o)
  | _, _, _ => none

/-- The part of a base structure at the end of a path. -/
def OptionalTy.part? : OptionalTy → List PartStep → Option (Ty × Layout.Orientation)
  | .absent, _ => none
  | .present ty, path => ty.part? {} path

/-- The part of a field at the end of a path. -/
def Fields.part? : Fields → Nat → List PartStep → Option (Ty × Layout.Orientation)
  | .nil, _, _ => none
  | .cons _ ty _ _ _, 0, path => ty.part? {} path
  | .cons _ _ _ _ rest, i + 1, path => rest.part? i path

end

mutual

/-- The parts of plain data are plain data. -/
theorem Ty.isPlainData_of_part? : (ty : Ty) → (o : Layout.Orientation) → (path : List PartStep) →
    {part : Ty} → {o' : Layout.Orientation} → ty.isPlainData = true →
    ty.part? o path = some (part, o') → part.isPlainData = true
  | .alias _ target, o, path, _, _, h, hpart => by
    rw [Ty.part?] at hpart
    exact target.isPlainData_of_part? o path h hpart
  | .oriented order target, o, path, _, _, h, hpart => by
    rw [Ty.part?] at hpart
    exact target.isPlainData_of_part? (o.annotate order) path h hpart
  | .array elem none, _, _, _, _, h, _ => nomatch h
  | .array elem (some _), o, path, _, _, h, hpart => by
    rcases path with _ | ⟨_ | i, path⟩ <;> simp only [Ty.part?, reduceCtorEq] at hpart
    · cases hpart
      exact h
    · exact elem.isPlainData_of_part? o.element path h hpart
  | .struct _ base fields, _, path, _, _, h, hpart => by
    have hparts := h
    rw [Ty.isPlainData, Bool.and_eq_true] at hparts
    rcases path with _ | ⟨_ | i, path⟩ <;> simp only [Ty.part?, reduceCtorEq] at hpart
    · cases hpart
      exact h
    · split at hpart
      · exact base.isPlainData_of_part? path hparts.1 hpart
      · exact fields.isPlainData_of_part? _ path hparts.2 hpart
  | .void, _, _, _, _, h, _ | .resource _ _, _, _, _, _, h, _ => nomatch h
  | .scalar _, _, path, _, _, h, hpart | .vector _ _, _, path, _, _, h, hpart
  | .matrix _ _ _, _, path, _, _, h, hpart => by
    rcases path with _ | ⟨step, path⟩ <;> simp only [Ty.part?, reduceCtorEq] at hpart
    cases hpart
    exact h

theorem OptionalTy.isPlainData_of_part? : (base : OptionalTy) → (path : List PartStep) →
    {part : Ty} → {o' : Layout.Orientation} → base.isPlainData = true →
    base.part? path = some (part, o') → part.isPlainData = true
  | .present ty, path, _, _, h, hpart => ty.isPlainData_of_part? {} path h hpart

theorem Fields.isPlainData_of_part? : (fields : Fields) → (i : Nat) → (path : List PartStep) →
    {part : Ty} → {o' : Layout.Orientation} → fields.arePlainData = true →
    fields.part? i path = some (part, o') → part.isPlainData = true
  | .cons _ ty _ _ _, 0, path, _, _, h, hpart => by
    rw [Fields.arePlainData, Bool.and_eq_true] at h
    exact ty.isPlainData_of_part? {} path h.1 hpart
  | .cons _ _ _ _ rest, i + 1, path, _, _, h, hpart => by
    rw [Fields.arePlainData, Bool.and_eq_true] at h
    exact rest.isPlainData_of_part? i path h.2 hpart

end

end Source

namespace Written

variable {options : Options} {rule : Layout.Rule}

/-- A part of a list of trees. -/
def partOfTrees? (trees : List TypeTree) (i : Nat) (path : List PartStep) : Option TypeTree :=
  trees[i]?.bind (·.part? path)

/-- The members of a structure have the trees they are made of. -/
theorem part?_members : (parts : List Field) → (trees : List TypeTree) →
    parts.length = trees.length → (i : Nat) → (path : List PartStep) →
    (members parts trees).part? i path = partOfTrees? trees i path
  | [], [], _, _, _ => rfl
  | part :: parts, tree :: trees, _, 0, path => rfl
  | part :: parts, tree :: trees, h, i + 1, path => by
    rw [members, TreeMembers.part?, part?_members parts trees (by simpa using h) i path]
    rfl

theorem length_ofFields : (fields : Fields) → (trees : List TypeTree) →
    ofFields options fields rule = .ok trees → trees.length = fields.length
  | .nil, _, h => by
    cases h
    rfl
  | .cons _ _ _ _ rest, _, h => by
    rw [ofFields] at h
    obtain ⟨tree, -, h⟩ := bind_eq_ok_iff.1 h
    obtain ⟨trees, htrees, h⟩ := bind_eq_ok_iff.1 h
    cases h
    rw [List.length_cons, length_ofFields rest trees htrees, Fields.length]

theorem length_ofBase {base : OptionalTy} {trees : List TypeTree}
    (h : ofBase options base rule = .ok trees) : trees.length = base.count := by
  cases base with
  | absent =>
    cases h
    rfl
  | present ty =>
    rw [ofBase] at h
    obtain ⟨tree, -, h⟩ := bind_eq_ok_iff.1 h
    cases h
    rfl

theorem length_parts (name : String) (base : OptionalTy) (fields : Fields) :
    (Record.parts ⟨name, base, fields⟩).length = base.count + fields.length := by
  cases base with
  | absent =>
    rw [Record.parts, OptionalTy.count, Fields.length_toList, Nat.zero_add]
  | present ty =>
    rw [Record.parts, OptionalTy.count, List.length_cons, Fields.length_toList, Nat.add_comm]

theorem part?_ofArray {o : Layout.Orientation} {elem : Ty} {length : Option Nat}
    {base tree : TypeTree} (h : ofArray options rule o elem length base = .ok tree)
    (path : List PartStep) : tree.part? (.element :: path) = base.part? path := by
  rw [ofArray] at h
  dsimp only at h
  cases length <;> split at h
  case some.isTrue | none.isTrue =>
    cases h
    rfl
  case some.isFalse | none.isFalse =>
    obtain ⟨ds, -, h⟩ := bind_eq_ok_iff.1 h
    cases h
    rfl

theorem part?_ofRecord {name : String} {parts : List Field} {trees : List TypeTree}
    {role : BlockRole} {tree : TypeTree} (hlength : parts.length = trees.length)
    (h : ofRecord options name parts trees rule role = .ok tree) (i : Nat) (path : List PartStep) :
    tree.part? (.member i :: path) = partOfTrees? trees i path := by
  rw [ofRecord] at h
  obtain ⟨ds, -, h⟩ := bind_eq_ok_iff.1 h
  cases h
  exact part?_members parts trees hlength i path

mutual

/-- **The part of an emitted type is what is emitted for the part.** -/
theorem part?_ofTy : (ty : Ty) → (o : Layout.Orientation) → (path : List PartStep) →
    {tree : TypeTree} → {part : Ty} → {o' : Layout.Orientation} →
    ofTy options ty rule o none = .ok tree → ty.part? o path = some (part, o') →
    ∃ sub, tree.part? path = some sub ∧ ofTy options part rule o' none = .ok sub
  | .alias _ target, o, path, tree, part, o', h, hpart => by
    rw [ofTy] at h
    rw [Ty.part?] at hpart
    exact part?_ofTy target o path h hpart
  | .oriented order target, o, path, tree, part, o', h, hpart => by
    rw [ofTy] at h
    rw [Ty.part?] at hpart
    exact part?_ofTy target (o.annotate order) path h hpart
  | .array elem length, o, .element :: path, tree, part, o', h, hpart => by
    rw [ofTy] at h
    rw [Ty.part?] at hpart
    obtain ⟨base, hbase, h⟩ := bind_eq_ok_iff.1 h
    rw [part?_ofArray h path]
    exact part?_ofTy elem o.element path hbase hpart
  | .struct name base fields, o, .member i :: path, tree, part, o', h, hpart => by
    rw [ofTy] at h
    rw [Ty.part?] at hpart
    obtain ⟨inherited, hinherited, h⟩ := bind_eq_ok_iff.1 h
    obtain ⟨own, hown, h⟩ := bind_eq_ok_iff.1 h
    have hbase := length_ofBase hinherited
    have hlength : (Record.parts ⟨name, base, fields⟩).length = (inherited ++ own).length := by
      rw [length_parts, List.length_append, hbase, length_ofFields fields own hown]
    rw [part?_ofRecord hlength h, partOfTrees?]
    -- the trees of the base come first, as the base does among the parts
    split at hpart
    · rename_i hi
      rw [List.getElem?_append_left (by omega)]
      exact part?_ofBase base i path hinherited hi hpart
    · rename_i hi
      rw [List.getElem?_append_right (by omega), hbase]
      exact part?_ofFields fields (i - base.count) path hown hpart
  | .void, o, [], tree, part, o', h, hpart | .scalar _, o, [], tree, part, o', h, hpart
  | .vector _ _, o, [], tree, part, o', h, hpart | .matrix _ _ _, o, [], tree, part, o', h, hpart
  | .array _ _, o, [], tree, part, o', h, hpart | .struct _ _ _, o, [], tree, part, o', h, hpart
  | .resource _ _, o, [], tree, part, o', h, hpart => by
    simp only [Ty.part?, Option.some.injEq, Prod.mk.injEq] at hpart
    obtain ⟨rfl, rfl⟩ := hpart
    exact ⟨tree, by rw [TypeTree.part?], h⟩

theorem part?_ofBase : (base : OptionalTy) → (i : Nat) → (path : List PartStep) →
    {trees : List TypeTree} → {part : Ty} → {o' : Layout.Orientation} →
    ofBase options base rule = .ok trees → i < base.count → base.part? path = some (part, o') →
    ∃ sub, partOfTrees? trees i path = some sub ∧ ofTy options part rule o' none = .ok sub
  | .present ty, 0, path, trees, part, o', h, _, hpart => by
    rw [ofBase] at h
    obtain ⟨tree, htree, h⟩ := bind_eq_ok_iff.1 h
    cases h
    exact part?_ofTy ty {} path htree hpart

theorem part?_ofFields : (fields : Fields) → (i : Nat) → (path : List PartStep) →
    {trees : List TypeTree} → {part : Ty} → {o' : Layout.Orientation} →
    ofFields options fields rule = .ok trees → fields.part? i path = some (part, o') →
    ∃ sub, partOfTrees? trees i path = some sub ∧ ofTy options part rule o' none = .ok sub
  | .cons _ ty _ _ rest, i, path, trees, part, o', h, hpart => by
    rw [ofFields] at h
    obtain ⟨tree, htree, h⟩ := bind_eq_ok_iff.1 h
    obtain ⟨others, hothers, h⟩ := bind_eq_ok_iff.1 h
    cases h
    cases i with
    | zero =>
      rw [Fields.part?] at hpart
      exact part?_ofTy ty {} path htree hpart
    | succ i =>
      rw [Fields.part?] at hpart
      exact part?_ofFields rest i path hothers hpart

end

end Written

end ShaderLowering
