import ShaderLowering.Proofs.Interface.Creation
import ShaderLowering.Proofs.Spelling

/-!
# Leaves that share a semantic

A semantic on a structure is taken by its leaves in turn: the first as it is, and every further one
at the next index, whatever is written on the leaves themselves (`Lower.createDeclaration_inTurn`).
A leaf is refused not when its own index is no word, but when the index after it is none.  So the
highest index is never taken, and from there on all leaves are refused.
-/

namespace ShaderLowering

open Source (Ty OptionalTy Fields Field)

namespace Source

/-! ## Leaves of a declaration -/

mutual

/-- The leaves of a declaration at a wrapper or shape of its type, those of a base structure
first. -/
def Ty.leaves (decl : Field) : Ty → List Field
  | .alias _ target | .oriented _ target => target.leaves decl
  | .struct _ base fields => base.leaves decl ++ fields.leaves
  | _ => [decl]

/-- The leaves of a base structure, which has the name and place of the declaration around it. -/
def OptionalTy.leaves (decl : Field) : OptionalTy → List Field
  | .absent => []
  | .present ty => ty.leaves ⟨decl.name, ty, {}, decl.position⟩

/-- The leaves of fields, in order. -/
def Fields.leaves : Fields → List Field
  | .nil => []
  | .cons name ty attributes position rest =>
    ty.leaves ⟨name, ty, attributes, position⟩ ++ rest.leaves

end

/-- The leaves of a declaration. -/
def Field.leaves (decl : Field) : List Field := decl.ty.leaves decl

/-- Whether a field is no builtin, and the semantic on it, if any, can be read. -/
def Field.isPlain (f : Field) : Bool :=
  f.attributes.builtin.isNone &&
    f.attributes.semantic.all fun string => (Semantic.ofString? string f.position).isSome

mutual

/-- Whether all fields of the structures in a type are plain.  Arrays and resources are not
entered. -/
def Ty.hasPlainFields : Ty → Bool
  | .alias _ target | .oriented _ target => target.hasPlainFields
  | .struct _ base fields => base.hasPlainFields && fields.arePlain
  | _ => true

/-- Whether all fields of a base structure are plain. -/
def OptionalTy.hasPlainFields : OptionalTy → Bool
  | .absent => true
  | .present ty => ty.hasPlainFields

/-- Whether some fields, and all fields of the structures in their types, are plain. -/
def Fields.arePlain : Fields → Bool
  | .nil => true
  | .cons name ty attributes position rest =>
    Field.isPlain ⟨name, ty, attributes, position⟩ && ty.hasPlainFields && rest.arePlain

end

theorem Ty.isVoid_of_isSome_record? {ty : Ty} (h : ty.record?.isSome = true) :
    ty.isVoid = false := by
  rw [record?] at h
  rw [isVoid]
  split at h
  · rename_i hshape
    rw [hshape]
  · cases h

theorem Field.isPlain_iff {f : Field} : f.isPlain = true ↔
    f.attributes.builtin = none ∧ ∃ own, InterfaceItem.ownSemantic f = .ok own := by
  rw [isPlain, Bool.and_eq_true_iff, Option.isNone_iff_eq_none, InterfaceItem.ownSemantic.eq_def]
  refine and_congr_right fun _ => ?_
  cases f.attributes.semantic with
  | none => simp
  | some string =>
    cases hread : Semantic.ofString? string f.position with
    | none => simp [hread]
    | some semantic => simp [hread]

end Source

/-! ## Semantics in turn -/

namespace Semantic

/-- The semantic that is taken after some leaves: as it is by the first leaf, and composed anew at a
higher index by every further one. -/
def advanced (s : Semantic) (n : Nat) : Semantic :=
  if n = 0 then s else s.withIndex (s.index + n)

/-- The semantic that is handed on after some leaves.  It stays at the highest word. -/
def held (s : Semantic) (n : Nat) : Semantic := s.advanced (min n (Word.bound - 1 - s.index))

@[simp] theorem advanced_zero (s : Semantic) : s.advanced 0 = s := rfl

@[simp] theorem held_zero (s : Semantic) : s.held 0 = s := by
  rw [held, Nat.zero_min, advanced_zero]

@[simp] theorem index_advanced (s : Semantic) (n : Nat) : (s.advanced n).index = s.index + n := by
  rw [advanced]
  split
  · rename_i hn
    rw [hn, Nat.add_zero]
  · rfl

@[simp] theorem name_advanced (s : Semantic) (n : Nat) : (s.advanced n).name = s.name := by
  rw [advanced]
  split <;> rfl

theorem withIndex_advanced (s : Semantic) (n index : Nat) :
    (s.advanced n).withIndex index = s.withIndex index := by
  rw [advanced]
  split <;> rfl

theorem next?_advanced (s : Semantic) (n : Nat) : (s.advanced n).next? =
    if s.index + n + 1 < Word.bound then some (s.advanced (n + 1)) else none := by
  rw [next?, index_advanced, withIndex_advanced]
  rfl

theorem held_of_le {s : Semantic} {n : Nat} (h : s.index + n + 1 ≤ Word.bound) :
    s.held n = s.advanced n := by
  rw [held, Nat.min_eq_left (by omega)]

theorem held_of_ge {s : Semantic} {n : Nat} (h : Word.bound ≤ s.index + n + 1) :
    s.held n = s.held (n + 1) := by
  rw [held, held, Nat.min_eq_right (by omega), Nat.min_eq_right (by omega)]

/-- The semantic at the highest word has no next one. -/
theorem next?_held_of_ge {s : Semantic} {n : Nat} (h : Word.bound ≤ s.index + n + 1) :
    (s.held n).next? = none := by
  rw [held, next?_advanced, if_neg (by omega)]

end Semantic

namespace InterfaceItem

/-- Whether an item is the warning that an inherited semantic overrides another. -/
def isOverriding : InterfaceItem → Bool
  | .remark (.semanticOverridden _ _ _) _ => true
  | _ => false

/-- The items without the warnings that an inherited semantic overrides another. -/
def lasting (items : List InterfaceItem) : List InterfaceItem :=
  items.filter fun item => !item.isOverriding

@[simp] theorem lasting_append (items items' : List InterfaceItem) :
    lasting (items ++ items') = lasting items ++ lasting items' := List.filter_append ..

@[simp] theorem lasting_overriding (decl : Field) (own inherited : Option Semantic) :
    lasting (overriding decl own inherited) = [] := by
  cases own <;> cases inherited <;> rfl

/-- A warning creates no leaf. -/
theorem filterMap_leaf?_lasting (point : SignaturePoint) (items : List InterfaceItem) :
    (lasting items).filterMap (·.leaf? point) = items.filterMap (·.leaf? point) := by
  rw [lasting, List.filterMap_filter]
  congr 1
  funext item
  cases item with
  | leaf decl semantic => rfl
  | remark finding position => cases finding <;> rfl

/-- What becomes of a leaf that takes a semantic after some others. -/
def inTurn (s : Semantic) (n : Nat) (leaf : Field) : InterfaceItem :=
  if s.index + n + 1 < Word.bound then .leaf leaf (some (s.advanced n))
  else .remark (.nextSemanticIndexTooLarge (s.held n) leaf.name) leaf.position

/-- The items are those of leaves that take a semantic in turn, some others having taken it before,
and the semantic is handed on. -/
structure TakesTurns (s : Semantic) (n : Nat) (leaves : List Field)
    (result : List InterfaceItem × Option Semantic) : Prop where
  items : lasting result.1 = leaves.mapIdx fun j leaf => inTurn s (n + j) leaf
  last : result.2 = some (s.held (n + leaves.length))

section

variable {s : Semantic} {n : Nat} {leaves leaves' : List Field}

theorem TakesTurns.nil : TakesTurns s n [] ([], some (s.held n)) := ⟨rfl, rfl⟩

theorem TakesTurns.append {items items' : List InterfaceItem} {current last : Option Semantic}
    (h : TakesTurns s n leaves (items, current))
    (h' : TakesTurns s (n + leaves.length) leaves' (items', last)) :
    TakesTurns s n (leaves ++ leaves') (items ++ items', last) where
  items := by
    rw [lasting_append, h.items, h'.items, List.mapIdx_append]
    congr 2
    funext j leaf
    rw [Nat.add_comm j, Nat.add_assoc]
  last := by
    rw [h'.last, List.length_append, Nat.add_assoc]

/-- One leaf takes the semantic, or is refused because there is no next one. -/
theorem takesTurns_ofLeaf (s : Semantic) (n : Nat) (decl : Field) (own : Option Semantic) :
    TakesTurns s n [decl] (ofLeaf decl own (some (s.held n))) := by
  by_cases hword : s.index + n + 1 < Word.bound
  · have hnow : s.held n = s.advanced n := Semantic.held_of_le (Nat.le_of_lt hword)
    have hnext : s.held (n + 1) = s.advanced (n + 1) := Semantic.held_of_le hword
    rw [ofLeaf, hnow, Semantic.next?_advanced, if_pos hword]
    have hitem : inTurn s n decl = .leaf decl (some (s.advanced n)) := if_pos hword
    exact ⟨congrArg (fun item => [item]) hitem.symm, congrArg some hnext.symm⟩
  · have hlarge : Word.bound ≤ s.index + n + 1 := Nat.le_of_not_lt hword
    rw [ofLeaf, Semantic.next?_held_of_ge hlarge]
    have hitem : inTurn s n decl =
        .remark (.nextSemanticIndexTooLarge (s.held n) decl.name) decl.position := if_neg hword
    exact ⟨congrArg (fun item => [item]) hitem.symm, congrArg some (Semantic.held_of_ge hlarge)⟩

end

mutual

theorem takesTurns_ofShape (s : Semantic) {decl : Field} (hdecl : decl.attributes.builtin = none)
    (own : Option Semantic) : (ty : Ty) → ty.hasPlainFields = true → (n : Nat) →
    TakesTurns s n (ty.leaves decl) (ofShape decl own ty (some (s.held n)))
  | .alias _ target, hty, n => by
    rw [ofShape, Ty.leaves]
    exact takesTurns_ofShape s hdecl own target hty n
  | .oriented _ target, hty, n => by
    rw [ofShape, Ty.leaves]
    exact takesTurns_ofShape s hdecl own target hty n
  | .struct _ base fields, hty, n => by
    obtain ⟨hbase, hfields⟩ := Bool.and_eq_true_iff.1 hty
    have hfirst := takesTurns_ofBase s decl base hbase n
    have hrest := takesTurns_ofFields s fields hfields (n + (base.leaves decl).length)
    rw [← hfirst.last] at hrest
    rw [ofShape, hdecl, Ty.leaves]
    exact hfirst.append hrest
  | .void, _, n | .scalar _, _, n | .vector _ _, _, n | .matrix _ _ _, _, n | .array _ _, _, n
  | .resource _ _, _, n => by
    simp only [ofShape, Ty.leaves]
    exact takesTurns_ofLeaf s n decl own

theorem takesTurns_ofBase (s : Semantic) (decl : Field) : (base : OptionalTy) →
    base.hasPlainFields = true → (n : Nat) →
    TakesTurns s n (base.leaves decl) (ofBase decl base (some (s.held n)))
  | .absent, _, _ => .nil
  | .present ty, hty, n => by
    rw [ofBase, OptionalTy.leaves]
    exact takesTurns_ofShape s rfl none ty hty n

theorem takesTurns_ofFields (s : Semantic) : (fields : Fields) → fields.arePlain = true →
    (n : Nat) → TakesTurns s n fields.leaves (ofFields fields (some (s.held n)))
  | .nil, _, _ => .nil
  | .cons name ty attributes position rest, hfields, n => by
    obtain ⟨hfirst, hrest⟩ := Bool.and_eq_true_iff.1 hfields
    obtain ⟨hfield, hty⟩ := Bool.and_eq_true_iff.1 hfirst
    obtain ⟨hbuiltin, own, hown⟩ := Field.isPlain_iff.1 hfield
    have hhere := takesTurns_ofShape s hbuiltin own ty hty n
    have hothers := takesTurns_ofFields s rest hrest
      (n + (ty.leaves ⟨name, ty, attributes, position⟩).length)
    rw [← hhere.last] at hothers
    have hall := hhere.append hothers
    rw [ofFields, hown, Fields.leaves]
    -- a warning comes before the items of the field
    refine ⟨Eq.trans ?_ hall.items, hall.last⟩
    dsimp only
    rw [List.append_assoc, lasting_append, lasting_overriding, List.nil_append]

end

/-- If the index after that of the last leaf is a word, no leaf is refused. -/
theorem filterMap_leaf?_mapIdx_inTurn {s : Semantic} {leaves : List Field} (point : SignaturePoint)
    (h : s.index + leaves.length < Word.bound) :
    (leaves.mapIdx (inTurn s)).filterMap (·.leaf? point) =
      leaves.mapIdx fun j leaf => ⟨point, leaf, some (s.advanced j)⟩ := by
  rw [List.mapIdx_eq_zipIdx_map, List.mapIdx_eq_zipIdx_map, List.filterMap_map,
    ← List.filterMap_eq_map]
  refine List.filterMap_congr fun (decl, j) hmem => ?_
  have hj := List.snd_lt_of_mem_zipIdx hmem
  have hitem : inTurn s j decl = .leaf decl (some (s.advanced j)) := if_pos (by omega)
  exact congrArg (leaf? point) hitem

/-- A structure starts with the semantic that is written on it. -/
theorem ofShape_none {decl : Field} (hdecl : decl.attributes.builtin = none) (s : Semantic)
    (own : Option Semantic) : (ty : Ty) → ty.record?.isSome = true →
    (ofShape decl (some s) ty none).1 = (ofShape decl own ty (some s)).1
  | .alias _ target, hty => by
    rw [ofShape, ofShape]
    exact ofShape_none hdecl s own target hty
  | .oriented _ target, hty => by
    rw [ofShape, ofShape]
    exact ofShape_none hdecl s own target hty
  | .struct _ _ _, _ => by
    rw [ofShape, ofShape, hdecl]
    rfl

/-- The leaves of a structure take the semantic that is written on it in turn. -/
theorem lasting_ofDeclaration {decl : Field} {s : Semantic}
    (hrecord : decl.ty.record?.isSome = true) (hown : ownSemantic decl = .ok (some s))
    (hdecl : decl.attributes.builtin = none) (hfields : decl.ty.hasPlainFields = true) :
    lasting (ofDeclaration decl) = decl.leaves.mapIdx (inTurn s) := by
  have hturns := takesTurns_ofShape s hdecl none decl.ty hfields 0
  rw [Semantic.held_zero] at hturns
  rw [ofDeclaration, hown]
  dsimp only
  rw [ofShape_none hdecl s none decl.ty hrecord, hturns.items, Field.leaves]
  congr 1
  funext j leaf
  rw [Nat.zero_add]

theorem index_lt_of_ownSemantic {decl : Field} {s : Semantic}
    (h : ownSemantic decl = .ok (some s)) : s.index < Word.bound := by
  rw [ownSemantic.eq_def] at h
  split at h
  · cases h
  · split at h
    · rename_i hread
      cases h
      exact Semantic.index_lt_of_ofString? hread
    · cases h

end InterfaceItem

open InterfaceItem (lasting inTurn ownSemantic ofDeclaration)

/-- What is to hold of the leaves that inherit a semantic: each takes the name, and the index that
is higher by the number of leaves before it, if that is a word. -/
def Semantic.CountsOn (s : Semantic) (leaves : List Field) (items : List InterfaceItem) : Prop :=
  ∀ (j : Nat) (leaf : Field), leaves[j]? = some leaf → s.index + j < Word.bound →
    ∃ taken : Semantic, (lasting items)[j]? = some (.leaf leaf (some taken)) ∧
      taken.name = s.name ∧ taken.index = s.index + j

theorem InterfaceItem.getElem?_lasting {s : Semantic} {leaves : List Field}
    {items : List InterfaceItem} (hitems : lasting items = leaves.mapIdx (inTurn s)) {j : Nat}
    {leaf : Field} (hleaf : leaves[j]? = some leaf) :
    (lasting items)[j]? = some (inTurn s j leaf) := by
  rw [hitems, List.getElem?_mapIdx, hleaf, Option.map_some]

/-- The leaf that would take the highest word is refused. -/
theorem InterfaceItem.exists_refused {s : Semantic} (hs : s.index < Word.bound)
    {leaves : List Field} {items : List InterfaceItem}
    (hitems : lasting items = leaves.mapIdx (inTurn s))
    (hlarge : ¬s.index + leaves.length < Word.bound) :
    ∃ j leaf, leaves[j]? = some leaf ∧ s.index + j < Word.bound ∧
      (lasting items)[j]? =
        some (.remark (.nextSemanticIndexTooLarge (s.held j) leaf.name) leaf.position) := by
  have hj : Word.bound - 1 - s.index < leaves.length := by omega
  have hleaf := List.getElem?_eq_getElem hj
  refine ⟨_, _, hleaf, by omega, ?_⟩
  rw [getElem?_lasting hitems hleaf, inTurn, if_neg (by omega)]

theorem Semantic.countsOn_iff {s : Semantic} (hs : s.index < Word.bound) {leaves : List Field}
    {items : List InterfaceItem} (hitems : lasting items = leaves.mapIdx (inTurn s)) :
    s.CountsOn leaves items ↔ s.index + leaves.length < Word.bound := by
  constructor
  · intro h
    by_contra hlarge
    obtain ⟨j, leaf, hleaf, hword, hrefused⟩ := InterfaceItem.exists_refused hs hitems hlarge
    obtain ⟨taken, htaken, -, -⟩ := h j leaf hleaf hword
    rw [hrefused] at htaken
    cases htaken
  · intro hall j leaf hleaf _
    have hj := (List.getElem?_eq_some_iff.1 hleaf).1
    refine ⟨s.advanced j, ?_, s.name_advanced j, s.index_advanced j⟩
    rw [InterfaceItem.getElem?_lasting hitems hleaf, inTurn, if_pos (by omega)]

namespace Lower

/-- Nothing that was reported on the way to a good answer was an error. -/
theorem isError_of_createItems {c : InterfaceContext} : {items : List InterfaceItem} →
    {s s' : Session} → (createItems c items).runOn s = (.ok true, s') →
    ∀ finding position, .remark finding position ∈ items → finding.severity.isError = false
  | [], _, _, _ => fun _ _ hmem => nomatch hmem
  | item :: rest, s, s', h => fun finding position hmem => by
    obtain ⟨s₁, hitem, hrest⟩ := Action.runOn_and_eq_ok_iff.1 h
    rcases List.mem_cons.1 hmem with rfl | hmem
    · obtain ⟨_, s₂, -, hanswer⟩ := Action.runOn_bind_eq_ok_iff.1 hitem
      rw [Action.runOn_pure, Prod.mk.injEq, Except.ok.injEq, Bool.not_eq_true'] at hanswer
      exact hanswer.1
    · exact isError_of_createItems hrest finding position hmem

variable {decl : Field} {semantic : Semantic}

/-- After a good answer the index after that of the last leaf is a word. -/
theorem index_lt_of_createItems (hsemantic : semantic.index < Word.bound) {c : InterfaceContext}
    {items : List InterfaceItem} {leaves : List Field}
    (hitems : lasting items = leaves.mapIdx (inTurn semantic))
    {s s' : Session} (h : (createItems c items).runOn s = (.ok true, s')) :
    semantic.index + leaves.length < Word.bound := by
  by_contra hlarge
  obtain ⟨j, leaf, -, -, hrefused⟩ := InterfaceItem.exists_refused hsemantic hitems hlarge
  have hmem := List.mem_of_mem_filter (List.mem_of_getElem? hrefused)
  cases isError_of_createItems h _ _ hmem

/-- **How a structure hands on its semantic.**  Creating the variables of a structure with a
semantic, with no builtin and no unreadable semantic inside, is creating its items in order.  Apart
from warnings there is one for every leaf.  A leaf takes the name of the semantic and the index that
is higher by the number of leaves before it, if even the next index is a word, and else it is
refused.  So what is to hold of the leaves holds exactly if the index after that of the last leaf is
a word.  Whenever the answer is that nothing is wrong, it holds, and all leaves are created in this
way. -/
theorem createDeclaration_inTurn (hrecord : decl.ty.record?.isSome = true)
    (hown : ownSemantic decl = .ok (some semantic)) (hdecl : decl.attributes.builtin = none)
    (hfields : decl.ty.hasPlainFields = true) (point : SignaturePoint)
    (vertices invocation : Option Nat) :
    createDeclaration decl (some point) vertices invocation
        = createItems ⟨point, vertices, invocation⟩ (ofDeclaration decl) ∧
      lasting (ofDeclaration decl) = decl.leaves.mapIdx (inTurn semantic) ∧
      (semantic.CountsOn decl.leaves (ofDeclaration decl) ↔
        semantic.index + decl.leaves.length < Word.bound) ∧
      ∀ s s', (createDeclaration decl (some point) vertices invocation).runOn s = (.ok true, s') →
        semantic.CountsOn decl.leaves (ofDeclaration decl) ∧
          s.Lowers (decl.leaves.mapIdx fun j leaf => ⟨point, leaf, some (semantic.advanced j)⟩) s'
    := by
  have hitems := InterfaceItem.lasting_ofDeclaration hrecord hown hdecl hfields
  have hsemantic := InterfaceItem.index_lt_of_ownSemantic hown
  have hcounts := Semantic.countsOn_iff hsemantic hitems
  have hcreate : createDeclaration decl (some point) vertices invocation
      = createItems ⟨point, vertices, invocation⟩ (ofDeclaration decl) := by
    rw [createDeclaration, Ty.isVoid_of_isSome_record? hrecord]
    rfl
  refine ⟨hcreate, hitems, hcounts, fun s s' hrun => ?_⟩
  rw [hcreate] at hrun
  have hlast := index_lt_of_createItems hsemantic hitems hrun
  refine ⟨hcounts.2 hlast, ?_⟩
  rw [← InterfaceItem.filterMap_leaf?_mapIdx_inTurn point hlast, ← hitems,
    InterfaceItem.filterMap_leaf?_lasting]
  exact lowers_createItems hrun

/-- A structure with a base structure, a structure as a field, and semantics that are overridden. -/
def nestedColors : Field where
  name := "v"
  ty := .struct "S" (.present (.struct "B" .absent (.cons "z" (.scalar .single) {} {} .nil)))
    (.cons "a" (.vector .single 4) { semantic := some "X" } {}
      (.cons "n" (.struct "N" .absent (.cons "b" (.scalar .single) {} {}
          (.cons "c" (.scalar .single) { semantic := some "Y3" } {} .nil))) {} {}
        (.cons "d" (.array (.scalar .single) (some 2)) {} {} .nil)))
  attributes := { semantic := some "COLOR2" }

/-- The semantic on it. -/
def secondColor : Semantic := ⟨"COLOR2", "COLOR", 2, .arbitrary, {}⟩

theorem createDeclaration_inTurn_nestedColors :
    nestedColors.ty.record?.isSome = true ∧ ownSemantic nestedColors = .ok (some secondColor) ∧
    nestedColors.attributes.builtin = none ∧ nestedColors.ty.hasPlainFields = true ∧
    nestedColors.leaves.map (·.name) = ["z", "a", "b", "c", "d"] ∧
    secondColor.CountsOn nestedColors.leaves (ofDeclaration nestedColors) ∧
    ((createDeclaration nestedColors (some .vertexIn) none none).runOn (.start .vertex {})).1
      = .ok true ∧
    ((createDeclaration nestedColors (some .vertexIn) none none).runOn
        (.start .vertex {})).2.interface.map (fun v => v.semantic.map (·.string))
      = ["COLOR2", "COLOR3", "COLOR4", "COLOR5", "COLOR6"].map some := by
  have hown : ownSemantic nestedColors = .ok (some secondColor) := by decide +kernel
  have hfields : nestedColors.ty.hasPlainFields = true := by decide +kernel
  have hrule := createDeclaration_inTurn rfl hown rfl hfields .vertexIn none none
  exact ⟨rfl, hown, rfl, hfields, by decide +kernel, hrule.2.2.1.2 (by decide +kernel),
    by decide +kernel, by decide +kernel⟩

/-- A structure of one number, at the highest index. -/
def highestColor : Field where
  name := "a"
  ty := .struct "S" .absent (.cons "x" (.scalar .single) {} {} .nil)
  attributes := { semantic := some "COLOR4294967295" }

/-- Its leaf is refused, although a number alone can have the same semantic. -/
theorem not_countsOn_highestColor :
    highestColor.ty.record?.isSome = true ∧ highestColor.attributes.builtin = none ∧
    highestColor.ty.hasPlainFields = true ∧
    ∃ semantic, ownSemantic highestColor = .ok (some semantic) ∧ semantic.index + 1 = Word.bound ∧
      ¬semantic.CountsOn highestColor.leaves (ofDeclaration highestColor) ∧
      ((createDeclaration highestColor (some .vertexIn) none none).runOn (.start .vertex {})).1
        = .ok false ∧
      ((createDeclaration { highestColor with ty := .scalar .single } (some .vertexIn) none
        none).runOn (.start .vertex {})).1 = .ok true := by
  refine ⟨rfl, rfl, by decide +kernel,
    ⟨"COLOR4294967295", "COLOR", 4294967295, .arbitrary, {}⟩, by decide +kernel, rfl,
    fun h => ?_, by decide +kernel, by decide +kernel⟩
  obtain ⟨taken, htaken, -, -⟩ := h 0 _ rfl (by decide)
  have hrefused : (lasting (ofDeclaration highestColor))[0]?.any
      (fun item => (item.leaf? .vertexIn).isNone) = true := by decide +kernel
  rw [htaken] at hrefused
  cases hrefused

end Lower

end ShaderLowering
