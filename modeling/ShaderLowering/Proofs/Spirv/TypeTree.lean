import Mathlib.Data.List.Induction
import ShaderLowering.Proofs.Spirv.Growth

/-!
# Types written out

The entries of a type table refer to each other by number.  A *type tree* is a type with every
such number replaced by the type it stands for and every array length by its value, so that it
says what a type is without the table.  `Module.tree?` reads a tree off a table: the entries
are unfolded in order, each from the trees of the entries before it.

In a well-formed table an entry refers to earlier entries only, so the tree of an entry is
composed of the trees of its parts (`Module.tree?_of_get?`).  A tree stays the same when the
module grows (`Module.tree?_mono`), and a new entry whose parts have trees gets the tree
composed of them (`Module.tree?_insertType`), whether it is really new or was there already.
-/

namespace ShaderLowering.Spirv

mutual

/-- A type with everything it refers to written out. -/
inductive TypeTree
  | node (name : Option String) (form : TreeForm) (decorations : List TypeDecoration)
deriving DecidableEq, Repr

/-- What a written-out type consists of. -/
inductive TreeForm
  | void
  | scalar (s : Scalar)
  | vector (size : VectorSize) (s : Scalar)
  | matrix (column : TypeTree) (columns : VectorSize)
  | array (elem : TypeTree) (length : Nat)
  | runtimeArray (elem : TypeTree)
  | struct (members : TreeMembers)
  /-- An image with the type of a sample. -/
  | image (sample : TypeTree) (dim : ImageDim) (arrayed multisampled : Bool) (sampled : Nat)
      (format : ImageFormat) (depth : Nat)
  | sampler
  | pointer (target : TypeTree) (storage : StorageClass)
deriving DecidableEq, Repr

/-- The members of a written-out structure. -/
inductive TreeMembers
  | nil
  | cons (name : Option String) (ty : TypeTree) (rest : TreeMembers)
deriving DecidableEq, Repr

end

/-- Members with their types written out. -/
def TreeMembers.ofMembers? (part : TypeId → Option TypeTree) : List Member → Option TreeMembers
  | [] => some .nil
  | m :: rest =>
    (part m.ty).bind fun ty => (TreeMembers.ofMembers? part rest).map fun rest => .cons m.name ty rest

/-- A shape with its parts and lengths written out. -/
def Shape.form? (length : ConstantId → Option Nat) (part : TypeId → Option TypeTree) :
    Shape → Option TreeForm
  | .void => some .void
  | .scalar s => some (.scalar s)
  | .vector size s => some (.vector size s)
  | .matrix column columns => (part column).map fun column => .matrix column columns
  | .array elem n => (part elem).bind fun elem => (length n).map fun n => .array elem n
  | .runtimeArray elem => (part elem).map fun elem => .runtimeArray elem
  | .struct members => (TreeMembers.ofMembers? part members).map fun members => .struct members
  | .image i => (part i.sampledType).map fun sample =>
      .image sample i.dim i.arrayed i.multisampled i.sampled i.format i.depth
  | .sampler => some .sampler
  | .pointer target storage => (part target).map fun target => .pointer target storage

/-- An entry of the type table written out. -/
def TypeEntry.tree? (length : ConstantId → Option Nat) (part : TypeId → Option TypeTree)
    (t : TypeEntry) : Option TypeTree :=
  (t.shape.form? length part).map fun form => .node t.name form t.decorations

/-- The trees of all entries of a type table, in order. -/
def unfoldings (length : ConstantId → Option Nat) (entries : List TypeEntry) :
    List (Option TypeTree) :=
  entries.foldl (fun before t => before ++ [t.tree? length fun i => before[i]?.join]) []

namespace Module

/-- The value of a constant. -/
def constantValue? (m : Module) (c : ConstantId) : Option Nat := (m.constants.get? c).map (·.value)

/-- The tree of a type. -/
def tree? (m : Module) (id : TypeId) : Option TypeTree :=
  (unfoldings m.constantValue? m.types.entries)[id]?.join

/-- Whether every type refers only to types before it. -/
def WellFormed (m : Module) : Prop :=
  ∀ i t, m.types.get? i = some t → ∀ p ∈ t.shape.parts, p < i

end Module

/-! ## What a tree depends on -/

section

variable {length length' : ConstantId → Option Nat} {part part' : TypeId → Option TypeTree}

theorem TreeMembers.ofMembers?_mono {ms : List Member} {ts : TreeMembers}
    (hp : ∀ m ∈ ms, ∀ t, part m.ty = some t → part' m.ty = some t)
    (h : TreeMembers.ofMembers? part ms = some ts) : TreeMembers.ofMembers? part' ms = some ts := by
  induction ms generalizing ts with
  | nil => exact h
  | cons m rest ih =>
    simp only [ofMembers?, Option.bind_eq_some_iff, Option.map_eq_some_iff] at h ⊢
    obtain ⟨t, ht, us, hus, rfl⟩ := h
    exact ⟨t, hp m (by simp) t ht, us, ih (fun n hn => hp n (by simp [hn])) hus, rfl⟩

/-- A tree that is found stays the same when more parts and lengths are known. -/
theorem Shape.form?_mono {s : Shape} {f : TreeForm}
    (hl : ∀ c n, length c = some n → length' c = some n)
    (hp : ∀ p ∈ s.parts, ∀ t, part p = some t → part' p = some t)
    (h : s.form? length part = some f) : s.form? length' part' = some f := by
  cases s with
  | void | scalar | vector | sampler => exact h
  | matrix p n | runtimeArray p | pointer p n =>
    simp only [form?, Option.map_eq_some_iff] at h ⊢
    obtain ⟨t, ht, rfl⟩ := h
    exact ⟨t, hp p (by simp [parts]) t ht, rfl⟩
  | image i =>
    simp only [form?, Option.map_eq_some_iff] at h ⊢
    obtain ⟨t, ht, rfl⟩ := h
    exact ⟨t, hp _ (by simp [parts]) t ht, rfl⟩
  | array p c =>
    simp only [form?, Option.bind_eq_some_iff, Option.map_eq_some_iff] at h ⊢
    obtain ⟨t, ht, n, hn, rfl⟩ := h
    exact ⟨t, hp p (by simp [parts]) t ht, n, hl c n hn, rfl⟩
  | struct ms =>
    simp only [form?, Option.map_eq_some_iff] at h ⊢
    obtain ⟨ts, hts, rfl⟩ := h
    refine ⟨ts, TreeMembers.ofMembers?_mono (fun m hm => hp m.ty ?_) hts, rfl⟩
    exact List.mem_map_of_mem hm

theorem TypeEntry.tree?_mono {t : TypeEntry} {tree : TypeTree}
    (hl : ∀ c n, length c = some n → length' c = some n)
    (hp : ∀ p ∈ t.shape.parts, ∀ u, part p = some u → part' p = some u)
    (h : t.tree? length part = some tree) : t.tree? length' part' = some tree := by
  simp only [tree?, Option.map_eq_some_iff] at h ⊢
  obtain ⟨f, hf, rfl⟩ := h
  exact ⟨f, Shape.form?_mono hl hp hf, rfl⟩

/-- A tree depends on the trees of the parts alone. -/
theorem TypeEntry.tree?_congr {t : TypeEntry} (hp : ∀ p ∈ t.shape.parts, part p = part' p) :
    t.tree? length part = t.tree? length part' := by
  ext tree
  constructor
  · exact tree?_mono (fun _ _ hn => hn) fun p hpt u hu => (hp p hpt) ▸ hu
  · exact tree?_mono (fun _ _ hn => hn) fun p hpt u hu => (hp p hpt) ▸ hu

theorem TreeMembers.isSome_part_of_ofMembers? {ms : List Member} {ts : TreeMembers}
    (h : TreeMembers.ofMembers? part ms = some ts) : ∀ m ∈ ms, (part m.ty).isSome := by
  induction ms generalizing ts with
  | nil => simp
  | cons m rest ih =>
    simp only [ofMembers?, Option.bind_eq_some_iff, Option.map_eq_some_iff] at h
    obtain ⟨t, ht, us, hus, -⟩ := h
    intro n hn
    rcases List.mem_cons.1 hn with rfl | hn
    · simp [ht]
    · exact ih hus n hn

/-- The tree of an entry is composed of the trees of its parts, so all of them have one. -/
theorem TypeEntry.isSome_part_of_tree? {t : TypeEntry} {tree : TypeTree}
    (h : t.tree? length part = some tree) : ∀ p ∈ t.shape.parts, (part p).isSome := by
  simp only [tree?, Option.map_eq_some_iff] at h
  obtain ⟨f, hf, -⟩ := h
  intro p hp
  cases hs : t.shape with
  | void | scalar | vector | sampler => simp [hs, Shape.parts] at hp
  | matrix q n | runtimeArray q | pointer q n | image i =>
    simp only [hs, Shape.parts, List.mem_singleton] at hp
    subst hp
    simp only [hs, Shape.form?, Option.map_eq_some_iff] at hf
    obtain ⟨u, hu, -⟩ := hf
    simp [hu]
  | array q c =>
    simp only [hs, Shape.parts, List.mem_singleton] at hp
    subst hp
    simp only [hs, Shape.form?, Option.bind_eq_some_iff] at hf
    obtain ⟨u, hu, -⟩ := hf
    simp [hu]
  | struct ms =>
    simp only [hs, Shape.parts, List.mem_map] at hp
    simp only [hs, Shape.form?, Option.map_eq_some_iff] at hf
    obtain ⟨m, hm, rfl⟩ := hp
    obtain ⟨us, hus, -⟩ := hf
    exact TreeMembers.isSome_part_of_ofMembers? hus m hm

end

/-! ## The trees of a table -/

section

variable {length length' : ConstantId → Option Nat}

theorem unfoldings_concat (length : ConstantId → Option Nat) (es : List TypeEntry)
    (t : TypeEntry) :
    unfoldings length (es ++ [t])
      = unfoldings length es ++ [t.tree? length fun i => (unfoldings length es)[i]?.join] := by
  simp [unfoldings, List.foldl_append]

@[simp] theorem length_unfoldings (length : ConstantId → Option Nat) (es : List TypeEntry) :
    (unfoldings length es).length = es.length := by
  induction es using List.reverseRecOn with
  | nil => rfl
  | append_singleton es t ih => simp [unfoldings_concat, ih]

/-- Further entries leave the trees of a table as they are. -/
theorem unfoldings_mono {es es' : List TypeEntry} (h : es <+: es') :
    unfoldings length es <+: unfoldings length es' := by
  obtain ⟨more, rfl⟩ := h
  induction more using List.reverseRecOn with
  | nil => simp
  | append_singleton more t ih =>
    rw [← List.append_assoc, unfoldings_concat]
    exact ih.trans (List.prefix_append _ _)

theorem getElem?_unfoldings_mono {es es' : List TypeEntry} (h : es <+: es') {i : Nat}
    (hi : i < es.length) : (unfoldings length es')[i]? = (unfoldings length es)[i]? := by
  have hpre : unfoldings length es <+: unfoldings length es' := unfoldings_mono h
  obtain ⟨more, hmore⟩ := hpre
  rw [← hmore, List.getElem?_append_left (by simpa using hi)]

theorem lt_of_join_unfoldings {es : List TypeEntry} {i : Nat} {t : TypeTree}
    (h : (unfoldings length es)[i]?.join = some t) : i < es.length := by
  rw [Option.join_eq_some_iff] at h
  simpa using (List.getElem?_eq_some_iff.1 h).1

/-- The tree of an entry that refers to earlier entries only is composed of their trees. -/
theorem join_unfoldings {es : List TypeEntry} {i : Nat} {t : TypeEntry} (ht : es[i]? = some t)
    (hp : ∀ p ∈ t.shape.parts, p < i) :
    (unfoldings length es)[i]?.join = t.tree? length fun p => (unfoldings length es)[p]?.join := by
  obtain ⟨hi, rfl⟩ := List.getElem?_eq_some_iff.1 ht
  have hlen : (es.take i).length = i := by simp; omega
  have hpre : es.take i ++ [es[i]] <+: es := by
    rw [List.take_append_getElem]
    exact List.take_prefix _ _
  have hlast : i < (es.take i ++ [es[i]]).length := by
    rw [List.length_append, hlen, List.length_singleton]
    exact Nat.lt_succ_self i
  have hold : (unfoldings length (es.take i)).length ≤ i :=
    Nat.le_of_eq ((length_unfoldings length _).trans hlen)
  rw [getElem?_unfoldings_mono hpre hlast, unfoldings_concat,
    List.getElem?_append_right hold, length_unfoldings, hlen, Nat.sub_self]
  refine TypeEntry.tree?_congr fun p hpt => ?_
  rw [getElem?_unfoldings_mono (List.take_prefix i es) (by rw [hlen]; exact hp p hpt)]

/-- More known lengths leave the trees of a table as they are. -/
theorem join_unfoldings_mono (hl : ∀ c n, length c = some n → length' c = some n)
    {es : List TypeEntry} {i : Nat} {t : TypeTree}
    (h : (unfoldings length es)[i]?.join = some t) : (unfoldings length' es)[i]?.join = some t := by
  induction es using List.reverseRecOn generalizing i t with
  | nil => simp [unfoldings] at h
  | append_singleton es e ih =>
    have hi := lt_of_join_unfoldings h
    rw [List.length_append, List.length_singleton] at hi
    rw [unfoldings_concat] at h ⊢
    by_cases hlast : i < es.length
    · rw [List.getElem?_append_left (by simpa using hlast)] at h ⊢
      exact ih h
    · rw [List.getElem?_append_right (by simpa using hlast), length_unfoldings,
        show i - es.length = 0 by omega] at h ⊢
      exact TypeEntry.tree?_mono hl (fun p _ u hu => ih hu) h

end

namespace Module

variable {m m' : Module}

theorem lt_of_tree? {id : TypeId} {t : TypeTree} (h : m.tree? id = some t) :
    id < m.types.size :=
  lt_of_join_unfoldings h

/-- In a well-formed table the tree of a type is composed of the trees of its parts. -/
theorem tree?_of_get? (hm : m.WellFormed) {id : TypeId} {t : TypeEntry}
    (ht : m.types.get? id = some t) : m.tree? id = t.tree? m.constantValue? m.tree? :=
  join_unfoldings ht (hm id t ht)

/-- A constant keeps its value when more constants are added. -/
theorem constantValue?_of_prefix (hconstants : m.constants.entries <+: m'.constants.entries)
    {c : ConstantId} {n : Nat} (h : m.constantValue? c = some n) :
    m'.constantValue? c = some n := by
  obtain ⟨k, hk, rfl⟩ := Option.map_eq_some_iff.1 h
  exact Option.map_eq_some_iff.2 ⟨k, Interned.get?_of_prefix hconstants hk, rfl⟩

/-- A type keeps its tree when more types and constants are added. -/
theorem tree?_of_prefix (htypes : m.types.entries <+: m'.types.entries)
    (hconstants : m.constants.entries <+: m'.constants.entries) {id : TypeId} {t : TypeTree}
    (h : m.tree? id = some t) : m'.tree? id = some t := by
  have h' := join_unfoldings_mono (fun _ _ => constantValue?_of_prefix hconstants) h
  rw [tree?, getElem?_unfoldings_mono htypes (lt_of_join_unfoldings h')]
  exact h'

/-- A constant keeps its value when the module grows. -/
theorem constantValue?_mono (hm : m.Grows m') {c : ConstantId} {n : Nat}
    (h : m.constantValue? c = some n) : m'.constantValue? c = some n :=
  constantValue?_of_prefix hm.constants h

/-- A type keeps its tree when the module grows. -/
theorem tree?_mono (hm : m.Grows m') {id : TypeId} {t : TypeTree} (h : m.tree? id = some t) :
    m'.tree? id = some t :=
  tree?_of_prefix hm.types hm.constants h

section

variable {t : TypeEntry} {tree : TypeTree}

theorem types_insertType (m : Module) (t : TypeEntry) :
    (m.insertType t).2.types = (m.types.insert t).2 := rfl

/-- A table stays well formed when a type is added whose parts have trees. -/
theorem wellFormed_insertType (hm : m.WellFormed)
    (h : t.tree? m.constantValue? m.tree? = some tree) : (m.insertType t).2.WellFormed := by
  intro i e he p hp
  rw [types_insertType, Interned.insert] at he
  split at he
  · exact hm i e he p hp
  · rw [Interned.get?, List.getElem?_append] at he
    split at he
    · exact hm i e he p hp
    · rename_i hi
      rw [List.getElem?_singleton] at he
      split at he
      · cases he
        obtain ⟨u, hu⟩ := Option.isSome_iff_exists.1 (TypeEntry.isSome_part_of_tree? h p hp)
        exact Nat.lt_of_lt_of_le (lt_of_tree? hu) (Nat.not_lt.1 hi)
      · cases he

/-- A type whose parts have trees gets the tree composed of them. -/
theorem tree?_insertType (hm : m.WellFormed)
    (h : t.tree? m.constantValue? m.tree? = some tree) :
    (m.insertType t).2.tree? (m.insertType t).1 = some tree := by
  have ht : (m.insertType t).2.types.get? (m.insertType t).1 = some t := m.types.get?_insert t
  rw [tree?_of_get? (wellFormed_insertType hm h) ht]
  refine TypeEntry.tree?_mono (fun _ _ hn => hn) (fun p _ u hu => ?_) h
  exact tree?_mono (m.grows_insertType t) hu

end

/-- A constant has the value that was asked for. -/
theorem constantValue?_constant (m : Module) (n : Nat) :
    (m.constant n).2.constantValue? (m.constant n).1 = some n :=
  congrArg (Option.map Constant.value) (Interned.get?_insert _ _)

theorem wellFormed_constant (hm : m.WellFormed) (n : Nat) : (m.constant n).2.WellFormed :=
  wellFormed_insertType (t := ⟨none, .scalar .uint32, []⟩) hm rfl

end Module

end ShaderLowering.Spirv
