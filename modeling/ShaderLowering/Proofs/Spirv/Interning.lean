import ShaderLowering.Proofs.Spirv.Canonical

/-!
# Entering a written-out type

A type tree can be entered into the tables of a module from its leaves up: first the types that it
refers to, in order, then a length, then the type itself.  What `TypeTree.intern` answers is the
number of the type afterwards.

Only the tables of types and constants take part; `Module.bare` is a module with nothing else.  In a
module that is well formed and canonical a tree that is there already is found again, and nothing is
added (`Module.intern_of_tree?`).
-/

namespace ShaderLowering.Spirv

theorem Interned.insert_of_get? {α : Type} [DecidableEq α] {t : Interned α}
    (h : t.entries.Nodup) {i : Nat} {a : α} (hi : t.get? i = some a) : t.insert a = (i, t) := by
  rw [insert]
  cases hj : t.find? a with
  | some j =>
    have hij : j = i := get?_inj h (get?_of_find? hj) hi
    rw [hij]
  | none => exact absurd (List.mem_of_getElem? hi) (find?_eq_none_iff.1 hj)

/-! ## The tables of types and constants -/

namespace Module

/-- The types and constants of a module. -/
def bare (m : Module) : Module := { types := m.types, constants := m.constants }

variable (m : Module)

theorem tree?_bare (id : TypeId) : m.bare.tree? id = m.tree? id := rfl

theorem insertType_bare (t : TypeEntry) :
    m.bare.insertType t = ((m.insertType t).1, (m.insertType t).2.bare) := rfl

theorem constant_bare (n : Nat) :
    m.bare.constant n = ((m.constant n).1, (m.constant n).2.bare) := rfl

theorem bare_require (c : Capability) : (m.require c).bare = m.bare := by
  rw [require]
  split <;> rfl

theorem bare_enable (x : Extension) : (m.enable x).bare = m.bare := by
  rw [enable]
  split <;> rfl

variable {m}

theorem wellFormed_bare (hm : m.WellFormed) : m.bare.WellFormed := hm

theorem canonical_bare (hm : m.Canonical) : m.bare.Canonical := ⟨hm.types, hm.constants, hm.words⟩

end Module

/-! ## Entering a tree -/

mutual

/-- The number of a written-out type, which is entered together with all that it refers to. -/
def TypeTree.intern : TypeTree → Module → TypeId × Module
  | .node name form ds, m =>
    let (shape, m) := form.intern m
    m.insertType ⟨name, shape, ds⟩

/-- The shape of a written-out form. -/
def TreeForm.intern : TreeForm → Module → Shape × Module
  | .void, m => (.void, m)
  | .scalar s, m => (.scalar s, m)
  | .vector size s, m => (.vector size s, m)
  | .matrix column columns, m =>
    let (column, m) := column.intern m
    (.matrix column columns, m)
  | .array elem n, m =>
    let (elem, m) := elem.intern m
    let (length, m) := m.constant n
    (.array elem length, m)
  | .runtimeArray elem, m =>
    let (elem, m) := elem.intern m
    (.runtimeArray elem, m)
  | .struct members, m =>
    let (members, m) := members.intern m
    (.struct members, m)
  | .image sample dim arrayed multisampled sampled format depth, m =>
    let (sample, m) := sample.intern m
    (.image ⟨sample, dim, arrayed, multisampled, sampled, format, depth⟩, m)
  | .sampler, m => (.sampler, m)
  | .pointer target storage, m =>
    let (target, m) := target.intern m
    (.pointer target storage, m)

/-- The members of a written-out structure. -/
def TreeMembers.intern : TreeMembers → Module → List Member × Module
  | .nil, m => ([], m)
  | .cons name ty rest, m =>
    let (ty, m) := ty.intern m
    let (rest, m) := rest.intern m
    (⟨name, ty⟩ :: rest, m)

end

/-! ## What is there already -/

namespace Module

variable {m : Module}

theorem constant_of_constantValue? (hm : m.Canonical) {c : ConstantId} {n : Nat}
    (h : m.constantValue? c = some n) : m.constant n = (c, m) := by
  obtain ⟨k, hk, rfl⟩ := Option.map_eq_some_iff.1 h
  have hword : m.scalarType .uint32 = (k.ty, m) := by
    rw [scalarType, plainType, insertType,
      Interned.insert_of_get? hm.types (hm.words k (List.mem_of_getElem? hk))]
  rw [constant, hword]
  dsimp only
  rw [Interned.insert_of_get? hm.constants hk]

mutual

/-- A type that is in the tables already is entered by finding it. -/
theorem intern_of_tree? (hw : m.WellFormed) (hm : m.Canonical) :
    (tree : TypeTree) → {id : TypeId} → m.tree? id = some tree → tree.intern m = (id, m)
  | .node name form ds, id, h => by
    obtain ⟨t, ht⟩ : ∃ t, m.types.get? id = some t :=
      ⟨_, List.getElem?_eq_getElem (lt_of_tree? h)⟩
    rw [tree?_of_get? hw ht, TypeEntry.tree?, Option.map_eq_some_iff] at h
    obtain ⟨f, hf, hsame⟩ := h
    obtain ⟨name', shape, ds'⟩ := t
    obtain ⟨rfl, rfl, rfl⟩ := TypeTree.node.inj hsame
    rw [TypeTree.intern, internForm_of_form? hw hm f hf]
    dsimp only
    rw [insertType, Interned.insert_of_get? hm.types ht]

theorem internForm_of_form? (hw : m.WellFormed) (hm : m.Canonical) :
    (form : TreeForm) → {shape : Shape} →
    shape.form? m.constantValue? m.tree? = some form → form.intern m = (shape, m)
  | .void, shape, h | .scalar _, shape, h | .vector _ _, shape, h | .sampler, shape, h => by
    cases shape <;> simp [Shape.form?, Option.bind_eq_some_iff] at h
    simp [TreeForm.intern, h]
  | .matrix column columns, shape, h => by
    cases shape <;> simp [Shape.form?, Option.bind_eq_some_iff] at h
    obtain ⟨hcolumn, rfl⟩ := h
    rw [TreeForm.intern, intern_of_tree? hw hm column hcolumn]
  | .array elem n, shape, h => by
    cases shape <;> simp [Shape.form?, Option.bind_eq_some_iff] at h
    obtain ⟨helem, hn⟩ := h
    rw [TreeForm.intern, intern_of_tree? hw hm elem helem]
    dsimp only
    rw [constant_of_constantValue? hm hn]
  | .runtimeArray elem, shape, h => by
    cases shape <;> simp [Shape.form?, Option.bind_eq_some_iff] at h
    rw [TreeForm.intern, intern_of_tree? hw hm elem h]
  | .struct members, shape, h => by
    cases shape <;> simp [Shape.form?, Option.bind_eq_some_iff] at h
    rw [TreeForm.intern, internMembers_of_ofMembers? hw hm members h]
  | .image sample dim arrayed multisampled sampled format depth, shape, h => by
    cases shape <;> simp [Shape.form?, Option.bind_eq_some_iff] at h
    obtain ⟨hsample, rfl, rfl, rfl, rfl, rfl, rfl⟩ := h
    rw [TreeForm.intern, intern_of_tree? hw hm sample hsample]
  | .pointer target storage, shape, h => by
    cases shape <;> simp [Shape.form?, Option.bind_eq_some_iff] at h
    obtain ⟨htarget, rfl⟩ := h
    rw [TreeForm.intern, intern_of_tree? hw hm target htarget]

theorem internMembers_of_ofMembers? (hw : m.WellFormed) (hm : m.Canonical) :
    (members : TreeMembers) → {ms : List Member} →
    TreeMembers.ofMembers? m.tree? ms = some members → members.intern m = (ms, m)
  | .nil, ms, h => by
    cases ms with
    | nil => rfl
    | cons member rest => simp [TreeMembers.ofMembers?, Option.bind_eq_some_iff] at h
  | .cons name ty rest, ms, h => by
    cases ms with
    | nil => simp [TreeMembers.ofMembers?] at h
    | cons member others =>
      simp only [TreeMembers.ofMembers?, Option.bind_eq_some_iff, Option.map_eq_some_iff] at h
      obtain ⟨ty', hty, rest', hrest, hsame⟩ := h
      obtain ⟨rfl, rfl, rfl⟩ := TreeMembers.cons.inj hsame
      rw [TreeMembers.intern, intern_of_tree? hw hm ty' hty]
      dsimp only
      rw [internMembers_of_ofMembers? hw hm rest' hrest]

end

end Module

end ShaderLowering.Spirv
