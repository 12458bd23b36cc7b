import ShaderLowering.Proofs.Spirv.Extension
import ShaderLowering.Proofs.Spirv.TypeTree

/-!
# Closed modules

Types name constants for the lengths of arrays, and constants and variables name types.  In a closed
module all that is named is there.  Together with `Module.WellFormed`, which is about the types that
types refer to, this says that no number in a module is dangling.

Each operation keeps a module closed, provided that what it adds refers to what is there already.
-/

namespace ShaderLowering.Spirv

/-- The constants that a shape refers to. -/
def Shape.lengths : Shape → List ConstantId
  | .array _ length => [length]
  | _ => []

namespace Module

/-- Whether the lengths of all arrays and the types of all constants and variables are there. -/
structure Closed (m : Module) : Prop where
  lengths : ∀ t ∈ m.types.entries, ∀ c ∈ t.shape.lengths, c < m.constants.size
  constants : ∀ k ∈ m.constants.entries, k.ty < m.types.size
  «variables» : ∀ v ∈ m.variables.entries, v.ty < m.types.size

end Module

/-! ## Tables -/

namespace Interned

variable {α : Type}

theorem size_le_of_prefix {t t' : Interned α} (h : t.entries <+: t'.entries) : t.size ≤ t'.size :=
  h.length_le

theorem lt_size_of_get? {t : Interned α} {i : Nat} {a : α} (h : t.get? i = some a) : i < t.size :=
  (List.getElem?_eq_some_iff.1 h).1

end Interned

/-- The lengths of an entry that has a tree have values. -/
theorem TypeEntry.isSome_length_of_tree? {length : ConstantId → Option Nat}
    {part : TypeId → Option TypeTree} {t : TypeEntry} {tree : TypeTree}
    (h : t.tree? length part = some tree) : ∀ c ∈ t.shape.lengths, (length c).isSome := by
  obtain ⟨form, hform, -⟩ := Option.map_eq_some_iff.1 h
  intro c hc
  cases hs : t.shape with
  | array elem n =>
    rw [hs, Shape.lengths, List.mem_singleton] at hc
    rw [hs, Shape.form?] at hform
    obtain ⟨elem, -, hform⟩ := Option.bind_eq_some_iff.1 hform
    obtain ⟨n, hn, -⟩ := Option.map_eq_some_iff.1 hform
    rw [hc, hn]
    rfl
  | _ =>
    rw [hs] at hc
    cases hc

namespace Module

variable {m m' : Module}

theorem lt_of_constantValue? {c : ConstantId} (h : (m.constantValue? c).isSome) :
    c < m.constants.size := by
  rw [constantValue?, Option.isSome_map] at h
  obtain ⟨k, hk⟩ := Option.isSome_iff_exists.1 h
  exact Interned.lt_size_of_get? hk

theorem Extends.lt_types (h : m.Extends m') {id : TypeId} (hid : id < m.types.size) :
    id < m'.types.size :=
  Nat.lt_of_lt_of_le hid (Interned.size_le_of_prefix h.types)

/-! ## Operations -/

theorem closed_empty : (({} : Module).require .shader).Closed := by
  constructor <;> intro _ h <;> cases h

theorem closed_insertType (hm : m.Closed) {t : TypeEntry}
    (ht : ∀ c ∈ t.shape.lengths, c < m.constants.size) : (m.insertType t).2.Closed := by
  have hsize := Interned.size_le_of_prefix (m.types.prefix_insert t)
  constructor
  · intro u hu
    rcases Interned.mem_insert hu with rfl | hu
    · exact ht
    · exact hm.lengths u hu
  · intro k hk
    exact Nat.lt_of_lt_of_le (hm.constants k hk) hsize
  · intro v hv
    exact Nat.lt_of_lt_of_le (hm.variables v hv) hsize

/-- The type of a constant is added with it. -/
theorem closed_constant (hm : m.Closed) (n : Nat) : (m.constant n).2.Closed := by
  have hword : (m.insertType ⟨none, .scalar .uint32, []⟩).2.Closed :=
    closed_insertType hm (by intro c hc; cases hc)
  have hsize := Interned.size_le_of_prefix
    (m.constants.prefix_insert ⟨(m.insertType ⟨none, .scalar .uint32, []⟩).1, n⟩)
  constructor
  · intro u hu c hc
    exact Nat.lt_of_lt_of_le (hword.lengths u hu c hc) hsize
  · intro k hk
    rcases Interned.mem_insert hk with rfl | hk
    · exact Interned.lt_size_of_get? (m.types.get?_insert _)
    · exact hword.constants k hk
  · exact hword.variables

theorem closed_require (hm : m.Closed) (c : Capability) : (m.require c).Closed := by
  rw [require]
  split
  · exact hm
  · exact ⟨hm.lengths, hm.constants, hm.variables⟩

theorem closed_enable (hm : m.Closed) (x : Extension) : (m.enable x).Closed := by
  rw [enable]
  split
  · exact hm
  · exact ⟨hm.lengths, hm.constants, hm.variables⟩

theorem closed_addVariable (hm : m.Closed) {v : Variable} (hv : v.ty < m.types.size) :
    (m.addVariable v).2.Closed := by
  refine ⟨hm.lengths, hm.constants, fun u hu => ?_⟩
  rcases List.mem_append.1 hu with hu | hu
  · exact hm.variables u hu
  · exact List.mem_singleton.1 hu ▸ hv

/-- A decoration does not change the type of a variable. -/
theorem closed_decorate (hm : m.Closed) {id : VariableId} {d : VariableDecoration}
    (h : m.decorate id d = .ok m') : m'.Closed := by
  rw [decorate] at h
  split at h
  · cases h
    refine ⟨hm.lengths, hm.constants, fun v hv => ?_⟩
    obtain ⟨i, hi⟩ := List.mem_iff_getElem?.1 hv
    rw [Table.modify, List.getElem?_modify] at hi
    obtain ⟨u, hu, rfl⟩ := Option.map_eq_some_iff.1 hi
    have hty := hm.variables u (List.mem_of_getElem? hu)
    split
    · exact hty
    · exact hty
  · cases h

end Module

end ShaderLowering.Spirv
