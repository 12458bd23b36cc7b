import ShaderLowering.Spirv.Module

/-!
# Growth of a module

Types, constants and requirements are only ever added.  `Module.Grows` is the part of this that
holds for everything but the operations on variables, which it says are left alone.

What is added twice is there once: `Module.Canonical` says that no table holds an entry twice, and
a module stays canonical while it grows.
-/

namespace ShaderLowering.Spirv.Module

/-- Equal entries of a table have the same number, and all constants are unsigned words. -/
structure Canonical (m : Module) : Prop where
  types : m.types.entries.Nodup
  constants : m.constants.entries.Nodup
  words : ∀ k ∈ m.constants.entries, m.types.get? k.ty = some ⟨none, .scalar .uint32, []⟩

/-- The second module has all that the first one has, and the same variables. -/
structure Grows (m m' : Module) : Prop where
  types : m.types.entries <+: m'.types.entries
  constants : m.constants.entries <+: m'.constants.entries
  sameVariables : m'.variables = m.variables
  capabilities : m.capabilities ⊆ m'.capabilities
  extensions : m.extensions ⊆ m'.extensions
  canonical : m.Canonical → m'.Canonical

variable {m m' m'' : Module}

theorem Grows.refl (m : Module) : m.Grows m :=
  ⟨List.prefix_refl _, List.prefix_refl _, rfl, List.Subset.refl _, List.Subset.refl _, id⟩

theorem Grows.trans (h : m.Grows m') (h' : m'.Grows m'') : m.Grows m'' where
  types := h.types.trans h'.types
  constants := h.constants.trans h'.constants
  sameVariables := h'.sameVariables.trans h.sameVariables
  capabilities := List.Subset.trans h.capabilities h'.capabilities
  extensions := List.Subset.trans h.extensions h'.extensions
  canonical hm := h'.canonical (h.canonical hm)

/-! ## Canonical modules -/

theorem canonical_insertType (hm : m.Canonical) (t : TypeEntry) :
    (m.insertType t).2.Canonical where
  types := m.types.nodup_insert hm.types t
  constants := hm.constants
  words k hk := Interned.get?_of_prefix (m.types.prefix_insert t) (hm.words k hk)

theorem canonical_constant (hm : m.Canonical) (value : Nat) : (m.constant value).2.Canonical := by
  have hword := canonical_insertType hm ⟨none, .scalar .uint32, []⟩
  refine ⟨hword.types, Interned.nodup_insert hword.constants _, fun k hk => ?_⟩
  rcases Interned.mem_insert hk with rfl | hk
  · exact m.types.get?_insert _
  · exact hword.words k hk

/-! ## Growth by one operation -/

theorem grows_insertType (m : Module) (t : TypeEntry) : m.Grows (m.insertType t).2 :=
  { Grows.refl m with
    types := m.types.prefix_insert t
    canonical := fun hm => canonical_insertType hm t }

theorem grows_constant (m : Module) (value : Nat) : m.Grows (m.constant value).2 where
  types := m.types.prefix_insert _
  constants := m.constants.prefix_insert _
  sameVariables := rfl
  capabilities := List.Subset.refl _
  extensions := List.Subset.refl _
  canonical hm := canonical_constant hm value

theorem grows_require (m : Module) (c : Capability) : m.Grows (m.require c) := by
  rw [require]
  split
  · exact .refl m
  · exact { Grows.refl m with
      capabilities := List.subset_append_left _ _
      canonical := fun hm => ⟨hm.types, hm.constants, hm.words⟩ }

theorem grows_enable (m : Module) (x : Extension) : m.Grows (m.enable x) := by
  rw [enable]
  split
  · exact .refl m
  · exact { Grows.refl m with
      extensions := List.subset_append_left _ _
      canonical := fun hm => ⟨hm.types, hm.constants, hm.words⟩ }

theorem types_require (m : Module) (c : Capability) : (m.require c).types = m.types := by
  rw [require]
  split <;> rfl

theorem types_enable (m : Module) (x : Extension) : (m.enable x).types = m.types := by
  rw [enable]
  split <;> rfl

end ShaderLowering.Spirv.Module
