import ShaderLowering.Proofs.Spirv.TypeTree

/-!
# Extension of a module

What holds for every operation of a module, those on variables included: nothing is taken away, and
a variable may gain decorations but stays otherwise as it is.
-/

namespace ShaderLowering.Spirv

namespace Variable

/-- The variable with further decorations. -/
def gaining (v : Variable) (ds : List VariableDecoration) : Variable :=
  { v with decorations := v.decorations ++ ds }

theorem gaining_nil (v : Variable) : v.gaining [] = v := by
  rw [gaining, List.append_nil]

theorem gaining_gaining (v : Variable) (ds ds' : List VariableDecoration) :
    (v.gaining ds).gaining ds' = v.gaining (ds ++ ds') := by
  simp only [gaining, List.append_assoc]

/-- The second variable is the first one, perhaps with further decorations. -/
def Gains (v v' : Variable) : Prop := ∃ more, v' = v.gaining more

theorem Gains.refl (v : Variable) : v.Gains v := ⟨[], v.gaining_nil.symm⟩

theorem Gains.trans {v v' v'' : Variable} (h : v.Gains v') (h' : v'.Gains v'') :
    v.Gains v'' := by
  obtain ⟨more, rfl⟩ := h
  obtain ⟨more', rfl⟩ := h'
  exact ⟨more ++ more', v.gaining_gaining more more'⟩

end Variable

namespace Module

/-- The second module has all that the first one has. -/
structure Extends (m m' : Module) : Prop where
  types : m.types.entries <+: m'.types.entries
  constants : m.constants.entries <+: m'.constants.entries
  kept : ∀ id v, m.variables.get? id = some v → ∃ v', m'.variables.get? id = some v' ∧ v.Gains v'
  capabilities : m.capabilities ⊆ m'.capabilities
  extensions : m.extensions ⊆ m'.extensions

variable {m m' m'' : Module}

theorem Grows.extends (h : m.Grows m') : m.Extends m' where
  types := h.types
  constants := h.constants
  kept _ v hv := ⟨v, h.sameVariables ▸ hv, .refl v⟩
  capabilities := h.capabilities
  extensions := h.extensions

theorem Extends.refl (m : Module) : m.Extends m := (Grows.refl m).extends

theorem Extends.trans (h : m.Extends m') (h' : m'.Extends m'') : m.Extends m'' where
  types := h.types.trans h'.types
  constants := h.constants.trans h'.constants
  kept id v hv := by
    obtain ⟨v', hv', hgains⟩ := h.kept id v hv
    obtain ⟨v'', hv'', hgains'⟩ := h'.kept id v' hv'
    exact ⟨v'', hv'', hgains.trans hgains'⟩
  capabilities := List.Subset.trans h.capabilities h'.capabilities
  extensions := List.Subset.trans h.extensions h'.extensions

/-- A type keeps its tree. -/
theorem Extends.tree? (h : m.Extends m') {id : TypeId} {t : TypeTree} (ht : m.tree? id = some t) :
    m'.tree? id = some t :=
  tree?_of_prefix h.types h.constants ht

/-- Every old variable has a place in the extended module. -/
theorem Extends.size_le (h : m.Extends m') : m.variables.size ≤ m'.variables.size := by
  refine Nat.le_of_not_lt fun hlast => ?_
  obtain ⟨v', hv', -⟩ := h.kept _ _ (List.getElem?_eq_getElem hlast)
  exact absurd (List.getElem?_eq_some_iff.1 hv').1 (Nat.lt_irrefl _)

theorem extends_addVariable (m : Module) (v : Variable) : m.Extends (m.addVariable v).2 :=
  { Extends.refl m with
    kept := fun id u hu => by
      have hid : id < m.variables.size := (List.getElem?_eq_some_iff.1 hu).1
      refine ⟨u, ?_, .refl u⟩
      rw [addVariable, Table.get?_push, if_neg (Nat.ne_of_lt hid)]
      exact hu }

theorem extends_decorate {id : VariableId} {d : VariableDecoration} (h : m.decorate id d = .ok m') :
    m.Extends m' := by
  rw [decorate] at h
  split at h
  · cases h
    refine { Extends.refl m with kept := fun i v hv => ?_ }
    rw [Table.get?_modify]
    split
    · exact ⟨_, by rw [hv]; rfl, ⟨[d], rfl⟩⟩
    · exact ⟨v, hv, .refl v⟩
  · cases h

end Module

end ShaderLowering.Spirv
