import ShaderLowering.Proofs.Spirv.TypeTree

/-!
# Types with equal trees

In a well-formed module that holds every entry once, a type is known by its tree: two numbers with
the same tree are one number (`Module.tree?_inj`).  Entries are compared from the leaves up, since
the parts of an entry come before it: if the parts with equal trees are the same, an entry is
determined by its tree, and the table holds it once.
-/

namespace ShaderLowering.Spirv

section

variable {length : ConstantId → Option Nat} {part : TypeId → Option TypeTree}

theorem TreeMembers.ofMembers?_inj {ms ms' : List Member} {ts : TreeMembers}
    (hp : ∀ m ∈ ms, ∀ p t, part m.ty = some t → part p = some t → m.ty = p)
    (h : TreeMembers.ofMembers? part ms = some ts)
    (h' : TreeMembers.ofMembers? part ms' = some ts) : ms = ms' := by
  induction ms generalizing ms' ts with
  | nil =>
    cases h
    cases ms' with
    | nil => rfl
    | cons m' rest' => simp [ofMembers?, Option.bind_eq_some_iff] at h'
  | cons m rest ih =>
    simp only [ofMembers?, Option.bind_eq_some_iff, Option.map_eq_some_iff] at h
    obtain ⟨t, ht, us, hus, rfl⟩ := h
    cases ms' with
    | nil => simp [ofMembers?] at h'
    | cons m' rest' =>
      simp only [ofMembers?, Option.bind_eq_some_iff, Option.map_eq_some_iff,
        TreeMembers.cons.injEq] at h'
      obtain ⟨t', ht', us', hus', hname, rfl, rfl⟩ := h'
      have hty : m.ty = m'.ty := hp m (by simp) m'.ty _ ht ht'
      have hrest : rest = rest' := ih (fun n hn => hp n (by simp [hn])) hus hus'
      obtain ⟨name, ty⟩ := m
      obtain ⟨name', ty'⟩ := m'
      cases hname
      cases hty
      rw [hrest]

/-- A shape is determined by what it is written out to, if parts and lengths are. -/
theorem Shape.form?_inj {s s' : Shape} {f : TreeForm}
    (hl : ∀ c c' n, length c = some n → length c' = some n → c = c')
    (hp : ∀ p ∈ s.parts, ∀ p' t, part p = some t → part p' = some t → p = p')
    (h : s.form? length part = some f) (h' : s'.form? length part = some f) : s = s' := by
  -- equal forms come from the same constructor; then the shapes agree part by part
  cases s with
  | void | scalar | vector | sampler =>
    cases h
    cases s' <;> simp [form?, Option.bind_eq_some_iff] at h'
    all_goals simp [h']
  | matrix p n =>
    simp only [form?, Option.map_eq_some_iff] at h
    obtain ⟨t, ht, rfl⟩ := h
    cases s' <;> simp [form?, Option.bind_eq_some_iff] at h'
    obtain ⟨ht', rfl⟩ := h'
    rw [hp p (by simp [parts]) _ t ht ht']
  | runtimeArray p =>
    simp only [form?, Option.map_eq_some_iff] at h
    obtain ⟨t, ht, rfl⟩ := h
    cases s' <;> simp [form?, Option.bind_eq_some_iff] at h'
    rw [hp p (by simp [parts]) _ t ht h']
  | pointer p n =>
    simp only [form?, Option.map_eq_some_iff] at h
    obtain ⟨t, ht, rfl⟩ := h
    cases s' <;> simp [form?, Option.bind_eq_some_iff] at h'
    obtain ⟨ht', rfl⟩ := h'
    rw [hp p (by simp [parts]) _ t ht ht']
  | image i =>
    simp only [form?, Option.map_eq_some_iff] at h
    obtain ⟨t, ht, rfl⟩ := h
    cases s' <;> simp [form?, Option.bind_eq_some_iff] at h'
    rename_i i'
    obtain ⟨ht', hsame⟩ := h'
    have hsampled : i.sampledType = i'.sampledType := hp _ (by simp [parts]) _ t ht ht'
    obtain ⟨sampledType, _⟩ := i
    obtain ⟨sampledType', _⟩ := i'
    simp_all
  | array p c =>
    simp only [form?, Option.bind_eq_some_iff, Option.map_eq_some_iff] at h
    obtain ⟨t, ht, n, hn, rfl⟩ := h
    cases s' <;> simp [form?, Option.bind_eq_some_iff] at h'
    obtain ⟨ht', hn'⟩ := h'
    rw [hp p (by simp [parts]) _ t ht ht', hl c _ n hn hn']
  | struct ms =>
    simp only [form?, Option.map_eq_some_iff] at h
    obtain ⟨ts, hts, rfl⟩ := h
    cases s' <;> simp [form?, Option.bind_eq_some_iff] at h'
    refine congrArg Shape.struct (TreeMembers.ofMembers?_inj (fun m hm => ?_) hts h')
    exact hp m.ty (List.mem_map_of_mem hm)

theorem TypeEntry.tree?_inj {t t' : TypeEntry} {tree : TypeTree}
    (hl : ∀ c c' n, length c = some n → length c' = some n → c = c')
    (hp : ∀ p ∈ t.shape.parts, ∀ p' u, part p = some u → part p' = some u → p = p')
    (h : t.tree? length part = some tree) (h' : t'.tree? length part = some tree) : t = t' := by
  simp only [tree?, Option.map_eq_some_iff] at h h'
  obtain ⟨f, hf, rfl⟩ := h
  obtain ⟨f', hf', hsame⟩ := h'
  obtain ⟨name, shape, decorations⟩ := t
  obtain ⟨name', shape', decorations'⟩ := t'
  cases hsame
  have hshape : shape = shape' := Shape.form?_inj hl hp hf hf'
  rw [hshape]

end

namespace Module

variable {m : Module}

/-- A constant is known by its value. -/
theorem constantValue?_inj (hm : m.Canonical) {c c' : ConstantId} {n : Nat}
    (h : m.constantValue? c = some n) (h' : m.constantValue? c' = some n) : c = c' := by
  obtain ⟨k, hk, rfl⟩ := Option.map_eq_some_iff.1 h
  obtain ⟨k', hk', hvalue⟩ := Option.map_eq_some_iff.1 h'
  have hword := hm.words k (List.mem_of_getElem? hk)
  have hword' := hm.words k' (List.mem_of_getElem? hk')
  have hsame : k = k' := by
    obtain ⟨ty, value⟩ := k
    obtain ⟨ty', value'⟩ := k'
    cases hvalue
    have hty : ty = ty' := Interned.get?_inj hm.types hword hword'
    rw [hty]
  exact Interned.get?_inj hm.constants hk (hsame ▸ hk')

/-- **A type is known by its tree.** -/
theorem tree?_inj (hw : m.WellFormed) (hm : m.Canonical) {i j : TypeId} {tree : TypeTree}
    (hi : m.tree? i = some tree) (hj : m.tree? j = some tree) : i = j := by
  -- the parts of an entry come before it, so they are compared first
  induction i using Nat.strongRecOn generalizing j tree with
  | ind i ih =>
    obtain ⟨t, ht⟩ : ∃ t, m.types.get? i = some t :=
      ⟨_, List.getElem?_eq_getElem (lt_of_tree? hi)⟩
    obtain ⟨u, hu⟩ : ∃ u, m.types.get? j = some u :=
      ⟨_, List.getElem?_eq_getElem (lt_of_tree? hj)⟩
    rw [tree?_of_get? hw ht] at hi
    rw [tree?_of_get? hw hu] at hj
    have hsame : t = u := TypeEntry.tree?_inj (fun _ _ _ => constantValue?_inj hm)
      (fun p hp _ _ => ih p (hw i t ht p hp)) hi hj
    exact Interned.get?_inj hm.types ht (hsame ▸ hu)

end Module

end ShaderLowering.Spirv
