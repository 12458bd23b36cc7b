import ShaderLowering.Proofs.Spirv.Closed
import ShaderLowering.Spirv.Listing

/-!
# Listings of well-formed modules

A nameless type is shown by what it consists of, and so are the nameless types in it, and so on.
`Module.Reads` is this reading without any bound on its depth; it is finite by its nature, and gives
a shape one text at most.

In a well-formed module every step leads to an earlier type, so every shape has a reading, and the
bound on the depth is never met: what a listing shows is that reading (`Module.reads_iff`).  In a
closed one no line looks for a type that is missing, so there is a listing
(`Module.Closed.listing`).
-/

namespace ShaderLowering.Spirv

/-- A shape as text, given what stands for the types in it. -/
def Shape.textWith (typeRef : TypeId → String) : Shape → String
  | .void => "void"
  | .scalar s => s.text
  | .vector size s => "vec" ++ toString size.toNat ++ "<" ++ s.text ++ ">"
  | .matrix column columns => "mat" ++ toString columns.toNat ++ "<" ++ typeRef column ++ ">"
  | .array elem length => "array<" ++ typeRef elem ++ ", " ++ handleText length ++ ">"
  | .runtimeArray elem => "array<" ++ typeRef elem ++ ">"
  | .struct members =>
    "struct \x7b " ++ ", ".intercalate (members.map fun member => typeRef member.ty) ++ " \x7d"
  | .image i =>
    "image<" ++ typeRef i.sampledType ++ ", " ++ i.dim.text
      ++ (if i.arrayed then ", arrayed" else "")
      ++ (if i.multisampled then ", ms" else "")
      ++ (if i.sampled = 2 then ", storage " ++ i.format.text else "") ++ ">"
  | .sampler => "sampler"
  | .pointer target storage => "ptr<" ++ storage.text ++ ", " ++ typeRef target ++ ">"

/-- The text of a shape depends on what stands for its parts. -/
theorem Shape.textWith_congr {shape : Shape} {f g : TypeId → String}
    (h : ∀ p ∈ shape.parts, f p = g p) : shape.textWith f = shape.textWith g := by
  cases shape with
  | void | scalar | vector | sampler => rfl
  | matrix p | array p | runtimeArray p | pointer p =>
    rw [textWith, textWith, h p (List.mem_singleton_self p)]
  | image i => rw [textWith, textWith, h i.sampledType (List.mem_singleton_self _)]
  | struct members =>
    have hmembers : (members.map fun member => f member.ty)
        = members.map fun member => g member.ty :=
      List.map_congr_left fun member hmember => h member.ty (List.mem_map_of_mem hmember)
    rw [textWith, textWith, hmembers]

namespace Module

variable {m : Module}

/-- What stands for a type where it is used, with nameless types unfolded up to a depth. -/
def refTextUpTo (m : Module) (depth : Nat) (id : TypeId) : String :=
  match m.types.get? id with
  | some ⟨some name, _, _⟩ => name
  | some ⟨none, inner, _⟩ => m.shapeTextUpTo depth inner
  | none => handleText id

theorem shapeTextUpTo_succ (m : Module) (depth : Nat) (shape : Shape) :
    m.shapeTextUpTo (depth + 1) shape = shape.textWith (m.refTextUpTo depth) := by
  cases shape <;> rfl

/-- A text is what is read for a shape: a type in it is read by its name, or by what it consists of,
or by its number if it is not there. -/
inductive Reads (m : Module) : Shape → String → Prop
  | intro (shape : Shape) (typeRef : TypeId → String) :
    (∀ p ∈ shape.parts, m.types.get? p = none → typeRef p = handleText p) →
    (∀ p ∈ shape.parts, ∀ name inner ds,
      m.types.get? p = some ⟨some name, inner, ds⟩ → typeRef p = name) →
    (∀ p ∈ shape.parts, ∀ inner ds,
      m.types.get? p = some ⟨none, inner, ds⟩ → Reads m inner (typeRef p)) →
    Reads m shape (shape.textWith typeRef)

/-- There is one reading at most. -/
theorem Reads.unique {shape : Shape} {text text' : String} (h : m.Reads shape text)
    (h' : m.Reads shape text') : text = text' := by
  induction h generalizing text' with
  | intro shape typeRef hmissing hnamed _ ih =>
    obtain ⟨_, typeRef', hmissing', hnamed', hnameless'⟩ := h'
    refine Shape.textWith_congr fun p hp => ?_
    rcases ht : m.types.get? p with _ | ⟨_ | name, inner, ds⟩
    · rw [hmissing p hp ht, hmissing' p hp ht]
    · exact ih p hp inner ds ht (hnameless' p hp inner ds ht)
    · rw [hnamed p hp name inner ds ht, hnamed' p hp name inner ds ht]

/-- A shape that refers to early types only is read without going deep. -/
theorem reads_shapeTextUpTo (hm : m.WellFormed) (depth : Nat) {shape : Shape}
    (hparts : ∀ p ∈ shape.parts, p < depth ∨ m.types.size ≤ p) :
    m.Reads shape (m.shapeTextUpTo (depth + 1) shape) := by
  induction depth generalizing shape with
  | zero =>
    -- no part is in the table
    have hnone : ∀ p ∈ shape.parts, m.types.get? p = none := fun p hp =>
      List.getElem?_eq_none ((hparts p hp).resolve_left (Nat.not_lt_zero p))
    rw [shapeTextUpTo_succ]
    refine .intro shape _ (fun p hp ht => ?_) (fun p hp _ _ _ ht => ?_) fun p hp _ _ ht => ?_
    · rw [refTextUpTo, ht]
    all_goals
      rw [hnone p hp] at ht
      cases ht
  | succ depth ih =>
    rw [shapeTextUpTo_succ]
    refine .intro shape _ (fun p hp ht => ?_) (fun p hp _ _ _ ht => ?_) fun p hp inner _ ht => ?_
    · rw [refTextUpTo, ht]
    · rw [refTextUpTo, ht]
    · rw [refTextUpTo, ht]
      have hlt := (hparts p hp).resolve_right (Nat.not_le.2 (Interned.lt_size_of_get? ht))
      refine ih fun q hq => .inl ?_
      exact Nat.lt_of_lt_of_le (hm p _ ht q hq) (Nat.le_of_lt_succ hlt)

/-- **Reading ends.**  In a well-formed module every shape has exactly one reading, and it is the
one of the listing. -/
theorem reads_iff (hm : m.WellFormed) {shape : Shape} {text : String} :
    m.Reads shape text ↔ text = m.shapeText shape := by
  have hreads : m.Reads shape (m.shapeText shape) :=
    reads_shapeTextUpTo hm m.types.size fun p _ => Nat.lt_or_ge p m.types.size
  constructor
  · exact fun h => h.unique hreads
  · rintro rfl
    exact hreads

/-! ## The listing -/

theorem exists_variableLine {v : Variable} (hv : v.ty < m.types.size) (id : VariableId) :
    ∃ line, m.variableLine id v = .ok line := by
  obtain ⟨t, ht⟩ : ∃ t, m.types.get? v.ty = some t := ⟨_, List.getElem?_eq_getElem hv⟩
  rw [variableLine, Interned.get, ht]
  exact ⟨_, rfl⟩

theorem exists_variableLines (l : List (Variable × VariableId))
    (hl : ∀ p ∈ l, p.1.ty < m.types.size) :
    ∃ lines, (l.mapM fun (v, id) => m.variableLine id v) = .ok lines := by
  induction l with
  | nil => exact ⟨[], rfl⟩
  | cons p rest ih =>
    obtain ⟨v, id⟩ := p
    obtain ⟨line, hline⟩ :=
      exists_variableLine (v := v) (hl (v, id) List.mem_cons_self) id
    obtain ⟨lines, hrest⟩ := ih fun q hq => hl q (List.mem_cons_of_mem _ hq)
    rw [List.mapM_cons, hrest]
    dsimp only
    rw [hline]
    exact ⟨line :: lines, rfl⟩

/-- A closed module has a listing. -/
theorem Closed.listing (hm : m.Closed) : ∃ text, m.listing = .ok text := by
  obtain ⟨lines, hlines⟩ := exists_variableLines m.variables.entries.zipIdx fun p hp =>
    hm.variables p.1 (List.fst_mem_of_mem_zipIdx hp)
  rw [Module.listing, Module.lines, hlines]
  exact ⟨_, rfl⟩

end Module

end ShaderLowering.Spirv
