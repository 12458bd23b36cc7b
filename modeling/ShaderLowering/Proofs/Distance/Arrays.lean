import ShaderLowering.Proofs.Distance.Packing
import ShaderLowering.Proofs.Emission.Variables

/-!
# Recorded distances and their arrays

What is declared in the packings is what the recorded parts ask for, as long as nothing is found
wrong with them (`DistanceArrays.Records`).  An array is created for a direction and kind exactly if
a component is declared for it, and then gives access to every declaration of that direction and
kind (`Emit.distanceArrays_spec`).
-/

namespace ShaderLowering

open Distance (Ascending Declared Packing)
open Source (Ty Position)
open Spirv (Builtin StorageClass TypeId TypeTree VariableId)

/-- The kind, the semantic index and the number of components that a part asks for. -/
def DistanceLeaf.declares? (leaf : DistanceLeaf) : Option (DistanceKind × Nat × Nat) := do
  let semantic ← leaf.semantic.bind (Semantic.ofString? · leaf.position)
  let kind ← semantic.kind.distance?
  let count ← distanceCount? leaf.ty
  return (kind, semantic.index, count)

/-- The kind of distance that a part is, by its semantic. -/
def DistanceLeaf.kind? (leaf : DistanceLeaf) : Option DistanceKind := do
  let semantic ← leaf.semantic.bind (Semantic.ofString? · leaf.position)
  semantic.kind.distance?

/-- A part that is no distance asks for nothing. -/
theorem DistanceLeaf.declares?_eq_none {leaf : DistanceLeaf} (h : leaf.kind? = none) :
    leaf.declares? = none := by
  cases hsemantic : leaf.semantic.bind (Semantic.ofString? · leaf.position) with
  | none => simp [declares?, hsemantic]
  | some semantic =>
    have hkind : semantic.kind.distance? = none := by simpa [kind?, hsemantic] using h
    simp [declares?, hsemantic, hkind]

theorem Direction.storage_inj {d d' : Direction} : d.storage = d'.storage ↔ d = d' := by
  cases d <;> cases d' <;> decide

theorem DistanceKind.builtin_inj {kind kind' : DistanceKind} :
    kind.builtin = kind'.builtin ↔ kind = kind' := by
  cases kind <;> cases kind' <;> decide

namespace DistanceArrays

variable {a a' a'' : DistanceArrays} {direction : Direction} {kind : DistanceKind}

theorem get_set_eq (a : DistanceArrays) (direction : Direction) (kind : DistanceKind) (p : Packing)
    (d : Direction) (k : DistanceKind) :
    (a.set direction kind p).get d k = if (direction, kind) = (d, k) then p else a.get d k := by
  split
  · rename_i hkey
    cases hkey
    exact a.get_set direction kind p
  · rename_i hkey
    exact a.get_set_of_ne p hkey

/-- What holds of the new packing and of all others holds of all. -/
theorem forall_get_set {P : Direction → DistanceKind → Packing → Prop} {p : Packing}
    (hnew : P direction kind p)
    (hold : ∀ d k, (direction, kind) ≠ (d, k) → P d k (a.get d k)) :
    ∀ d k, P d k ((a.set direction kind p).get d k) := by
  intro d k
  rw [get_set_eq]
  split
  · rename_i hkey
    cases hkey
    exact hnew
  · rename_i hkey
    exact hold d k hkey

theorem mem_keys (direction : Direction) (kind : DistanceKind) : (direction, kind) ∈ keys := by
  cases direction <;> cases kind <;> decide

/-! ## Recording -/

/-- How a part is recorded: it is no distance, or no floating-point one, or asks for an index that
is new, or for one that is declared already. -/
theorem recordLeaf_cases (a : DistanceArrays) (direction : Direction) (leaf : DistanceLeaf) :
    (leaf.kind? = none ∧ a.recordLeaf direction leaf = .ok a) ∨
    (leaf.kind? ≠ none ∧ leaf.declares? = none ∧ ∃ f, a.recordLeaf direction leaf = .error f) ∨
    ∃ kind index count, leaf.kind? ≠ none ∧ leaf.declares? = some (kind, index, count) ∧
      distanceCount? leaf.ty = some count ∧
      ((a.get direction kind).declared.lookup index = none ∧ a.recordLeaf direction leaf =
          .ok (a.set direction kind ((a.get direction kind).declare index ⟨leaf.ty, count⟩)) ∨
        ∃ old, (a.get direction kind).declared.lookup index = some old ∧
          (old.ty = leaf.ty ∧ a.recordLeaf direction leaf = .ok a ∨
            old.ty ≠ leaf.ty ∧ ∃ f, a.recordLeaf direction leaf = .error f)) := by
  rw [recordLeaf]
  split
  · rename_i hsemantic
    exact .inl ⟨by simp [DistanceLeaf.kind?, hsemantic], rfl⟩
  rename_i semantic hsemantic
  split
  · rename_i hkind
    exact .inl ⟨by simp [DistanceLeaf.kind?, hsemantic, hkind], rfl⟩
  rename_i kind hkind
  have hsome : leaf.kind? ≠ none := by simp [DistanceLeaf.kind?, hsemantic, hkind]
  split
  · rename_i hcount
    exact .inr (.inl ⟨hsome, by simp [DistanceLeaf.declares?, hsemantic, hcount], _, rfl⟩)
  rename_i count hcount
  refine .inr (.inr ⟨kind, semantic.index, count, hsome,
    by simp [DistanceLeaf.declares?, hsemantic, hkind, hcount], hcount, ?_⟩)
  dsimp only
  split
  · rename_i hnew
    exact .inl ⟨hnew, rfl⟩
  · rename_i old hold
    refine .inr ⟨old, hold, ?_⟩
    split
    · rename_i hty
      exact .inl ⟨hty, rfl⟩
    · rename_i hty
      exact .inr ⟨hty, _, rfl⟩

/-- Declarations are in order, and are counted as their types say. -/
structure WellFormed (a : DistanceArrays) : Prop where
  ascending : ∀ direction kind, Ascending (a.get direction kind).declared
  counted : ∀ direction kind, ∀ x ∈ (a.get direction kind).declared,
    distanceCount? x.2.ty = some x.2.count

/-- What is declared with a type has its number of components. -/
theorem WellFormed.mem_of_lookup (ha : a.WellFormed) {index count : Nat} {old : Declared} {ty : Ty}
    (hold : (a.get direction kind).declared.lookup index = some old) (hty : old.ty = ty)
    (hcount : distanceCount? ty = some count) :
    (index, ⟨ty, count⟩) ∈ (a.get direction kind).declared := by
  have hmem := (ha.ascending direction kind).lookup_eq_some_iff.1 hold
  have hcount' := ha.counted direction kind _ hmem
  rw [hty, hcount] at hcount'
  cases old
  cases hty
  cases hcount'
  exact hmem

/-- The second packings declare what the first do and what the parts ask for besides. -/
structure Records (a a' : DistanceArrays) (leaves : List (Direction × DistanceLeaf)) : Prop where
  wellFormed : a'.WellFormed
  var : ∀ direction kind, (a'.get direction kind).var = (a.get direction kind).var
  declares : ∀ direction kind index count, (a'.get direction kind).Declares index count ↔
    (a.get direction kind).Declares index count ∨
      ∃ leaf, (direction, leaf) ∈ leaves ∧ leaf.declares? = some (kind, index, count)

theorem wellFormed_empty : WellFormed {} := by
  constructor <;> intro direction kind <;> cases direction <;> cases kind <;>
    simp [get, Ascending]

theorem not_declares_empty {index count : Nat} :
    ¬(get {} direction kind).Declares index count := by
  rintro ⟨ty, h⟩
  cases direction <;> cases kind <;> cases h

theorem var_empty : (get {} direction kind).var = none := by
  cases direction <;> cases kind <;> rfl

theorem Records.refl (ha : a.WellFormed) : a.Records a [] := ⟨ha, by simp, by simp⟩

theorem Records.trans {l l' : List (Direction × DistanceLeaf)} (h : a.Records a' l)
    (h' : a'.Records a'' l') : a.Records a'' (l ++ l') where
  wellFormed := h'.wellFormed
  var direction kind := (h'.var direction kind).trans (h.var direction kind)
  declares direction kind index count := by
    rw [h'.declares, h.declares, or_assoc]
    simp only [List.mem_append, or_and_right, exists_or]

/-- A part that asks for nothing, or for what is declared already. -/
theorem Records.same {leaf : DistanceLeaf} (ha : a.WellFormed)
    (h : ∀ kind index count, leaf.declares? = some (kind, index, count) →
      (a.get direction kind).Declares index count) : a.Records a [(direction, leaf)] := by
  refine ⟨ha, fun _ _ => rfl, fun d kind index count => ?_⟩
  simp only [List.mem_singleton, Prod.mk.injEq]
  constructor
  · exact .inl
  · rintro (hdeclared | ⟨_, ⟨rfl, rfl⟩, hleaf⟩)
    · exact hdeclared
    · exact h kind index count hleaf

/-- A part that asks for a new index. -/
theorem Records.declare {leaf : DistanceLeaf} {index count : Nat} (ha : a.WellFormed)
    (hleaf : leaf.declares? = some (kind, index, count))
    (hcount : distanceCount? leaf.ty = some count)
    (hnew : (a.get direction kind).declared.lookup index = none) :
    a.Records (a.set direction kind ((a.get direction kind).declare index ⟨leaf.ty, count⟩))
      [(direction, leaf)] := by
  refine ⟨⟨fun d k => ?_, fun d k => ?_⟩, fun d k => ?_, fun d k i c => ?_⟩ <;>
    rw [get_set_eq] <;> split
  case refine_1.isTrue => exact (ha.ascending direction kind).insertSorted hnew _
  case refine_1.isFalse => exact ha.ascending d k
  case refine_2.isTrue =>
    intro x hx
    rcases Distance.mem_insertSorted.1 hx with rfl | hx
    · exact hcount
    · exact ha.counted direction kind x hx
  case refine_2.isFalse => exact ha.counted d k
  case refine_3.isTrue h =>
    cases h
    rfl
  case refine_3.isFalse => rfl
  case refine_4.isTrue h =>
    cases h
    rw [Packing.declares_declare]
    simp [hleaf, eq_comm]
  case refine_4.isFalse h =>
    constructor
    · exact .inl
    · rintro (hdeclared | ⟨_, hmem, hleaf'⟩)
      · exact hdeclared
      · cases List.mem_singleton.1 hmem
        rw [hleaf] at hleaf'
        cases hleaf'
        exact absurd rfl h

/-! ### Whatever is found wrong -/

/-- The second packings differ from the first ones in further declarations. -/
def DeclaresMore (a a' : DistanceArrays) : Prop :=
  ∀ direction kind, ∃ declared, (a.get direction kind).declared ⊆ declared ∧
    a'.get direction kind = { a.get direction kind with declared }

theorem DeclaresMore.refl (a : DistanceArrays) : a.DeclaresMore a :=
  fun direction kind => ⟨(a.get direction kind).declared, List.Subset.refl _, rfl⟩

theorem DeclaresMore.trans (h : a.DeclaresMore a') (h' : a'.DeclaresMore a'') :
    a.DeclaresMore a'' := by
  intro direction kind
  obtain ⟨declared, hsubset, hget⟩ := h direction kind
  obtain ⟨declared', hsubset', hget'⟩ := h' direction kind
  rw [hget] at hsubset' hget'
  exact ⟨declared', List.Subset.trans hsubset hsubset', hget'⟩

theorem declaresMore_declare (a : DistanceArrays) (direction : Direction) (kind : DistanceKind)
    (index : Nat) (d : Declared) :
    a.DeclaresMore (a.set direction kind ((a.get direction kind).declare index d)) :=
  forall_get_set (P := fun direction kind p => ∃ declared,
      (a.get direction kind).declared ⊆ declared ∧ p = { a.get direction kind with declared })
    ⟨_, fun _ hx => Distance.mem_insertSorted.2 (.inr hx), rfl⟩
    fun direction' kind' _ => DeclaresMore.refl a direction' kind'

/-- A part that nothing is wrong with changes nothing, or declares an index that is new. -/
theorem recordLeaf_eq_ok {leaf : DistanceLeaf} (h : a.recordLeaf direction leaf = .ok a') :
    a' = a ∨ ∃ kind index count, leaf.declares? = some (kind, index, count) ∧
      distanceCount? leaf.ty = some count ∧
      (a.get direction kind).declared.lookup index = none ∧
      a' = a.set direction kind ((a.get direction kind).declare index ⟨leaf.ty, count⟩) := by
  rcases a.recordLeaf_cases direction leaf with ⟨-, hok⟩ | ⟨-, -, _, herror⟩ |
    ⟨kind, index, count, -, hleaf, hcount, ⟨hnew, hok⟩ | ⟨_, -, ⟨-, hok⟩ | ⟨-, _, herror⟩⟩⟩
  · cases h.symm.trans hok
    exact .inl rfl
  · cases h.symm.trans herror
  · cases h.symm.trans hok
    exact .inr ⟨kind, index, count, hleaf, hcount, hnew, rfl⟩
  · cases h.symm.trans hok
    exact .inl rfl
  · cases h.symm.trans herror

theorem declaresMore_recordLeaves (direction : Direction) : (leaves : List DistanceLeaf) →
    (a : DistanceArrays) → a.DeclaresMore (a.recordLeaves direction leaves).2
  | [], a => .refl a
  | leaf :: rest, a => by
    rw [recordLeaves.eq_def]
    dsimp only
    split
    · rename_i a₁ hleaf
      refine .trans ?_ (declaresMore_recordLeaves direction rest a₁)
      rcases recordLeaf_eq_ok hleaf with rfl | ⟨_, _, _, -, -, -, rfl⟩
      · exact .refl a₁
      · exact a.declaresMore_declare _ _ _ _
    · exact declaresMore_recordLeaves direction rest a

theorem WellFormed.recordLeaves (direction : Direction) : (leaves : List DistanceLeaf) →
    {a : DistanceArrays} → a.WellFormed → (a.recordLeaves direction leaves).2.WellFormed
  | [], _, ha => ha
  | leaf :: rest, a, ha => by
    rw [DistanceArrays.recordLeaves.eq_def]
    dsimp only
    split
    · rename_i a₁ hleaf
      refine WellFormed.recordLeaves direction rest ?_
      rcases recordLeaf_eq_ok hleaf with rfl | ⟨_, _, _, hdeclares, hcount, hnew, rfl⟩
      · exact ha
      · exact (Records.declare ha hdeclares hcount hnew).wellFormed
    · exact WellFormed.recordLeaves direction rest ha

/-! ### Nothing is found wrong -/

theorem records_of_recordLeaf {leaf : DistanceLeaf} (ha : a.WellFormed)
    (h : a.recordLeaf direction leaf = .ok a') : a.Records a' [(direction, leaf)] := by
  rcases a.recordLeaf_cases direction leaf with ⟨hnone, hok⟩ | ⟨-, -, _, herror⟩ |
    ⟨kind, index, count, -, hleaf, hcount, ⟨hnew, hok⟩ | ⟨old, hold, ⟨hty, hok⟩ | ⟨-, _, herror⟩⟩⟩
  · cases h.symm.trans hok
    exact .same ha (by simp [DistanceLeaf.declares?_eq_none hnone])
  · cases h.symm.trans herror
  · cases h.symm.trans hok
    exact .declare ha hleaf hcount hnew
  · cases h.symm.trans hok
    refine .same ha fun kind' index' count' hleaf' => ?_
    cases hleaf.symm.trans hleaf'
    exact ⟨leaf.ty, ha.mem_of_lookup hold hty hcount⟩
  · cases h.symm.trans herror

theorem records_of_recordLeaves : {leaves : List DistanceLeaf} → {a a' : DistanceArrays} →
    a.WellFormed → a.recordLeaves direction leaves = ([], a') →
    a.Records a' (leaves.map (direction, ·))
  | [], _, _, ha, h => by
    cases h
    exact .refl ha
  | leaf :: rest, a, a', ha, h => by
    rw [recordLeaves] at h
    split at h
    · rename_i a₁ hleaf
      have hfirst := records_of_recordLeaf ha hleaf
      exact hfirst.trans (records_of_recordLeaves hfirst.wellFormed h)
    · cases h

/-- A declaration with which nothing is wrong is recorded by its parts. -/
theorem records_of_record {ty : Ty} {semantic : Option String} {position : Position}
    (ha : a.WellFormed) (h : a.record ty semantic direction position = ([], a')) :
    a.Records a' ((distanceLeaves ty semantic position ty).map (direction, ·)) :=
  records_of_recordLeaves ha h

/-! ## Calculation -/

theorem calculate_get (h : a.calculate = .ok a') (direction : Direction) (kind : DistanceKind) :
    (a.get direction kind).calculate = .ok (a'.get direction kind) := by
  rw [calculate] at h
  obtain ⟨inputClip, h₁, h⟩ := bind_eq_ok_iff.1 h
  obtain ⟨inputCull, h₂, h⟩ := bind_eq_ok_iff.1 h
  obtain ⟨outputClip, h₃, h⟩ := bind_eq_ok_iff.1 h
  obtain ⟨outputCull, h₄, h⟩ := bind_eq_ok_iff.1 h
  cases h
  cases direction <;> cases kind <;> assumption

/-- Whether a component is declared for a direction and kind. -/
def Fills (a : DistanceArrays) (direction : Direction) (kind : DistanceKind) : Prop :=
  ∃ index count, (a.get direction kind).Declares index count ∧ count ≠ 0

theorem total_ne_zero_iff (h : a.calculate = .ok a') :
    (a'.get direction kind).total ≠ 0 ↔ a.Fills direction kind :=
  Packing.total_ne_zero_iff (calculate_get h direction kind)

end DistanceArrays

/-! ## Creation -/

/-- The tree of the type of an array of distances. -/
def Written.distanceArray (total : Nat) (vertices : Option Nat) : TypeTree :=
  overVertices (plain (.array (plain (.scalar .float32)) total)) vertices

namespace Emit

variable {e e' : Emitter} {inputVertices outputVertices : Option Nat}

/-- The type of an array of distances. -/
def distanceType (total : Nat) (vertices : Option Nat) : Emit TypeId := do
  let number ← scalarType .float32
  let array ← plainType (.array number (← constant total))
  overVertices array vertices

/-- The variable of an array of distances, given its type. -/
def distanceVariable (direction : Direction) (kind : DistanceKind) (ty : TypeId) :
    Spirv.Variable :=
  ⟨some ("gl_" ++ kind.builtin.text), ty, direction.storage, [.builtin kind.builtin]⟩

theorem distanceArray_eq (direction : Direction) (kind : DistanceKind) (total : Nat)
    (vertices : Option Nat) : distanceArray direction kind total vertices = do
      let ty ← distanceType total vertices
      let var ← addVariable (distanceVariable direction kind ty)
      require kind.capability
      return var := by
  rw [distanceArray, distanceType]
  simp only [bind_assoc]
  rfl

theorem realizes_distanceType (he : e.Sound) (total : Nat) (vertices : Option Nat) :
    Realizes (distanceType total vertices) e (.ok (Written.distanceArray total vertices))
      IsTree := by
  refine (realizes_scalarType he .float32).step fun e₁ number he₁ _ hnumber => ?_
  rw [← bind_assoc]
  exact (realizes_fixedArray he₁ hnumber total []).step fun e₂ array he₂ _ harray =>
    realizes_overVertices he₂ harray vertices

/-- An array is the last variable, and the only new one. -/
theorem adds_distanceArray (he : e.Sound) {direction : Direction} {kind : DistanceKind}
    {total : Nat} {vertices : Option Nat} {var : VariableId}
    (h : (distanceArray direction kind total vertices).runOn e = (.ok var, e')) :
    var = e.target.variables.size ∧ ∃ ty, e.Adds e' [distanceVariable direction kind ty] := by
  rw [distanceArray_eq] at h
  obtain ⟨ty, e₁, h₁, h⟩ := Action.runOn_bind_eq_ok_iff.1 h
  obtain ⟨_, e₂, h₂, h⟩ := Action.runOn_bind_eq_ok_iff.1 h
  obtain ⟨_, e₃, h₃, h⟩ := Action.runOn_bind_eq_ok_iff.1 h
  cases h
  have htype := (realizes_distanceType he total vertices).adds h₁
  have hvar := adds_addVariable htype.sound h₂
  have hrequire := (realizes_require hvar.sound kind.capability).adds h₃
  refine ⟨?_, ty, (htype.trans hvar).trans hrequire⟩
  cases h₂
  rw [Spirv.Table.size, htype.entries, List.append_nil]
  rfl

theorem provides_distanceVariable {direction : Direction} {kind : DistanceKind} {ty : TypeId}
    {b : Builtin} {c : StorageClass} :
    (distanceVariable direction kind ty).Provides b c ↔ b = kind.builtin ∧ c = direction.storage := by
  simp [distanceVariable, Spirv.Variable.Provides, eq_comm, and_comm]

/-- Arrays were created for some directions and kinds, and nothing else. -/
structure CreatesArrays (a a' : DistanceArrays) (e e' : Emitter)
    (keys : List (Direction × DistanceKind)) : Prop where
  adds : ∃ vs, e.Adds e' vs ∧ ∀ b c, (∃ v ∈ vs, v.Provides b c) ↔
    ∃ key ∈ keys, b = key.2.builtin ∧ c = key.1.storage
  packing : ∀ direction kind, ∃ var, a'.get direction kind = { a.get direction kind with var } ∧
    (var.isSome ↔ (a.get direction kind).var.isSome ∨ (direction, kind) ∈ keys)

theorem CreatesArrays.refl (a : DistanceArrays) (he : e.Sound) : CreatesArrays a a e e [] where
  adds := ⟨[], .refl he, by simp⟩
  packing direction kind := ⟨(a.get direction kind).var, rfl, by simp⟩

theorem CreatesArrays.cons {a a' : DistanceArrays} {e₁ : Emitter} {direction : Direction}
    {kind : DistanceKind} {ty : TypeId} {keys : List (Direction × DistanceKind)}
    (var : VariableId) (hfirst : e.Adds e₁ [distanceVariable direction kind ty])
    (h : CreatesArrays (a.set direction kind { a.get direction kind with var := some var }) a'
      e₁ e' keys) : CreatesArrays a a' e e' ((direction, kind) :: keys) where
  adds := by
    obtain ⟨vs, hadds, hprovides⟩ := h.adds
    refine ⟨_, hfirst.trans hadds, fun b c => ?_⟩
    simp only [List.singleton_append, List.mem_cons, exists_eq_or_imp, hprovides,
      provides_distanceVariable]
  packing d k := by
    obtain ⟨var', hget, hiff⟩ := h.packing d k
    refine ⟨var', ?_, ?_⟩ <;> by_cases hkey : (direction, kind) = (d, k)
    · cases hkey
      rw [hget, a.get_set]
    · rw [hget, a.get_set_of_ne _ hkey]
    · cases hkey
      rw [hiff, a.get_set]
      simp
    · rw [hiff, a.get_set_of_ne _ hkey, List.mem_cons]
      simp [Ne.symm hkey]

/-- An array is created for every given key that has a component. -/
theorem createsArrays_of_distanceArraysFor : {keys : List (Direction × DistanceKind)} →
    {a a' : DistanceArrays} → {e e' : Emitter} → {vars : List VariableId} → e.Sound →
    (distanceArraysFor inputVertices outputVertices keys a).runOn e = (.ok (vars, a'), e') →
    CreatesArrays a a' e e' (keys.filter fun key => (a.get key.1 key.2).total ≠ 0)
  | [], a, _, e, _, _, he, h => by
    cases h
    exact .refl a he
  | (direction, kind) :: rest, a, a', e, e', vars, he, h => by
    rw [distanceArraysFor.eq_def] at h
    dsimp only at h
    split at h
    · rename_i hzero
      rw [List.filter_cons_of_neg (by simpa using hzero)]
      exact createsArrays_of_distanceArraysFor he h
    · rename_i hpos
      rw [List.filter_cons_of_pos (by simpa using hpos)]
      obtain ⟨var, e₁, hvar, h⟩ := Action.runOn_bind_eq_ok_iff.1 h
      obtain ⟨⟨vars, a''⟩, e₂, hrest, h⟩ := Action.runOn_bind_eq_ok_iff.1 h
      cases h
      obtain ⟨-, ty, hfirst⟩ := adds_distanceArray he hvar
      refine .cons var hfirst ?_
      -- the totals that decide about the other keys are still those of the start
      have htotal : ∀ d k, ((a.set direction kind { a.get direction kind with var := some var }).get
          d k).total = (a.get d k).total := by
        intro d k
        by_cases hkey : (direction, kind) = (d, k)
        · cases hkey
          rw [a.get_set]
        · rw [a.get_set_of_ne _ hkey]
      have hothers := createsArrays_of_distanceArraysFor hfirst.sound hrest
      simp only [htotal] at hothers
      exact hothers

/-- **Arrays exist where components are declared.**  Measuring and creating the arrays of packings
that have none yet gives an array to a direction and kind exactly if a component is declared there,
and access to a declaration exactly if there is an array for it. -/
theorem distanceArrays_spec {a a₁ a₂ : DistanceArrays} {vars : List VariableId} (he : e.Sound)
    (ha : a.WellFormed) (hvar : ∀ direction kind, (a.get direction kind).var = none)
    (hcalculate : a.calculate = .ok a₁)
    (h : (distanceArrays a₁ inputVertices outputVertices).runOn e = (.ok (vars, a₂), e')) :
    (∃ vs, e.Adds e' vs ∧ ∀ b c, (∃ v ∈ vs, v.Provides b c) ↔
      ∃ direction kind, a.Fills direction kind ∧ b = kind.builtin ∧ c = direction.storage) ∧
    ∀ direction kind index count invocation,
      (∃ access, (a₂.get direction kind).access? index invocation = some access ∧
        access.count = count) ↔
      a.Fills direction kind ∧ (a.get direction kind).Declares index count := by
  have hcreates := createsArrays_of_distanceArraysFor he h
  have hkeys : ∀ direction kind, (direction, kind) ∈ DistanceArrays.keys.filter
      (fun key => (a₁.get key.1 key.2).total ≠ 0) ↔ a.Fills direction kind := by
    intro direction kind
    rw [← DistanceArrays.total_ne_zero_iff hcalculate, List.mem_filter]
    simp [DistanceArrays.mem_keys]
  constructor
  · obtain ⟨vs, hadds, hprovides⟩ := hcreates.adds
    refine ⟨vs, hadds, fun b c => ?_⟩
    rw [hprovides, Prod.exists]
    simp only [hkeys]
  · intro direction kind index count invocation
    have hpacking := DistanceArrays.calculate_get hcalculate direction kind
    obtain ⟨var, hget, hiff⟩ := hcreates.packing direction kind
    rw [hkeys, (Distance.Packing.calculate_eq_ok hpacking).2.1, hvar] at hiff
    rw [hget, Distance.Packing.exists_access?_iff (ha.ascending direction kind) hpacking, hiff]
    simp

end Emit

end ShaderLowering
