import Mathlib.Algebra.GroupWithZero.Nat
import ShaderLowering.Proofs.Distance.Arrays

/-!
# Recording distances

What a sequence of declarations leaves in the packings is said index by index: an index is recorded
as the first part says that asks for it, whatever is found wrong with others (`RecordsFirst`).
Nothing is found wrong exactly if every part is recorded as it says, so then the order does not
matter (`RecordsFirst.perm`).  Calculation lays the ranges of an array end to end by ascending
indices.
-/

namespace ShaderLowering

open Distance (Ascending Declared Packing Range rangesFrom)
open Source (Ty Position)
open Spirv (VariableId)

/-! ## Sorted declarations and their ranges -/

namespace Distance

variable {α : Type}

theorem lookup_insertSorted {key : Nat} {l : List (Nat × α)} (hkey : l.lookup key = none) (a : α)
    (i : Nat) : (insertSorted key a l).lookup i = if i = key then some a else l.lookup i := by
  have hcons : ∀ rest : List (Nat × α),
      ((key, a) :: rest).lookup i = if i = key then some a else rest.lookup i := by
    intro rest
    rw [List.lookup_cons]
    by_cases hi : i = key
    · simp [hi]
    · simp [hi, beq_false_of_ne hi]
  induction l with
  | nil => exact hcons []
  | cons y rest ih =>
    obtain ⟨k, b⟩ := y
    rw [insertSorted]
    split
    · exact hcons _
    · rw [List.lookup_cons] at hkey ⊢
      rw [List.lookup_cons]
      split at hkey
      · cases hkey
      · rename_i hne
        rw [ih hkey]
        by_cases hi : i = key
        · simp [hi, hne]
        · simp [hi]

/-- Sorted lists in which the same is found are the same. -/
theorem Ascending.eq_of_lookup {l l' : List (Nat × α)} (h : Ascending l) (h' : Ascending l')
    (hsame : ∀ i, l.lookup i = l'.lookup i) : l = l' := by
  have hmem : ∀ x, x ∈ l ↔ x ∈ l' := fun x => by
    rw [← h.lookup_eq_some_iff, ← h'.lookup_eq_some_iff, hsame]
  have hnodup : ∀ {l : List (Nat × α)}, Ascending l → l.Nodup := fun h =>
    h.imp fun hlt heq => Nat.ne_of_lt hlt (congrArg Prod.fst heq)
  have hperm := (List.perm_ext_iff_of_nodup (hnodup h) (hnodup h')).2 hmem
  exact hperm.eq_of_pairwise (fun x y _ _ hlt hlt' => absurd hlt' (Nat.lt_asymm hlt)) h h'

/-- Ranges that lie end to end between two places. -/
def Tiles : Nat → List Range → Nat → Prop
  | start, [], stop => start = stop
  | start, r :: rest, stop => r.start = start ∧ r.start ≤ r.stop ∧ Tiles r.stop rest stop

/-- Ranges have the indices of the declarations and lie end to end. -/
theorem tiles_rangesFrom : {l : List (Nat × Declared)} → {start total : Nat} →
    {ranges : List (Nat × Range)} → rangesFrom start l = .ok (ranges, total) →
    ranges.map (·.1) = l.map (·.1) ∧ Tiles start (ranges.map (·.2)) total
  | [], _, _, _, h => by
    cases h
    exact ⟨rfl, rfl⟩
  | (index, d) :: rest, start, total, _, h => by
    rw [rangesFrom] at h
    obtain ⟨stop, hstop, h⟩ := bind_eq_ok_iff.1 h
    obtain ⟨⟨ranges, _⟩, hrest, h⟩ := bind_eq_ok_iff.1 h
    cases h
    obtain ⟨rfl, -⟩ := Word.add_eq_ok_iff.1 hstop
    obtain ⟨hindices, htiles⟩ := tiles_rangesFrom hrest
    exact ⟨congrArg (index :: ·) hindices, rfl, Nat.le_add_right _ _, htiles⟩

/-- There are ranges as long as the last one ends at a word. -/
theorem exists_rangesFrom_iff : {l : List (Nat × Declared)} → {start : Nat} →
    start < Word.bound →
    ((∃ r, rangesFrom start l = .ok r) ↔ start + (l.map (·.2.count)).sum < Word.bound)
  | [], start, hstart => ⟨fun _ => hstart, fun _ => ⟨_, rfl⟩⟩
  | (index, d) :: rest, start, hstart => by
    rw [List.map_cons, List.sum_cons, ← Nat.add_assoc]
    constructor
    · rintro ⟨r, h⟩
      rw [rangesFrom] at h
      obtain ⟨stop, hstop, h⟩ := bind_eq_ok_iff.1 h
      obtain ⟨others, hrest, -⟩ := bind_eq_ok_iff.1 h
      obtain ⟨rfl, hlt⟩ := Word.add_eq_ok_iff.1 hstop
      exact (exists_rangesFrom_iff hlt).1 ⟨others, hrest⟩
    · intro hsum
      have hlt : start + d.count < Word.bound := Nat.lt_of_le_of_lt (Nat.le_add_right _ _) hsum
      obtain ⟨others, hrest⟩ := (exists_rangesFrom_iff hlt).2 hsum
      exact ⟨_, bind_eq_ok_iff.2 ⟨_, Word.add_eq_ok_iff.2 ⟨rfl, hlt⟩,
        bind_eq_ok_iff.2 ⟨others, hrest, rfl⟩⟩⟩

namespace Packing

/-- The second packing has a range for everything that the first one declares, and for nothing else:
by ascending indices, end to end from the start of the array to its end, each of its number of
components. -/
structure LaysOut (p p' : Packing) : Prop where
  indices : p'.ranges.map (·.1) = p.declared.map (·.1)
  ascending : Ascending p'.ranges
  tiles : Tiles 0 (p'.ranges.map (·.2)) p'.total
  width : ∀ index d, p.declared.lookup index = some d →
    ∃ r, p'.range? index = some r ∧ r.stop = r.start + d.count

theorem laysOut_of_calculate {p p' : Packing} (hp : Ascending p.declared)
    (h : p.calculate = .ok p') : p.LaysOut p' := by
  obtain ⟨-, -, hranges⟩ := calculate_eq_ok h
  obtain ⟨hindices, htiles⟩ := tiles_rangesFrom hranges
  refine ⟨hindices, ?_, htiles, fun index d hd => ?_⟩
  · have hkeys := List.pairwise_map.2 hp
    rw [← hindices] at hkeys
    exact List.pairwise_map.1 hkeys
  · have hlookup := lookup_rangesFrom index hranges
    rw [hd] at hlookup
    obtain ⟨r, hr, hwidth⟩ := Option.map_eq_some_iff.1 hlookup
    have hle := ((laid_rangesFrom hranges).within _ (mem_of_lookup hr)).2.1
    refine ⟨r, hr, ?_⟩
    simp only at hle hwidth
    omega

theorem exists_calculate_iff {p : Packing} :
    (∃ p', p.calculate = .ok p') ↔ (p.declared.map (·.2.count)).sum < Word.bound := by
  have hranges : (∃ r, rangesFrom 0 p.declared = .ok r) ↔
      0 + (p.declared.map (·.2.count)).sum < Word.bound := exists_rangesFrom_iff (by decide)
  rw [Nat.zero_add] at hranges
  rw [← hranges]
  constructor
  · rintro ⟨p', h⟩
    exact ⟨_, (calculate_eq_ok h).2.2⟩
  · rintro ⟨r, h⟩
    exact ⟨_, bind_eq_ok_iff.2 ⟨r, h, rfl⟩⟩

end Packing

end Distance

/-! ## What parts ask for -/

namespace DistanceLeaf

/-- What a part in a direction asks for at an index. -/
def declared? (direction : Direction) (kind : DistanceKind) (index : Nat)
    (part : Direction × DistanceLeaf) : Option Declared :=
  part.2.declares?.bind fun d =>
    if (part.1, d.1, d.2.1) = (direction, kind, index) then some ⟨part.2.ty, d.2.2⟩ else none

end DistanceLeaf

namespace DistanceArrays

variable {a a' a'' : DistanceArrays} {direction : Direction} {kind : DistanceKind}

/-- What is recorded at an index. -/
def declared? (a : DistanceArrays) (direction : Direction) (kind : DistanceKind) (index : Nat) :
    Option Declared := (a.get direction kind).declared.lookup index

/-- A part is no distance, or is recorded as it says. -/
def Fits (a : DistanceArrays) (part : Direction × DistanceLeaf) : Prop :=
  part.2.kind? = none ∨ ∃ kind index count, part.2.declares? = some (kind, index, count) ∧
    a.declared? part.1 kind index = some ⟨part.2.ty, count⟩

/-- What a part asks for that fits is recorded. -/
theorem Fits.declared?_eq {part : Direction × DistanceLeaf} (h : a.Fits part) {index : Nat}
    {d : Declared} (hd : DistanceLeaf.declared? direction kind index part = some d) :
    a.declared? direction kind index = some d := by
  obtain ⟨⟨kind', index', count⟩, hdeclares, hkey⟩ := Option.bind_eq_some_iff.1 hd
  split at hkey
  · rename_i heq
    cases heq
    cases hkey
    rcases h with hnone | ⟨_, _, _, hdeclares', hrecorded⟩
    · cases hdeclares.symm.trans (DistanceLeaf.declares?_eq_none hnone)
    · cases hdeclares.symm.trans hdeclares'
      exact hrecorded
  · cases hkey

/-- The second packings record what the first do, and at every other index what the first part asks
for that asks for something there.  It is fine exactly if all parts fit. -/
structure RecordsFirst (a a' : DistanceArrays) (parts : List (Direction × DistanceLeaf))
    (fine : Prop) : Prop where
  wellFormed : a'.WellFormed
  more : a.DeclaresMore a'
  declared : ∀ direction kind index, a'.declared? direction kind index =
    (a.declared? direction kind index).or
      (parts.findSome? (DistanceLeaf.declared? direction kind index))
  fits : fine ↔ ∀ part ∈ parts, a'.Fits part

namespace RecordsFirst

variable {parts parts' : List (Direction × DistanceLeaf)} {fine fine' : Prop}

theorem refl (ha : a.WellFormed) : a.RecordsFirst a [] True :=
  ⟨ha, .refl a, by simp, by simp⟩

/-- What is recorded stays. -/
theorem kept (h : a.RecordsFirst a' parts fine) {index : Nat} {d : Declared}
    (hd : a.declared? direction kind index = some d) :
    a'.declared? direction kind index = some d := by
  rw [h.declared, hd, Option.some_or]

/-- At the index of a part something is recorded. -/
theorem isSome_declared? (h : a.RecordsFirst a' parts fine) {part : Direction × DistanceLeaf}
    (hpart : part ∈ parts) {index count : Nat}
    (hdeclares : part.2.declares? = some (kind, index, count)) :
    (a'.declared? part.1 kind index).isSome = true := by
  rw [h.declared, Option.isSome_or, Bool.or_eq_true, List.findSome?_isSome_iff]
  exact .inr ⟨part, hpart, by simp [DistanceLeaf.declared?, hdeclares]⟩

/-- A part fits after it was recorded exactly if it fits in the end. -/
theorem fits_iff (h : a.RecordsFirst a' parts fine) (h' : a'.RecordsFirst a'' parts' fine')
    {part : Direction × DistanceLeaf} (hpart : part ∈ parts) : a'.Fits part ↔ a''.Fits part := by
  refine or_congr_right (exists_congr fun kind => exists_congr fun index =>
    exists_congr fun count => and_congr_right fun hdeclares => ?_)
  obtain ⟨d, hd⟩ := Option.isSome_iff_exists.1 (h.isSome_declared? hpart hdeclares)
  rw [hd, h'.kept hd]

/-- Parts are recorded one after the other. -/
theorem trans (h : a.RecordsFirst a' parts fine) (h' : a'.RecordsFirst a'' parts' fine') :
    a.RecordsFirst a'' (parts ++ parts') (fine ∧ fine') where
  wellFormed := h'.wellFormed
  more := h.more.trans h'.more
  declared direction kind index := by
    rw [h'.declared, h.declared, Option.or_assoc, List.findSome?_append]
  fits := by
    rw [h.fits, h'.fits, List.forall_mem_append]
    exact and_congr_left fun _ => forall₂_congr fun _ hpart => h.fits_iff h' hpart

/-- A part that asks for nothing new. -/
theorem same {leaf : DistanceLeaf} (ha : a.WellFormed)
    (hold : ∀ kind index count, leaf.declares? = some (kind, index, count) →
      (a.declared? direction kind index).isSome = true)
    (hfits : fine ↔ a.Fits (direction, leaf)) : a.RecordsFirst a [(direction, leaf)] fine where
  wellFormed := ha
  more := .refl a
  declared d k i := by
    rw [List.findSome?_singleton]
    cases hpart : DistanceLeaf.declared? d k i (direction, leaf) with
    | none => rw [Option.or_none]
    | some declared =>
      obtain ⟨⟨kind, index, count⟩, hdeclares, hkey⟩ := Option.bind_eq_some_iff.1 hpart
      split at hkey
      · rename_i heq
        cases heq
        obtain ⟨old, hold⟩ := Option.isSome_iff_exists.1 (hold kind index count hdeclares)
        rw [hold, Option.some_or]
      · cases hkey
  fits := by rw [hfits, List.forall_mem_singleton]

/-- A part that asks for a new index. -/
theorem declare {leaf : DistanceLeaf} {index count : Nat} (ha : a.WellFormed)
    (hleaf : leaf.declares? = some (kind, index, count))
    (hcount : distanceCount? leaf.ty = some count)
    (hnew : (a.get direction kind).declared.lookup index = none) (hfine : fine) :
    a.RecordsFirst (a.set direction kind ((a.get direction kind).declare index ⟨leaf.ty, count⟩))
      [(direction, leaf)] fine := by
  have hdeclared : ∀ d k i, declared?
      (a.set direction kind ((a.get direction kind).declare index ⟨leaf.ty, count⟩)) d k i =
        (a.declared? d k i).or (DistanceLeaf.declared? d k i (direction, leaf)) := by
    intro d k i
    simp only [declared?, DistanceLeaf.declared?, hleaf, Option.bind_some]
    rw [get_set_eq]
    split
    · rename_i hkey
      cases hkey
      rw [Packing.declare, Distance.lookup_insertSorted hnew]
      by_cases hi : i = index
      · simp [hi, hnew]
      · simp [hi, Ne.symm hi]
    · rename_i hkey
      rw [if_neg fun heq => hkey (by cases heq; rfl), Option.or_none]
  refine ⟨(Records.declare ha hleaf hcount hnew).wellFormed, a.declaresMore_declare _ _ _ _,
    fun d k i => by rw [hdeclared, List.findSome?_singleton], ?_⟩
  rw [List.forall_mem_singleton]
  refine iff_of_true hfine (.inr ⟨kind, index, count, hleaf, ?_⟩)
  rw [hdeclared, declared?, hnew, Option.none_or]
  simp [DistanceLeaf.declared?, hleaf]

end RecordsFirst

/-- What becomes of one part. -/
theorem recordsFirst_recordLeaf (ha : a.WellFormed) (direction : Direction) (leaf : DistanceLeaf) :
    a.RecordsFirst ((a.recordLeaf direction leaf).toOption.getD a) [(direction, leaf)]
      ((a.recordLeaf direction leaf).isOk = true) := by
  rcases a.recordLeaf_cases direction leaf with ⟨hnone, hrecord⟩ | ⟨hsome, hnone, _, hrecord⟩ |
    ⟨kind, index, count, hsome, hleaf, hcount, ⟨hnew, hrecord⟩ | ⟨old, hold, hold_ty⟩⟩
  · rw [hrecord]
    exact .same ha (by simp [DistanceLeaf.declares?_eq_none hnone]) (iff_of_true rfl (.inl hnone))
  · rw [hrecord]
    exact .same ha (by simp [hnone])
      (iff_of_false Bool.false_ne_true (by simp [Fits, hsome, hnone]))
  · rw [hrecord]
    exact .declare ha hleaf hcount hnew rfl
  · have hisSome : ∀ kind' index' count', leaf.declares? = some (kind', index', count') →
        (a.declared? direction kind' index').isSome = true := by
      rintro _ _ _ hleaf'
      cases hleaf.symm.trans hleaf'
      rw [declared?, hold]
      rfl
    rcases hold_ty with ⟨hty, hrecord⟩ | ⟨hty, _, hrecord⟩ <;> rw [hrecord]
    · refine .same ha hisSome (iff_of_true rfl (.inr ⟨kind, index, count, hleaf, ?_⟩))
      exact (ha.ascending direction kind).lookup_eq_some_iff.2 (ha.mem_of_lookup hold hty hcount)
    · refine .same ha hisSome (iff_of_false Bool.false_ne_true ?_)
      rintro (hnone | ⟨_, _, _, hleaf', hdeclared⟩)
      · exact hsome hnone
      · cases hleaf.symm.trans hleaf'
        exact hty (congrArg Declared.ty (Option.some.inj (hold.symm.trans hdeclared)))

/-- What becomes of the parts of a declaration. -/
theorem recordsFirst_recordLeaves (direction : Direction) : (leaves : List DistanceLeaf) →
    {a : DistanceArrays} → a.WellFormed →
    a.RecordsFirst (a.recordLeaves direction leaves).2 (leaves.map (direction, ·))
      ((a.recordLeaves direction leaves).1 = [])
  | [], a, ha => by
    simpa [recordLeaves] using RecordsFirst.refl ha
  | leaf :: rest, a, ha => by
    have hfirst := recordsFirst_recordLeaf ha direction leaf
    have hboth := hfirst.trans (recordsFirst_recordLeaves direction rest hfirst.wellFormed)
    rw [recordLeaves]
    cases hleaf : a.recordLeaf direction leaf with
    | ok a₁ =>
      rw [hleaf] at hboth
      simpa [Except.toOption, Except.isOk, Except.toBool] using hboth
    | error finding =>
      rw [hleaf] at hboth
      simpa [Except.toOption, Except.isOk, Except.toBool] using hboth

/-! ## The order of declarations -/

/-- Packings that record the same over the same ranges and arrays are the same. -/
theorem DeclaresMore.eq (h : a.DeclaresMore a') (h' : a.DeclaresMore a'') (ha' : a'.WellFormed)
    (ha'' : a''.WellFormed)
    (hsame : ∀ direction kind index,
      a'.declared? direction kind index = a''.declared? direction kind index) : a' = a'' := by
  have hget : ∀ direction kind, a'.get direction kind = a''.get direction kind := by
    intro direction kind
    have hdeclared := (ha'.ascending direction kind).eq_of_lookup (ha''.ascending direction kind)
      (hsame direction kind)
    obtain ⟨_, -, hget'⟩ := h direction kind
    obtain ⟨_, -, hget''⟩ := h' direction kind
    rw [hget', hget''] at hdeclared ⊢
    cases hdeclared
    rfl
  cases a'
  cases a''
  exact congr (congr (congr (congrArg mk (hget .input .clip)) (hget .input .cull))
    (hget .output .clip)) (hget .output .cull)

/-- If all parts fit, they do in every order, and the same is recorded. -/
theorem RecordsFirst.perm {parts parts' : List (Direction × DistanceLeaf)} {fine fine' : Prop}
    (h : a.RecordsFirst a' parts fine) (h' : a.RecordsFirst a'' parts' fine')
    (hperm : parts.Perm parts') (hfine : fine) : fine' ∧ a'' = a' := by
  have hfits := h.fits.1 hfine
  have hsame : ∀ direction kind index,
      a''.declared? direction kind index = a'.declared? direction kind index := by
    intro direction kind index
    cases hold : a.declared? direction kind index with
    | some d => rw [h.kept hold, h'.kept hold]
    | none =>
      have hparts := h.declared direction kind index
      have hparts' := h'.declared direction kind index
      rw [hold, Option.none_or] at hparts hparts'
      rw [hparts']
      cases hfirst : parts'.findSome? (DistanceLeaf.declared? direction kind index) with
      | none =>
        rw [List.findSome?_eq_none_iff] at hfirst
        rw [hparts, eq_comm, List.findSome?_eq_none_iff]
        exact fun part hpart => hfirst part (hperm.mem_iff.1 hpart)
      | some d =>
        obtain ⟨part, hpart, hd⟩ := List.exists_of_findSome?_eq_some hfirst
        exact ((hfits part (hperm.mem_iff.2 hpart)).declared?_eq hd).symm
  have heq := h'.more.eq h.more h'.wellFormed h.wellFormed hsame
  exact ⟨h'.fits.2 fun part hpart => heq ▸ hfits part (hperm.mem_iff.2 hpart), heq⟩

end DistanceArrays

/-! ## Sequences of declarations -/

/-- A declaration that is to be recorded. -/
structure DistanceDecl where
  ty : Ty
  semantic : Option String
  direction : Direction
  position : Position

/-- The parts of a declaration. -/
def DistanceDecl.parts (decl : DistanceDecl) : List (Direction × DistanceLeaf) :=
  (distanceLeaves decl.ty decl.semantic decl.position decl.ty).map (decl.direction, ·)

namespace DistanceArrays

variable {a a' : DistanceArrays}

/-- The answers to recording one declaration after the other, which are whether nothing is found
wrong, and what is recorded then. -/
def recordAll (a : DistanceArrays) : List DistanceDecl → List Bool × DistanceArrays
  | [] => ([], a)
  | decl :: rest =>
    let (findings, a₁) := a.record decl.ty decl.semantic decl.direction decl.position
    let (answers, a₂) := a₁.recordAll rest
    (findings.isEmpty :: answers, a₂)

/-- What becomes of the parts of all declarations. -/
theorem recordsFirst_recordAll : (decls : List DistanceDecl) → {a : DistanceArrays} →
    a.WellFormed → a.RecordsFirst (a.recordAll decls).2 (decls.flatMap (·.parts))
      (∀ answer ∈ (a.recordAll decls).1, answer = true)
  | [], a, ha => by
    simpa [recordAll] using RecordsFirst.refl ha
  | decl :: rest, a, ha => by
    have hfirst := recordsFirst_recordLeaves decl.direction
      (distanceLeaves decl.ty decl.semantic decl.position decl.ty) ha
    have hboth := hfirst.trans (recordsFirst_recordAll rest hfirst.wellFormed)
    simpa [recordAll, record, DistanceDecl.parts] using hboth

/-- What can become of the packings: declarations are recorded, ranges are calculated and arrays are
created, in any order. -/
inductive Reachable : DistanceArrays → Prop
  | start : Reachable {}
  | record {a : DistanceArrays} (decl : DistanceDecl) (h : Reachable a) :
      Reachable (a.record decl.ty decl.semantic decl.direction decl.position).2
  | calculate {a a' : DistanceArrays} (h : Reachable a) (hcalculate : a.calculate = .ok a') :
      Reachable a'
  | create {a a' : DistanceArrays} {e e' : Emitter} {inputVertices outputVertices : Option Nat}
      {vars : List VariableId} (h : Reachable a)
      (hcreate : (Emit.distanceArrays a inputVertices outputVertices).runOn e =
        (.ok (vars, a'), e')) : Reachable a'

end DistanceArrays

namespace Emit

/-- Creation leaves declarations alone. -/
theorem declared_distanceArraysFor {inputVertices outputVertices : Option Nat} :
    {keys : List (Direction × DistanceKind)} → {a a' : DistanceArrays} → {e e' : Emitter} →
    {vars : List VariableId} →
    (distanceArraysFor inputVertices outputVertices keys a).runOn e = (.ok (vars, a'), e') →
    ∀ direction kind, (a'.get direction kind).declared = (a.get direction kind).declared
  | [], _, _, _, _, _, h => by
    cases h
    exact fun _ _ => rfl
  | (direction, kind) :: rest, a, _, _, _, _, h => by
    rw [distanceArraysFor.eq_def] at h
    dsimp only at h
    split at h
    · exact declared_distanceArraysFor h
    · obtain ⟨var, e₁, -, h⟩ := Action.runOn_bind_eq_ok_iff.1 h
      obtain ⟨⟨vars, a''⟩, e₂, hrest, h⟩ := Action.runOn_bind_eq_ok_iff.1 h
      cases h
      intro d k
      rw [declared_distanceArraysFor hrest, DistanceArrays.get_set_eq]
      split
      · rename_i hkey
        cases hkey
        rfl
      · rfl

end Emit

namespace DistanceArrays

variable {a a' : DistanceArrays}

theorem WellFormed.congr (h : a.WellFormed)
    (hdeclared : ∀ direction kind,
      (a'.get direction kind).declared = (a.get direction kind).declared) : a'.WellFormed :=
  ⟨fun direction kind => hdeclared direction kind ▸ h.ascending direction kind,
    fun direction kind => hdeclared direction kind ▸ h.counted direction kind⟩

theorem Reachable.wellFormed (h : a.Reachable) : a.WellFormed := by
  induction h with
  | start => exact wellFormed_empty
  | record decl _ ih => exact ih.recordLeaves _ _
  | calculate _ hcalculate ih =>
    exact ih.congr fun direction kind =>
      (Packing.calculate_eq_ok (calculate_get hcalculate direction kind)).1
  | create _ hcreate ih => exact ih.congr (Emit.declared_distanceArraysFor hcreate)

/-- Ranges can be calculated as long as no array is longer than a word says. -/
theorem exists_calculate_iff : (∃ a', a.calculate = .ok a') ↔ ∀ direction kind,
    ((a.get direction kind).declared.map (·.2.count)).sum < Word.bound := by
  simp only [← Packing.exists_calculate_iff]
  constructor
  · rintro ⟨a', h⟩ direction kind
    exact ⟨_, calculate_get h direction kind⟩
  · intro h
    obtain ⟨inputClip, h₁⟩ := h .input .clip
    obtain ⟨inputCull, h₂⟩ := h .input .cull
    obtain ⟨outputClip, h₃⟩ := h .output .clip
    obtain ⟨outputCull, h₄⟩ := h .output .cull
    exact ⟨_, bind_eq_ok_iff.2 ⟨_, h₁, bind_eq_ok_iff.2 ⟨_, h₂, bind_eq_ok_iff.2 ⟨_, h₃,
      bind_eq_ok_iff.2 ⟨_, h₄, rfl⟩⟩⟩⟩⟩

/-- **Packed distances.**  Whatever was done with the packings before, and whatever is found wrong
with a sequence of declarations, an index is recorded as the first part says that asks for it, and
with the number of components of that type.  Ranges can be calculated exactly if no array is longer
than a word says, and then those of a direction and kind are, by ascending indices, the ranges of
all recorded ones, from the start of the array to its end and each of its number of components.  If
nothing is found wrong, nothing is in any order of the declarations, and the same is recorded. -/
theorem Reachable.packs_recordAll (h : a.Reachable) (decls : List DistanceDecl) :
    (∀ direction kind index, (a.recordAll decls).2.declared? direction kind index =
      (a.declared? direction kind index).or
        ((decls.flatMap (·.parts)).findSome? (DistanceLeaf.declared? direction kind index))) ∧
    (∀ direction kind index d, (a.recordAll decls).2.declared? direction kind index = some d →
      distanceCount? d.ty = some d.count) ∧
    ((∃ a', (a.recordAll decls).2.calculate = .ok a') ↔ ∀ direction kind,
      (((a.recordAll decls).2.get direction kind).declared.map (·.2.count)).sum < Word.bound) ∧
    (∀ a', (a.recordAll decls).2.calculate = .ok a' → ∀ direction kind,
      ((a.recordAll decls).2.get direction kind).LaysOut (a'.get direction kind)) ∧
    ((∀ answer ∈ (a.recordAll decls).1, answer = true) → ∀ decls', decls.Perm decls' →
      (∀ answer ∈ (a.recordAll decls').1, answer = true) ∧
        (a.recordAll decls').2 = (a.recordAll decls).2) := by
  have hfirst := recordsFirst_recordAll decls h.wellFormed
  refine ⟨hfirst.declared, fun direction kind index d hd => ?_, exists_calculate_iff,
    fun a' hcalculate direction kind => ?_, fun hfine decls' hperm => ?_⟩
  · have hmem := (hfirst.wellFormed.ascending direction kind).lookup_eq_some_iff.1 hd
    exact hfirst.wellFormed.counted direction kind _ hmem
  · exact Packing.laysOut_of_calculate (hfirst.wellFormed.ascending direction kind)
      (calculate_get hcalculate direction kind)
  · exact hfirst.perm (recordsFirst_recordAll decls' h.wellFormed)
      (hperm.flatMap_right _) hfine

/-- Three clip distances, one of them declared twice. -/
def clipDecls : List DistanceDecl :=
  [⟨.vector .single 2, some "SV_ClipDistance2", .output, {}⟩,
    ⟨.scalar .single, some "SV_ClipDistance0", .output, {}⟩,
    ⟨.vector .single 3, some "SV_ClipDistance1", .output, {}⟩,
    ⟨.scalar .single, some "SV_ClipDistance0", .output, {}⟩]

theorem Reachable.packs_recordAll_clipDecls :
    Reachable {} ∧ (∀ answer ∈ (recordAll {} clipDecls).1, answer = true) ∧
    (∀ answer ∈ (recordAll {} clipDecls.reverse).1, answer = true) ∧
    (recordAll {} clipDecls.reverse).2 = (recordAll {} clipDecls).2 ∧
    ∃ a', (recordAll {} clipDecls).2.calculate = .ok a' ∧
      ((recordAll {} clipDecls).2.get .output .clip).LaysOut (a'.get .output .clip) ∧
      (a'.get .output .clip).ranges = [(0, ⟨0, 1⟩), (1, ⟨1, 4⟩), (2, ⟨4, 6⟩)] ∧
      a'.total .output .clip = 6 := by
  obtain ⟨-, -, -, hlaysOut, hperm⟩ := packs_recordAll .start clipDecls
  have hanswers : (recordAll {} clipDecls).1 = [true, true, true, true] := by decide +kernel
  have hfine : ∀ answer ∈ (recordAll {} clipDecls).1, answer = true := by simp [hanswers]
  obtain ⟨hfine', hsame⟩ := hperm hfine _ (List.reverse_perm _).symm
  have hranges : (recordAll {} clipDecls).2.calculate.map (fun a' =>
      ((a'.get .output .clip).ranges, a'.total .output .clip)) =
        .ok ([(0, ⟨0, 1⟩), (1, ⟨1, 4⟩), (2, ⟨4, 6⟩)], 6) := by decide +kernel
  cases hcalculate : (recordAll {} clipDecls).2.calculate with
  | error f =>
    rw [hcalculate] at hranges
    cases hranges
  | ok a' =>
    rw [hcalculate] at hranges
    obtain ⟨hranges, htotal⟩ := Prod.mk.inj (Except.ok.inj hranges)
    exact ⟨.start, hfine, hfine', hsame, a', rfl, hlaysOut a' hcalculate .output .clip, hranges,
      htotal⟩

end DistanceArrays

end ShaderLowering
