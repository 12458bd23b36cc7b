import ShaderLowering.Layout.Locations
import ShaderLowering.Proofs.Emission.Totality
import ShaderLowering.Proofs.Layout.Parts
import ShaderLowering.Proofs.Layout.PlainData

/-!
# Locations of emitted types

The number of interface locations is computed from a source type.  For plain data it is the number
that the emitted type takes, counted on that type alone (`Emit.locations?_of_plainData`).  A matrix
takes the locations of its rows, as vectors, for each of its rows: the rows of the source are the
columns of an emitted matrix, or the elements of the array that is emitted for a matrix of integers.
-/

namespace ShaderLowering

open Source (Ty OptionalTy Fields Field Scalar Record)
open Spirv (TypeTree TreeForm TreeMembers)

namespace Spirv

mutual

/-- The number of locations of a written-out type, if it can stand on a stage interface. -/
def TypeTree.locations? : TypeTree → Option Nat
  | .node _ form _ => form.locations?

/-- The number of locations of a form: one for a scalar or a vector, two for three or four
components of 64 bits. -/
def TreeForm.locations? : TreeForm → Option Nat
  | .scalar _ => some 1
  | .vector size s => some (if s.bits = 64 ∧ 3 ≤ size.toNat then 2 else 1)
  | .matrix column columns => column.locations?.map (columns.toNat * ·)
  | .array elem length => elem.locations?.map (length * ·)
  | .struct members => members.locations?
  | .void | .runtimeArray _ | .image _ _ _ _ _ _ _ | .sampler | .pointer _ _ => none

/-- The number of locations of all members together. -/
def TreeMembers.locations? : TreeMembers → Option Nat
  | .nil => some 0
  | .cons _ ty rest => ty.locations?.bind fun n => rest.locations?.map (n + ·)

end

end Spirv

/-! ## Scalars and vectors -/

namespace Source.Scalar

variable (options : Options) {s : Scalar}

/-- Stored without a layout, a scalar has 64 bits exactly if it has them in the source. -/
theorem bits_stored_eq_iff (h : s.isSized = true) :
    (s.stored options .unlaid none).bits = 64 ↔ s.bits options = 64 := by
  by_cases hs : s = .bool
  · simp [hs, stored, Spirv.Scalar.bool, Spirv.Scalar.bits, Scalar.bits]
  · have hbits := bits_of_isSized options h
    rw [stored, if_neg hs, expectedBits, settled_none]
    change s.bits options / 8 % 256 * 8 = 64 ↔ _
    omega

end Source.Scalar

namespace Written

variable {options : Options} {o : Layout.Orientation} {tree : TypeTree}

theorem locations?_ofVector {elem : Scalar} {count : Nat} (helem : elem.isSized = true)
    (h : ofVector options .unlaid none elem count = .ok tree) :
    tree.locations? = some (Layout.vectorLocations options elem count) := by
  rw [Layout.vectorLocations]
  by_cases h1 : count = 1
  · rw [ofVector, if_pos h1] at h
    cases h
    rw [if_neg (by omega)]
    rfl
  · obtain ⟨size, rfl, rfl⟩ := Layout.vector_of_ofVector h1 h
    simp only [plain, TypeTree.locations?, TreeForm.locations?,
      Scalar.bits_stored_eq_iff options helem]

/-- A matrix takes the locations of a row for each of its rows. -/
theorem locations?_ofMatrix {elem : Scalar} {rows cols n : Nat} (helem : elem.isSized = true)
    (h : ofMatrix options .unlaid o none elem rows cols = .ok tree)
    (hn : Layout.locations options (.matrix elem rows cols) = .ok n) :
    tree.locations? = some n := by
  rw [ofMatrix] at h
  rw [Layout.locations] at hn
  split at h
  · rename_i h1
    rw [if_pos h1] at hn
    obtain ⟨count, hcount, hn⟩ := bind_eq_ok_iff.1 hn
    obtain ⟨count', hcount', h⟩ := bind_eq_ok_iff.1 h
    obtain rfl : count = count' :=
      Except.ok.inj (hcount.symm.trans (ofChecked_eq_ok_iff.1 hcount'))
    cases hn
    exact locations?_ofVector helem h
  · rename_i h1
    rw [if_neg h1, Word.mul_eq_ok_iff] at hn
    obtain ⟨row, hrow, h⟩ := bind_eq_ok_iff.1 h
    have hlocations := locations?_ofVector helem hrow
    cases hfloat : elem.isFloat
    · rw [hfloat, if_neg Bool.false_ne_true] at h
      obtain ⟨ds, -, h⟩ := bind_eq_ok_iff.1 h
      cases h
      rw [TypeTree.locations?, TreeForm.locations?, hlocations, hn.1]
      rfl
    · rw [hfloat, if_pos rfl] at h
      obtain ⟨size, hsize, h⟩ := bind_eq_ok_iff.1 h
      cases h
      rw [plain, TypeTree.locations?, TreeForm.locations?, hlocations, hn.1,
        ← Layout.size_of_vectorSize hsize]
      rfl

/-! ## Structures -/

/-- Members take the locations of their types together. -/
theorem locations?_members : (parts : List Field) → (trees : List TypeTree) → (ns : List Nat) →
    parts.length = trees.length → List.Forall₂ (fun tree n => tree.locations? = some n) trees ns →
    (members parts trees).locations? = some ns.sum
  | [], [], [], _, _ => rfl
  | _ :: parts, tree :: trees, n :: ns, hlength, .cons hn hns => by
    rw [members, TreeMembers.locations?, hn,
      locations?_members parts trees ns (Nat.succ.inj hlength) hns]
    rfl

/-- A structure can be written, and takes the locations of its parts. -/
theorem exists_ofRecord_locations {name : String} {base : OptionalTy} {fields : Fields}
    {trees : List TypeTree} {ns : List Nat}
    (hlength : (Record.parts ⟨name, base, fields⟩).length = trees.length)
    (h : List.Forall₂ (fun tree n => tree.locations? = some n) trees ns) :
    ∃ tree, ofRecord options name (Record.parts ⟨name, base, fields⟩) trees .unlaid .plain
      = .ok tree ∧ tree.locations? = some ns.sum := by
  rw [ofRecord, layoutDecorations, if_pos rfl]
  exact ⟨_, rfl, locations?_members _ trees ns hlength h⟩

mutual

/-- Plain data can be written without a layout, and takes as many locations as are computed for
it. -/
theorem exists_ofTy_locations : (ty : Ty) → (o : Layout.Orientation) → {n : Nat} →
    ty.isPlainData = true → Layout.locations options ty = .ok n →
    ∃ tree, ofTy options ty .unlaid o none = .ok tree ∧ tree.locations? = some n
  | .alias _ target, o, n, hplain, hn => by
    rw [Layout.locations] at hn
    exact exists_ofTy_locations target o hplain hn
  | .oriented order target, o, n, hplain, hn => by
    rw [Layout.locations] at hn
    exact exists_ofTy_locations target (o.annotate order) hplain hn
  | .scalar elem, o, n, hplain, hn => by
    cases hn
    exact ⟨_, rfl, rfl⟩
  | .vector elem count, o, n, hplain, hn => by
    cases hn
    rw [Ty.isPlainData, Bool.and_eq_true] at hplain
    obtain ⟨tree, htree⟩ : ∃ tree, ofVector options .unlaid none elem count = .ok tree :=
      exists_ofVector (of_decide_eq_true hplain.2)
    exact ⟨tree, htree, locations?_ofVector hplain.1 htree⟩
  | .matrix elem rows cols, o, n, hplain, hn => by
    simp only [Ty.isPlainData, Bool.and_eq_true, decide_eq_true_eq] at hplain
    obtain ⟨⟨helem, hrows⟩, hcols⟩ := hplain
    obtain ⟨tree, htree⟩ : ∃ tree, ofMatrix options .unlaid o none elem rows cols = .ok tree :=
      exists_ofMatrix hrows hcols fun hrule => absurd rfl hrule
    exact ⟨tree, htree, locations?_ofMatrix helem htree hn⟩
  | .array elem (some length), o, n, hplain, hn => by
    rw [Layout.locations] at hn
    obtain ⟨m, hm, hn⟩ := bind_eq_ok_iff.1 hn
    obtain ⟨rfl, -⟩ := Word.mul_eq_ok_iff.1 hn
    obtain ⟨base, hbase, hlocations⟩ := exists_ofTy_locations elem o.element hplain hm
    -- an array without a layout gets no stride, so nothing can overflow here
    have harray : ofArray options .unlaid o elem (some length) base
        = .ok (plain (.array base length)) := by
      simp only [ofArray, strideOf, if_pos, ite_self]
      rfl
    refine ⟨_, bind_eq_ok_iff.2 ⟨base, hbase, harray⟩, ?_⟩
    rw [plain, TypeTree.locations?, TreeForm.locations?, hlocations]
    rfl
  | .struct name base fields, o, n, hplain, hn => by
    rw [Ty.isPlainData, Bool.and_eq_true] at hplain
    rw [Layout.locations] at hn
    obtain ⟨a, ha, hn⟩ := bind_eq_ok_iff.1 hn
    obtain ⟨b, hb, hn⟩ := bind_eq_ok_iff.1 hn
    obtain ⟨rfl, -⟩ := Word.add_eq_ok_iff.1 hn
    obtain ⟨inherited, hinherited, ns, hns, rfl⟩ := exists_ofBase_locations base hplain.1 ha
    obtain ⟨own, hown, ns', hns', rfl⟩ := exists_ofFields_locations fields hplain.2 hb
    -- the members of the base come first, in the type and in the count
    have hlength : (Record.parts ⟨name, base, fields⟩).length = (inherited ++ own).length := by
      rw [length_parts, List.length_append, length_ofBase hinherited,
        length_ofFields fields own hown]
    obtain ⟨tree, htree, hlocations⟩ :=
      exists_ofRecord_locations hlength (List.rel_append hns hns')
    rw [List.sum_append] at hlocations
    exact ⟨tree, bind_eq_ok_iff.2 ⟨inherited, hinherited, bind_eq_ok_iff.2 ⟨own, hown, htree⟩⟩,
      hlocations⟩

theorem exists_ofBase_locations : (base : OptionalTy) → {n : Nat} → base.isPlainData = true →
    Layout.baseLocations options base = .ok n →
    ∃ trees, ofBase options base .unlaid = .ok trees ∧
      ∃ ns, List.Forall₂ (fun tree n => tree.locations? = some n) trees ns ∧ ns.sum = n
  | .absent, n, _, hn => by
    cases hn
    exact ⟨[], rfl, [], .nil, rfl⟩
  | .present ty, n, hplain, hn => by
    rw [Layout.baseLocations] at hn
    obtain ⟨tree, htree, hlocations⟩ := exists_ofTy_locations ty {} hplain hn
    exact ⟨[tree], bind_eq_ok_iff.2 ⟨tree, htree, rfl⟩, [n], .cons hlocations .nil, by simp⟩

theorem exists_ofFields_locations : (fields : Fields) → {n : Nat} →
    fields.arePlainData = true → Layout.fieldLocations options fields = .ok n →
    ∃ trees, ofFields options fields .unlaid = .ok trees ∧
      ∃ ns, List.Forall₂ (fun tree n => tree.locations? = some n) trees ns ∧ ns.sum = n
  | .nil, n, _, hn => by
    cases hn
    exact ⟨[], rfl, [], .nil, rfl⟩
  | .cons _ ty _ _ rest, n, hplain, hn => by
    rw [Fields.arePlainData, Bool.and_eq_true] at hplain
    rw [Layout.fieldLocations] at hn
    obtain ⟨a, ha, hn⟩ := bind_eq_ok_iff.1 hn
    obtain ⟨b, hb, hn⟩ := bind_eq_ok_iff.1 hn
    obtain ⟨rfl, -⟩ := Word.add_eq_ok_iff.1 hn
    obtain ⟨tree, htree, hlocations⟩ := exists_ofTy_locations ty {} hplain.1 ha
    obtain ⟨trees, htrees, ns, hns, rfl⟩ := exists_ofFields_locations rest hplain.2 hb
    exact ⟨tree :: trees, bind_eq_ok_iff.2 ⟨tree, htree, bind_eq_ok_iff.2 ⟨trees, htrees, rfl⟩⟩,
      a :: ns, .cons hlocations hns, List.sum_cons⟩

end

end Written

namespace Emit

variable {options : Options} {e : Emitter} {ty : Ty}

/-- **The locations computed for plain data are those that the emitted type takes.**  Whenever the
number of locations is computed without a fault, the type is emitted where no layout is asked for,
and counted on the emitted type the locations are the same number. -/
theorem locations?_of_plainData (he : Emitter.Attained options e) (hplain : ty.isPlainData = true)
    {n : Nat} (hn : Layout.locations options ty = .ok n) :
    ∃ id e' tree, (type ty .unlaid).runOn e = (.ok id, e') ∧ e'.target.tree? id = some tree ∧
      tree.locations? = some n := by
  obtain ⟨hsound, rfl⟩ := he.sound
  obtain ⟨tree, htree, hlocations⟩ := Written.exists_ofTy_locations ty {} hplain hn
  have hrealizes : Realizes (type ty .unlaid) e _ IsTree := realizes_ofTy ty .unlaid {} none hsound
  rw [htree] at hrealizes
  obtain ⟨id, e', hrun, hid⟩ := hrealizes.exists_run
  exact ⟨id, e', tree, hrun, hid, hlocations⟩

/-- A structure with a wide vector in its base, a matrix of integers in an order of its own, and an
array of wide matrices behind a typedef. -/
def wideStruct : Ty :=
  .struct "V" (.present (.struct "B" .absent (.cons "d" (.vector .double 3) {} {} .nil)))
    (.cons "m" (.oriented .rowMajor (.matrix .int32 2 3)) {} {}
      (.cons "w" (.array (.alias "W" (.matrix .double 3 4)) (some 2)) {} {} .nil))

theorem locations?_of_wideStruct :
    Emitter.Attained {} afterWideVector ∧ wideStruct.isPlainData = true ∧
    Layout.locations {} wideStruct = .ok 16 ∧
    ∃ id e' tree, (type wideStruct .unlaid).runOn afterWideVector = (.ok id, e') ∧
      e'.target.tree? id = some tree ∧ tree.locations? = some 16 := by
  have hattained : Emitter.Attained {} afterWideVector :=
    .inl (.typeExpecting (.vector .single 5) .std140 none .start)
  have hplain : wideStruct.isPlainData = true := by decide
  have hlocations : Layout.locations {} wideStruct = .ok 16 := by rfl
  exact ⟨hattained, hplain, hlocations, locations?_of_plainData hattained hplain hlocations⟩

end Emit

end ShaderLowering
