import ShaderLowering.Proofs.Counter.Reach
import ShaderLowering.Proofs.Session.AccessPaths

/-!
# Which buffers get a counter

A declaration of a variable that may alias a buffer makes a counter for every buffer with a hidden
counter that its type reaches through structures alone, and for no other one
(`Session.Declared.makesCounterAt_iff`).  The type of the variable and the question whether the
module has to be legalized look into arrays too, but the counters do not: all buffers have their
counters exactly if none with a hidden counter is in an array
(`Session.coversCounters_iff`).
-/

namespace ShaderLowering

open Source (Ty)
open Spirv (VariableId)
open Counter (Path Entry)

namespace Session

variable {s s' : Session} {stage : Stage} {options : Options}
variable {id : Nat} {ty : Ty} {var : VariableId} {p : Path}

/-- A counter for the buffer at a path of a declaration was made between two sessions: a variable
that points to a counter, in the storage class of the variable of the declaration. -/
def MakesCounterAt (s s' : Session) (id : Nat) (var : VariableId) (p : Path) : Prop :=
  ∃ v e, s'.var? var = some v ∧ s'.counter? id p = some e ∧ s.size ≤ e.counter ∧
    s'.IsAliasCounter v.storage e

/-- Every buffer with a hidden counter that the type of a declaration reaches got a counter. -/
def CoversCounters (s s' : Session) (id : Nat) (ty : Ty) (var : VariableId) : Prop :=
  ∀ p, ty.ReachesCounterAt p → s.MakesCounterAt s' id var p

/-- The counters that a session holds were made before. -/
theorem Sound.counter_lt (hs : s.Sound) {e : Entry} (h : s.counter? id p = some e) :
    e.counter < s.size := by
  obtain ⟨m, hm, he⟩ := Option.bind_eq_some_iff.1 h
  obtain ⟨before, after, hlist, -⟩ := List.lookup_eq_some_iff.1 hm
  have hmem : (id, m) ∈ s.counters := by rw [hlist]; simp
  exact hs.held.counters _ hmem e (List.mem_of_find?_eq_some he)

/-- **The counters are those for the buffers that are reached through structures alone.** -/
theorem Declared.makesCounterAt_iff {storage : Spirv.StorageClass} {entries : List Entry}
    (h : s.Declared s' id ty var storage entries) (hs : s.Sound) :
    s.MakesCounterAt s' id var p ↔ ty.HasCounterAt p := by
  obtain ⟨tree, -, v, hv, hstorage, -⟩ := h.typed
  have hmap := h.counterMap
  rw [← Ty.mem_counterPaths_iff, ← h.paths]
  constructor
  · rintro ⟨v', e, hv', he, hnew, -⟩
    split at hmap
    · -- no counter is new, and those that were there have smaller numbers
      rw [counter?, hmap] at he
      exact absurd (hs.counter_lt he) (Nat.not_lt.2 hnew)
    · rw [counter?, hmap, Option.bind_some] at he
      exact List.mem_map.2 ⟨e, List.mem_of_find?_eq_some he, Counter.Map.path_of_get? he⟩
  · intro hp
    obtain ⟨e, he, rfl⟩ := List.mem_map.1 hp
    have hempty : entries.isEmpty = false :=
      List.isEmpty_eq_false_iff.2 (List.ne_nil_of_mem he)
    rw [hempty, if_neg Bool.false_ne_true] at hmap
    have hget : s'.counter? id e.path = some e := by
      rw [counter?, hmap, Option.bind_some]
      exact Counter.Map.get?_of_mem (h.paths ▸ ty.nodup_counterPaths) he
    have hfresh := Nat.le_of_lt (Nat.lt_of_le_of_lt h.fresh (h.after e he))
    exact ⟨v, e, hv, hget, hfresh, hstorage ▸ h.isAliasCounter e he⟩

/-- **Which buffers get a counter.**  Let a variable that may alias a buffer be declared in any
session.  A buffer with a hidden counter that its type reaches gets a counter, in the storage class
of the variable, exactly if it is reached through structures alone.  So all of them get one exactly
if none is in an array. -/
theorem coversCounters_iff {d : LocalDeclaration} (hs : Session.Reachable stage options s)
    (hcreate : d.create.runOn s = (.ok var, s')) :
    (∀ p, s.MakesCounterAt s' d.id var p ↔ d.ty.HasCounterAt p) ∧
    (s.CoversCounters s' d.id d.ty var ↔ d.ty.exposesCounters = true) := by
  obtain ⟨storage, entries, h⟩ := Lower.declared_of_create hs.sound hcreate
  refine ⟨fun p => h.makesCounterAt_iff hs.sound, ?_⟩
  rw [Ty.exposesCounters_iff]
  exact forall_congr' fun p => imp_congr_right fun _ => h.makesCounterAt_iff hs.sound

end Session

/-! ## Buffers in an array -/

/-- A local variable for two buffers. -/
def bufferPair : LocalDeclaration :=
  .function {
    id := 1, name := "b", ty := .array (numbers .readWrite) (some 2), storage := .function }

namespace Session

/-- The array of buffers is declared, but gets no counter. -/
theorem coversCounters_iff_bufferPair :
    ∃ s', (Session.Reachable .compute {} (start .compute {}) ∧
        bufferPair.create.runOn (start .compute {}) = (.ok 0, s')) ∧
      (∀ p, (start .compute {}).MakesCounterAt s' bufferPair.id 0 p ↔
        bufferPair.ty.HasCounterAt p) ∧
      ¬(start .compute {}).CoversCounters s' bufferPair.id bufferPair.ty 0 := by
  have hanswer : (bufferPair.create.runOn (start .compute {})).1 = .ok 0 := by decide +kernel
  have hcreate := Prod.fst_eq_iff.1 hanswer
  have hcovers := coversCounters_iff .start hcreate
  exact ⟨_, ⟨.start, hcreate⟩, hcovers.1, fun h => absurd (hcovers.2.1 h) (by decide)⟩

/-- The type of the array reaches a buffer with a hidden counter and can be aliased, but the
declaration has no counters at all. -/
theorem not_coversCounters_bufferPair :
    ∃ s', bufferPair.create.runOn (start .compute {}) = (.ok 0, s') ∧
      bufferPair.ty.holdsAliasable = true ∧ bufferPair.ty.ReachesCounterAt [] ∧
      s'.counterMap? bufferPair.id = none ∧
      ¬(start .compute {}).CoversCounters s' bufferPair.id bufferPair.ty 0 := by
  have hanswer : (bufferPair.create.runOn (start .compute {})).1 = .ok 0 := by decide +kernel
  have hreach : bufferPair.ty.ReachesCounterAt [] := ⟨_, _, rfl, rfl⟩
  have hnone :
      ((bufferPair.create.runOn (start .compute {})).2).counterMap? bufferPair.id = none := by
    decide +kernel
  refine ⟨_, Prod.fst_eq_iff.1 hanswer, rfl, hreach, hnone, fun h => ?_⟩
  obtain ⟨_, e, -, he, -⟩ := h [] hreach
  rw [counter?, hnone] at he
  cases he

end Session

end ShaderLowering
