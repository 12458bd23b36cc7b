import ShaderLowering.Proofs.Session.Counters
import ShaderLowering.Proofs.Session.Interference

/-!
# Assignments between declarations

The counters of a declaration stay as its creation left them (`Session.counterMap?_run`), so they
are those of its type (`Session.HasCountersOf`).  A declaration of a structure has, below the path
to a member, the counters that a declaration of the member's type has, and assignments between the
two pair them off.
-/

namespace ShaderLowering

open Source (Ty)
open Spirv (VariableId)
open Counter (Path Entry)

namespace Session

variable {s : Session} {id : Nat} {ty : Ty} {stage : Stage} {options : Options}
variable {ops : List Operation} {p q : Path}

/-- No other operation changes the counters of a declaration. -/
theorem counterMap?_run (hs : s.Sound) {ops : List Operation}
    (h : ∀ op ∈ ops, op.id? ≠ some id) : (s.run ops).counterMap? id = s.counterMap? id := by
  induction ops generalizing s with
  | nil => rfl
  | cons op rest ih =>
    have hrest := ih (hs.after op) fun op' hop => h op' (List.mem_cons_of_mem op hop)
    exact hrest.trans (keepsCounters_after hs op id (h op List.mem_cons_self))

/-- A declaration that no operation was about has no counters. -/
theorem counterMap?_run_start (h : ∀ op ∈ ops, op.id? ≠ some id) :
    ((start stage options).run ops).counterMap? id = none :=
  counterMap?_run (sound_start stage options) h

/-- The counters of a declaration are those of a type, and all of them can be rebound. -/
structure HasCountersOf (s : Session) (id : Nat) (ty : Ty) (m : Counter.Map) : Prop where
  counterMap : s.counterMap? id = some m
  paths : m.entries.map (·.path) = ty.counterPaths
  isAlias : ∀ e ∈ m.entries, e.isAlias = true

theorem HasCountersOf.rebindable {m : Counter.Map} (h : s.HasCountersOf id ty m) : m.Rebindable :=
  ⟨h.paths ▸ ty.nodup_counterPaths, h.isAlias⟩

theorem after_declaration (s : Session) (d : LocalDeclaration) :
    s.after (.declaration d) = (d.create.runOn s).2 :=
  congrArg Prod.snd (Lower.runOn_forget d.create s)

/-- Among operations from a session, a declaration is created, and no later one is about it. -/
def Declares (s : Session) (ops : List Operation) (d : LocalDeclaration) : Prop :=
  ∃ before after var, ops = before ++ .declaration d :: after ∧
    (d.create.runOn (s.run before)).1 = .ok var ∧ ∀ op ∈ after, op.id? ≠ some d.id

/-- What is declared and has a counter somewhere has the counters of its type. -/
theorem Declares.hasCountersOf (hs : s.Sound) {d : LocalDeclaration} (h : s.Declares ops d)
    (hq : d.ty.HasCounterAt q) : ∃ m, (s.run ops).HasCountersOf d.id d.ty m := by
  obtain ⟨before, after, var, rfl, hcreate, hafter⟩ := h
  have hs₁ := hs.run before
  obtain ⟨storage, entries, hdeclared⟩ := Lower.declared_of_create hs₁ (Prod.ext hcreate rfl)
  -- a declaration without counters would keep those of an earlier one
  have hmem : q ∈ entries.map (·.path) := hdeclared.paths ▸ Ty.mem_counterPaths_iff.2 hq
  have hnonempty : entries.isEmpty = false := by
    cases entries with
    | nil => cases hmem
    | cons e entries => rfl
  have hmap := hdeclared.counterMap
  rw [hnonempty] at hmap
  refine ⟨⟨entries⟩, ?_, hdeclared.paths, fun e he => (hdeclared.isAliasCounter e he).isAlias⟩
  rw [run_append]
  show (run ((s.run before).after _) after).counterMap? d.id = _
  rw [counterMap?_run (hs₁.after _) hafter, after_declaration]
  exact hmap

/-- **Counter paths compose.**  Let two variables that may alias a buffer be declared, one of a
structure type and one of the type of the member at a path, in which some buffer has a hidden
counter.  Below this path the first one has the counters that the second one has, at the same
relative paths and in the same order, and an assignment in either direction copies one counter for
each of them. -/
theorem assignCounters_member {whole part : LocalDeclaration}
    (hwhole : (start stage options).Declares ops whole)
    (hpart : (start stage options).Declares ops part)
    (hmember : whole.ty.memberAt? p = some part.ty) (hcounter : part.ty.HasCounterAt q) :
    ∃ (m n : Counter.Map) (pairs : List (Entry × Entry)),
      ((start stage options).run ops).counterMap? whole.id = some m ∧
      ((start stage options).run ops).counterMap? part.id = some n ∧
      (m.entries.map (·.path)).filterMap (·.below? p) = n.entries.map (·.path) ∧
      m.Matches n p pairs ∧
      ((start stage options).run ops).assignCounters whole.id p part.id [] =
        .ok (pairs.map fun e => ⟨e.1.counter, e.2.counter⟩) ∧
      ((start stage options).run ops).assignCounters part.id [] whole.id p =
        .ok (pairs.map fun e => ⟨e.2.counter, e.1.counter⟩) := by
  have hs := sound_start stage options
  obtain ⟨n, hn⟩ := hpart.hasCountersOf hs hcounter
  obtain ⟨m, hm⟩ := hwhole.hasCountersOf hs (Ty.HasCounterAt.of_memberAt? hcounter hmember)
  have hpaths : (m.entries.map (·.path)).filterMap (·.below? p) = n.entries.map (·.path) := by
    rw [hm.paths, hn.paths, Ty.filterMap_below?_counterPaths, hmember, Option.elim_some]
  obtain ⟨pairs, hpairs⟩ := Counter.Map.exists_matches hpaths
  refine ⟨m, n, pairs, hm.counterMap, hn.counterMap, hpaths, hpairs, ?_, ?_⟩
  · rw [assignCounters, hm.counterMap, hn.counterMap]
    exact hpairs.assignAt_whole hm.rebindable
  · rw [assignCounters, hm.counterMap, hn.counterMap]
    exact hpairs.assignAt_part hn.rebindable

end Session

/-- A structured buffer of numbers. -/
def numbers (access : Source.StructuredAccess) : Ty :=
  .resource (.structured access) (.present (.scalar .single))

/-- A buffer to append to behind a base structure with another buffer. -/
def queue : Ty :=
  .struct "Queue"
    (.present (.struct "Log" .absent (.cons "log" (numbers .readWrite) {} {} .nil)))
    (.cons "weight" (.scalar .single) {} {} (.cons "out" (numbers .append) {} {} .nil))

/-- A shared variable with a queue behind two other members. -/
def sharedPair : LocalDeclaration :=
  .file
    { id := 1
      name := "pair"
      ty := .struct "Pair" .absent
        (.cons "left" queue {} {} (.cons "in" (numbers .consume) {} {}
          (.cons "right" (.alias "Queue" queue) {} {} .nil)))
      storage := .groupShared }

/-- A parameter that is a queue. -/
def queueParam : LocalDeclaration := .param { id := 2, name := "q", ty := .alias "Queue" queue }

/-- The pair and the parameter, in this order. -/
def queues : List Operation := [.declaration sharedPair, .declaration queueParam]

namespace Session

/-- The queue within the pair is assigned from the parameter and to it. -/
theorem assignCounters_member_queue :
    ((start .compute {}).Declares queues sharedPair ∧
      (start .compute {}).Declares queues queueParam ∧
      sharedPair.ty.memberAt? [2] = some queueParam.ty ∧ queueParam.ty.HasCounterAt [0, 0]) ∧
    (∃ (m n : Counter.Map) (pairs : List (Entry × Entry)),
      ((start .compute {}).run queues).counterMap? sharedPair.id = some m ∧
      ((start .compute {}).run queues).counterMap? queueParam.id = some n ∧
      (m.entries.map (·.path)).filterMap (·.below? [2]) = n.entries.map (·.path) ∧
      m.Matches n [2] pairs ∧
      ((start .compute {}).run queues).assignCounters sharedPair.id [2] queueParam.id [] =
        .ok (pairs.map fun e => ⟨e.1.counter, e.2.counter⟩) ∧
      ((start .compute {}).run queues).assignCounters queueParam.id [] sharedPair.id [2] =
        .ok (pairs.map fun e => ⟨e.2.counter, e.1.counter⟩)) ∧
    ((start .compute {}).run queues).assignCounters sharedPair.id [2] queueParam.id [] =
      .ok [⟨4, 7⟩, ⟨5, 8⟩] := by
  have hwhole : (start .compute {}).Declares queues sharedPair := by
    refine ⟨[], [.declaration queueParam], 0, rfl, by decide +kernel, fun op hop => ?_⟩
    cases List.mem_singleton.1 hop
    decide
  have hpart : (start .compute {}).Declares queues queueParam :=
    ⟨[.declaration sharedPair], [], 6, rfl, by decide +kernel,
      fun _ hop => absurd hop List.not_mem_nil⟩
  have hmember : sharedPair.ty.memberAt? [2] = some queueParam.ty := rfl
  have hcounter : queueParam.ty.HasCounterAt [0, 0] := ⟨numbers .readWrite, rfl, rfl⟩
  exact ⟨⟨hwhole, hpart, hmember, hcounter⟩,
    assignCounters_member hwhole hpart hmember hcounter, by decide +kernel⟩

end Session

end ShaderLowering
