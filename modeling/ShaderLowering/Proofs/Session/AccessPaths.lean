import ShaderLowering.Proofs.Layout.Parts
import ShaderLowering.Proofs.Session.Assignments
import ShaderLowering.Proofs.Spirv.MemberPaths

/-!
# Counter paths as access paths

The numbers of members in a source type are those in the emitted structures: a path to a buffer with
a hidden counter, followed through the type of a variable that aliases the buffer, ends at a pointer
to a buffer block (`Written.isBufferPointer_of_hasCounterAt`).  So the counters that a declaration
brings along are at the places where its variable has such pointers, one for each of them.
-/

namespace ShaderLowering

open Source (Ty OptionalTy Fields Field Record Resource)
open Spirv (TypeTree PartStep VariableId)
open Counter (Path Entry)

/-! ## Paths to members -/

namespace Source

/-- A part of a field is a part of its type. -/
theorem Fields.part?_eq (path : List PartStep) : (fields : Fields) → (i : Nat) →
    fields.part? i path = fields.toList[i]?.bind (·.ty.part? {} path)
  | .nil, _ => rfl
  | .cons _ _ _ _ _, 0 => rfl
  | .cons _ _ _ _ rest, i + 1 => by
    rw [Fields.part?, Fields.part?_eq path rest i, Fields.toList, List.getElem?_cons_succ]

namespace Ty

/-- The base structure and the fields are numbered as the members of the emitted structure are. -/
theorem part?_struct (name : String) (base : OptionalTy) (fields : Fields)
    (o : Layout.Orientation) (i : Nat) (path : List PartStep) :
    (Ty.struct name base fields).part? o (.member i :: path) =
      (Record.parts ⟨name, base, fields⟩)[i]?.bind (·.ty.part? {} path) := by
  rw [Ty.part?, Record.parts]
  cases base with
  | absent =>
    rw [OptionalTy.count, if_neg (Nat.not_lt_zero i), Fields.part?_eq]
    rfl
  | present base =>
    rw [OptionalTy.count]
    cases i with
    | zero =>
      rw [if_pos Nat.zero_lt_one]
      rfl
    | succ i =>
      rw [if_neg (by omega), Fields.part?_eq]
      rfl

theorem part?_nil (ty : Ty) (o : Layout.Orientation) :
    ∃ o', ty.part? o [] = some (ty.shape, o') := by
  induction ty using shape.induct generalizing o with
  | case1 name target ih =>
    rw [Ty.part?]
    exact ih o
  | case2 order target ih =>
    rw [Ty.part?]
    exact ih (o.annotate order)
  | case3 ty halias horiented =>
    rw [shape.eq_3 ty halias horiented]
    cases ty with
    | «alias» name target => exact absurd rfl (halias name target)
    | oriented order target => exact absurd rfl (horiented order target)
    | _ => exact ⟨o, by simp only [Ty.part?]⟩

/-- A step to a member is a step to a part, where no matrix order holds yet. -/
theorem part?_of_member? {ty member : Ty} {i : Nat} (h : ty.member? i = some member)
    (o : Layout.Orientation) (path : List PartStep) :
    ty.part? o (.member i :: path) = member.part? {} path := by
  induction ty using shape.induct generalizing o with
  | case1 name target ih =>
    rw [Ty.part?]
    exact ih h o
  | case2 order target ih =>
    rw [Ty.part?]
    exact ih h (o.annotate order)
  | case3 ty halias horiented =>
    rw [member?, record?, shape.eq_3 ty halias horiented] at h
    cases ty with
    | struct name base fields =>
      obtain ⟨field, hfield, rfl⟩ := Option.map_eq_some_iff.1 h
      rw [part?_struct, hfield, Option.bind_some]
    | _ => cases h

/-- A path to a member is a path to a part. -/
theorem part?_of_memberAt? {p : Path} {ty part : Ty} (h : ty.memberAt? p = some part)
    (o : Layout.Orientation) : ∃ o', ty.part? o (p.map .member) = some (part.shape, o') := by
  induction p generalizing ty o with
  | nil =>
    cases h
    exact part?_nil _ o
  | cons i p ih =>
    obtain ⟨member, hmember, hpart⟩ := Option.bind_eq_some_iff.1 h
    rw [List.map_cons, part?_of_member? hmember o]
    exact ih hpart {}

end Ty

end Source

/-! ## Pointers to buffers -/

namespace Written

variable {options : Options}

/-- A variable for a buffer with a hidden counter is a pointer to a buffer block. -/
theorem ofTy_of_isCounterBuffer {ty : Ty} (h : ty.isCounterBuffer = true) {o : Layout.Orientation}
    {tree : TypeTree} (hwritten : ofTy options ty.shape .unlaid o none = .ok tree) :
    ∃ name members ds,
      tree = .node none (.pointer (.node name (.struct members) ds) .uniform) [] ∧
      Spirv.TypeDecoration.bufferBlock ∈ ds := by
  rw [Ty.isCounterBuffer, Ty.resource?] at h
  cases hshape : ty.shape with
  | resource kind elem =>
    rw [hshape] at h hwritten
    rw [Option.any_some] at h
    cases kind with
    | structured access =>
      rw [ofTy] at hwritten
      cases elem with
      | absent =>
        -- a buffer without an element type cannot be written
        simp only [ofResource] at hwritten
        cases hwritten
      | present elem =>
        simp only [ofResource] at hwritten
        obtain ⟨base, -, hwritten⟩ := bind_eq_ok_iff.1 hwritten
        rw [ofStructured] at hwritten
        obtain ⟨extent, -, hwritten⟩ := bind_eq_ok_iff.1 hwritten
        obtain ⟨matrix, -, hwritten⟩ := bind_eq_ok_iff.1 hwritten
        cases hwritten
        exact ⟨_, _, _, rfl, by simp⟩
    | _ => cases h
  | _ =>
    rw [hshape] at h
    cases h

/-- A path to a buffer with a hidden counter leads from the emitted type to a pointer to a buffer
block. -/
theorem isBufferPointer_of_hasCounterAt {m : Spirv.Module} (hm : m.WellFormed) {ty : Ty}
    {id : Spirv.TypeId} {tree : TypeTree} (hwritten : ofTy options ty .unlaid {} none = .ok tree)
    (htree : m.tree? id = some tree) {p : Path} (h : ty.HasCounterAt p) :
    ∃ pointer, m.memberAt? id p = some pointer ∧ m.IsBufferPointer pointer := by
  -- from the source type to the written one, and from there to the table of the module
  obtain ⟨part, hmember, hcounter⟩ := h
  obtain ⟨o', hpart⟩ := Ty.part?_of_memberAt? hmember {}
  obtain ⟨sub, hsub, hwritten'⟩ := part?_ofTy ty {} _ hwritten hpart
  obtain ⟨pointer, hpointer, htree'⟩ := Spirv.Module.memberAt?_of_part? hm p htree hsub
  obtain ⟨name, members, ds, rfl, hblock⟩ := ofTy_of_isCounterBuffer hcounter hwritten'
  exact ⟨pointer, hpointer, name, members, ds, htree', hblock⟩

end Written

/-! ## The counters of a declaration -/

namespace Session

variable {s' : Session} {stage : Stage} {options : Options}

/-- The counters of a declaration, in order. -/
def countersOf (s : Session) (id : Nat) : List Entry := (s.counterMap? id).elim [] (·.entries)

theorem Declared.countersOf {s : Session} {id : Nat} {ty : Ty} {var : VariableId}
    {storage : Spirv.StorageClass} {entries : List Entry}
    (h : s.Declared s' id ty var storage entries) (hnone : s.counterMap? id = none) :
    s'.countersOf id = entries := by
  rw [Session.countersOf, h.counterMap, hnone]
  cases entries <;> rfl

/-- **Counter paths are access paths.**  Let a variable that may alias a buffer be declared, after
any operations none of which is about this declaration.  Followed through the members of the type of
the variable, the path of each of its counters ends at a pointer to a buffer block.  Conversely
there is one counter for every path through members of the source type that ends at a buffer with a
hidden counter.  Each counter is a new variable, which points to a counter, in the storage class of
the variable. -/
theorem counters_of_create {ops : List Operation} {d : LocalDeclaration} {var : VariableId}
    (hunused : ∀ op ∈ ops, op.id? ≠ some d.id)
    (hcreate : d.create.runOn ((start stage options).run ops) = (.ok var, s')) :
    ∃ v, s'.var? var = some v ∧
      (∀ e ∈ s'.countersOf d.id, ∃ pointer,
        s'.emitter.target.memberAt? v.ty e.path = some pointer ∧
        s'.emitter.target.IsBufferPointer pointer) ∧
      (∀ q, (d.ty.HasCounterAt q → ((s'.countersOf d.id).map (·.path)).count q = 1) ∧
        (¬d.ty.HasCounterAt q → q ∉ (s'.countersOf d.id).map (·.path))) ∧
      (∀ e ∈ s'.countersOf d.id, ((start stage options).run ops).size ≤ e.counter ∧
        s'.IsAliasCounter v.storage e) ∧
      (var :: (s'.countersOf d.id).map (·.counter)).Nodup := by
  have hs := (sound_start stage options).run ops
  obtain ⟨storage, entries, h⟩ := Lower.declared_of_create hs hcreate
  rw [h.countersOf (counterMap?_run_start hunused), h.paths]
  have hs' : s'.Sound := by
    have hafter := hs.after (.declaration d)
    rw [after_declaration, hcreate] at hafter
    exact hafter
  -- the type of the variable is what is written for the declared one
  obtain ⟨tree, hwritten, v, hv, rfl, htree⟩ := h.typed
  refine ⟨v, hv, fun e he => ?_, fun q => ⟨fun hq => ?_, fun hq => ?_⟩, fun e he => ⟨?_, ?_⟩, ?_⟩
  · have hpath : e.path ∈ d.ty.counterPaths := h.paths ▸ List.mem_map_of_mem he
    exact Written.isBufferPointer_of_hasCounterAt hs'.emitter.wellFormed hwritten htree
      (Ty.mem_counterPaths_iff.1 hpath)
  · exact List.count_eq_one_of_mem d.ty.nodup_counterPaths (Ty.mem_counterPaths_iff.2 hq)
  · exact fun hmem => hq (Ty.mem_counterPaths_iff.1 hmem)
  · exact Nat.le_of_lt (Nat.lt_of_le_of_lt h.fresh (h.after e he))
  · exact h.isAliasCounter e he
  · -- counters are made after the variable, one after the other
    refine List.nodup_cons.2 ⟨fun hmem => ?_, ?_⟩
    · obtain ⟨e, he, heq⟩ := List.mem_map.1 hmem
      exact absurd (h.after e he) (heq ▸ Nat.lt_irrefl _)
    · exact List.pairwise_map.2 (h.distinct.imp fun hlt => Nat.ne_of_lt hlt)

/-- A shared variable that holds five buffers, declared after a parameter. -/
theorem counters_of_create_sharedPair :
    (∀ op ∈ [Operation.declaration queueParam], op.id? ≠ some sharedPair.id) ∧
    ∃ s', sharedPair.create.runOn ((start .compute {}).run [.declaration queueParam]) =
        (.ok 3, s') ∧
      (∃ v, s'.var? 3 = some v ∧
        (∀ e ∈ s'.countersOf sharedPair.id, ∃ pointer,
          s'.emitter.target.memberAt? v.ty e.path = some pointer ∧
          s'.emitter.target.IsBufferPointer pointer) ∧
        (∀ q, (sharedPair.ty.HasCounterAt q →
            ((s'.countersOf sharedPair.id).map (·.path)).count q = 1) ∧
          (¬sharedPair.ty.HasCounterAt q → q ∉ (s'.countersOf sharedPair.id).map (·.path))) ∧
        (∀ e ∈ s'.countersOf sharedPair.id,
          ((start .compute {}).run [.declaration queueParam]).size ≤ e.counter ∧
          s'.IsAliasCounter v.storage e) ∧
        (3 :: (s'.countersOf sharedPair.id).map (·.counter)).Nodup) ∧
      (s'.countersOf sharedPair.id).map (·.path) =
        [[0, 0, 0], [0, 2], [1], [2, 0, 0], [2, 2]] := by
  have hunused : ∀ op ∈ [Operation.declaration queueParam], op.id? ≠ some sharedPair.id := by
    intro op hop
    cases List.mem_singleton.1 hop
    decide
  have hanswer : (sharedPair.create.runOn
      ((start .compute {}).run [.declaration queueParam])).1 = .ok 3 := by decide +kernel
  have hcreate := Prod.fst_eq_iff.1 hanswer
  exact ⟨hunused, _, hcreate, counters_of_create hunused hcreate, by decide +kernel⟩

end Session

end ShaderLowering
