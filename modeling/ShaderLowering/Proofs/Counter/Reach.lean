import ShaderLowering.Proofs.Counter.Paths

/-!
# Resources that a type reaches

A type reaches a resource through typedef names, matrix orders, arrays, structures and base
structures.  A path to it leads through the members of structures, and an array has the members of
its elements (`Ty.reach?`).  A path of `Ty.HasCounterAt` does not lead through arrays: it finds every
buffer with a hidden counter that the type reaches exactly if no such buffer is in an array
(`Ty.exposesCounters_iff`).
-/

namespace ShaderLowering

namespace Source

open Counter (Path)

/-! ## Induction along the members -/

theorem Fields.forall_parts {motive : Ty → Prop} (fields : Fields)
    (h : ∀ part ∈ fields.toList, motive part.ty) {base : OptionalTy}
    (hbase : ∀ ty, base = .present ty → motive ty) (name : String) :
    ∀ part ∈ Record.parts ⟨name, base, fields⟩, motive part.ty := by
  cases base with
  | absent => exact h
  | present ty => exact List.forall_mem_cons.2 ⟨hbase ty rfl, h⟩

/-- Induction on a type: what holds of all members of a structure, its base structure among them,
holds of the structure. -/
@[elab_as_elim]
theorem Ty.inductionOnParts {motive : Ty → Prop} (ty : Ty)
    (void : motive .void)
    (scalar : ∀ elem, motive (.scalar elem))
    (vector : ∀ elem count, motive (.vector elem count))
    (matrix : ∀ elem rows cols, motive (.matrix elem rows cols))
    (array : ∀ elem length, motive elem → motive (.array elem length))
    (struct : ∀ name base fields,
      (∀ part ∈ Record.parts ⟨name, base, fields⟩, motive part.ty) →
      motive (.struct name base fields))
    (resource : ∀ kind elem, motive (.resource kind elem))
    («alias» : ∀ name target, motive target → motive (.alias name target))
    (oriented : ∀ order target, motive target → motive (.oriented order target)) : motive ty := by
  refine @Ty.rec motive (fun base => ∀ ty, base = .present ty → motive ty)
    (fun fields => ∀ part ∈ fields.toList, motive part.ty)
    void scalar vector matrix array ?_ (fun kind elem _ => resource kind elem) «alias» oriented
    ?_ ?_ ?_ ?_ ty
  · exact fun name base fields hbase hfields =>
      struct name base fields (fields.forall_parts hfields hbase name)
  · exact nofun
  · rintro _ hty _ ⟨⟩
    exact hty
  · exact fun _ h => absurd h List.not_mem_nil
  · exact fun _ _ _ _ _ hty hrest => List.forall_mem_cons.2 ⟨hty, hrest⟩

/-! ## Reaching a resource -/

/-- The type below all typedef names, matrix orders and arrays. -/
def Ty.innermost : Ty → Ty
  | .alias _ target | .oriented _ target => target.innermost
  | .array elem _ => elem.innermost
  | ty => ty

/-- The member at the end of a path, where an array has the members of its elements. -/
def Ty.reach? : Ty → Path → Option Ty
  | ty, [] => some ty.innermost
  | ty, i :: path => (ty.innermost.member? i).bind fun part => part.reach? path

/-- A path leads to a resource of some kinds. -/
def Ty.ReachesAt (kinds : Resource → Bool) (ty : Ty) (path : Path) : Prop :=
  ∃ kind elem, ty.reach? path = some (.resource kind elem) ∧ kinds kind = true

/-- A path leads to a buffer with a hidden counter, in an array or not. -/
def Ty.ReachesCounterAt (ty : Ty) (path : Path) : Prop := ty.ReachesAt (·.hasCounter) path

mutual

/-- Whether some path leads to a resource of some kinds. -/
def Ty.reaches (kinds : Resource → Bool) : Ty → Bool
  | .alias _ target | .oriented _ target => target.reaches kinds
  | .array elem _ => elem.reaches kinds
  | .struct _ base fields => base.reaches kinds || fields.reach kinds
  | .resource kind _ => kinds kind
  | _ => false

/-- Whether some path leads from the type, if present, to a resource of some kinds. -/
def OptionalTy.reaches (kinds : Resource → Bool) : OptionalTy → Bool
  | .absent => false
  | .present ty => ty.reaches kinds

/-- Whether some path leads from a field to a resource of some kinds. -/
def Fields.reach (kinds : Resource → Bool) : Fields → Bool
  | .nil => false
  | .cons _ ty _ _ rest => ty.reaches kinds || rest.reach kinds

end

mutual

/-- Whether no buffer with a hidden counter is in an array. -/
def Ty.exposesCounters : Ty → Bool
  | .alias _ target | .oriented _ target => target.exposesCounters
  | .array elem _ => !elem.reaches (·.hasCounter)
  | .struct _ base fields => base.exposesCounters && fields.exposeCounters
  | _ => true

/-- Whether the type, if present, has no buffer with a hidden counter in an array. -/
def OptionalTy.exposesCounters : OptionalTy → Bool
  | .absent => true
  | .present ty => ty.exposesCounters

/-- Whether no field has a buffer with a hidden counter in an array. -/
def Fields.exposeCounters : Fields → Bool
  | .nil => true
  | .cons _ ty _ _ rest => ty.exposesCounters && rest.exposeCounters

end

theorem Fields.reach_eq (kinds : Resource → Bool) (fields : Fields) :
    fields.reach kinds = fields.toList.any (·.ty.reaches kinds) := by
  cases fields with
  | nil => rfl
  | cons _ _ _ _ rest => rw [reach, reach_eq kinds rest, toList, List.any_cons]

theorem Fields.exposeCounters_eq (fields : Fields) :
    fields.exposeCounters = fields.toList.all (·.ty.exposesCounters) := by
  cases fields with
  | nil => rfl
  | cons _ _ _ _ rest => rw [exposeCounters, exposeCounters_eq rest, toList, List.all_cons]

namespace Ty

variable {kinds : Resource → Bool} {name : String} {base : OptionalTy} {fields : Fields}
variable {ty elem target : Ty} {length : Option Nat} {p : Path} {i : Nat}

theorem reaches_struct : (Ty.struct name base fields).reaches kinds =
    (Record.parts ⟨name, base, fields⟩).any (·.ty.reaches kinds) := by
  rw [reaches, Fields.reach_eq, Record.parts]
  cases base with
  | absent => rfl
  | present base => rw [OptionalTy.reaches, List.any_cons]

theorem exposesCounters_struct : (Ty.struct name base fields).exposesCounters =
    (Record.parts ⟨name, base, fields⟩).all (·.ty.exposesCounters) := by
  rw [exposesCounters, Fields.exposeCounters_eq, Record.parts]
  cases base with
  | absent => rfl
  | present base => rw [OptionalTy.exposesCounters, List.all_cons]

/-! ## Paths through the constructors -/

theorem reachesAt_alias : (Ty.alias name target).ReachesAt kinds p ↔ target.ReachesAt kinds p := by
  cases p <;> exact .rfl

theorem reachesAt_oriented {order : MatrixOrder} :
    (Ty.oriented order target).ReachesAt kinds p ↔ target.ReachesAt kinds p := by
  cases p <;> exact .rfl

theorem reachesAt_array : (Ty.array elem length).ReachesAt kinds p ↔ elem.ReachesAt kinds p := by
  cases p <;> exact .rfl

theorem reachesAt_struct : (Ty.struct name base fields).ReachesAt kinds p ↔
    ∃ i rest part, p = i :: rest ∧ (Record.parts ⟨name, base, fields⟩)[i]? = some part ∧
      part.ty.ReachesAt kinds rest := by
  cases p with
  | nil =>
    constructor
    · rintro ⟨kind, elem, hreach, -⟩
      cases hreach
    · rintro ⟨i, rest, part, hp, -⟩
      cases hp
  | cons i rest =>
    constructor
    · rintro ⟨kind, elem, hreach, hkind⟩
      obtain ⟨member, hmember, hreach⟩ := Option.bind_eq_some_iff.1 hreach
      obtain ⟨part, hpart, rfl⟩ := Option.map_eq_some_iff.1 hmember
      exact ⟨i, rest, part, rfl, hpart, kind, elem, hreach, hkind⟩
    · rintro ⟨_, _, part, ⟨⟩, hpart, kind, elem, hreach, hkind⟩
      refine ⟨kind, elem, Option.bind_eq_some_iff.2 ⟨part.ty, ?_, hreach⟩, hkind⟩
      exact Option.map_eq_some_iff.2 ⟨part, hpart, rfl⟩

theorem reachesAt_resource {kind : Resource} {elem : OptionalTy} :
    (Ty.resource kind elem).ReachesAt kinds p ↔ p = [] ∧ kinds kind = true := by
  cases p with
  | nil =>
    constructor
    · rintro ⟨_, _, ⟨⟩, hkind⟩
      exact ⟨rfl, hkind⟩
    · exact fun h => ⟨kind, elem, rfl, h.2⟩
  | cons i rest =>
    constructor
    · rintro ⟨_, _, ⟨⟩, -⟩
    · rintro ⟨⟨⟩, -⟩

/-- Numbers and the void reach nothing. -/
theorem not_reachesAt_of_leaf (hleaf : ty.innermost = ty) (hrecord : ty.record? = none)
    (hresource : ∀ kind elem, ty ≠ .resource kind elem) : ¬ty.ReachesAt kinds p := by
  rintro ⟨kind, elem, hreach, -⟩
  cases p with
  | nil =>
    rw [reach?, hleaf] at hreach
    exact hresource kind elem (Option.some.inj hreach)
  | cons i rest =>
    rw [reach?, hleaf, member?, hrecord] at hreach
    cases hreach

/-! ## Every resource is at the end of a path -/

/-- **A type reaches a resource of some kinds if some path leads to one.** -/
theorem reaches_iff (ty : Ty) : ty.reaches kinds = true ↔ ∃ p, ty.ReachesAt kinds p := by
  have hnothing : ∀ {ty : Ty}, ty.reaches kinds = false → (∀ p, ¬ty.ReachesAt kinds p) →
      (ty.reaches kinds = true ↔ ∃ p, ty.ReachesAt kinds p) := fun hreaches hpath => by
    rw [hreaches]
    exact ⟨nofun, fun ⟨p, hp⟩ => absurd hp (hpath p)⟩
  induction ty using inductionOnParts with
  | void | scalar | vector | matrix =>
    exact hnothing rfl fun p => not_reachesAt_of_leaf rfl rfl nofun
  | array elem length ih =>
    rw [reaches]
    exact ih.trans (exists_congr fun p => reachesAt_array.symm)
  | struct name base fields ih =>
    rw [reaches_struct, List.any_eq_true]
    constructor
    · rintro ⟨part, hpart, hreaches⟩
      obtain ⟨i, hi⟩ := List.mem_iff_getElem?.1 hpart
      obtain ⟨rest, hrest⟩ := (ih part hpart).1 hreaches
      exact ⟨i :: rest, reachesAt_struct.2 ⟨i, rest, part, rfl, hi, hrest⟩⟩
    · rintro ⟨p, hp⟩
      obtain ⟨i, rest, part, -, hi, hrest⟩ := reachesAt_struct.1 hp
      have hpart := List.mem_of_getElem? hi
      exact ⟨part, hpart, (ih part hpart).2 ⟨rest, hrest⟩⟩
  | resource kind elem =>
    rw [reaches]
    exact ⟨fun h => ⟨[], reachesAt_resource.2 ⟨rfl, h⟩⟩, fun ⟨_, hp⟩ => (reachesAt_resource.1 hp).2⟩
  | «alias» name target ih =>
    rw [reaches]
    exact ih.trans (exists_congr fun p => reachesAt_alias.symm)
  | oriented order target ih =>
    rw [reaches]
    exact ih.trans (exists_congr fun p => reachesAt_oriented.symm)

/-! ## Paths that lead through no array -/

theorem hasCounterAt_of_member? {member : Ty} {i : Nat} (h : ty.member? i = some member) :
    ty.HasCounterAt (i :: p) ↔ member.HasCounterAt p := by
  rw [HasCounterAt, memberAt?, h, Option.bind_some, HasCounterAt]

theorem hasCounterAt_alias {name : String} {target : Ty} :
    (Ty.alias name target).HasCounterAt p ↔ target.HasCounterAt p := by
  rw [← mem_counterPaths_iff, ← mem_counterPaths_iff, counterPaths, counterPaths, counterSites]

theorem hasCounterAt_oriented {order : MatrixOrder} {target : Ty} :
    (Ty.oriented order target).HasCounterAt p ↔ target.HasCounterAt p := by
  rw [← mem_counterPaths_iff, ← mem_counterPaths_iff, counterPaths, counterPaths, counterSites]

theorem not_hasCounterAt_array {elem : Ty} {length : Option Nat} :
    ¬(Ty.array elem length).HasCounterAt p := by
  rw [← mem_counterPaths_iff, counterPaths]
  simp [counterSites]

theorem hasCounterAt_struct {name : String} {base : OptionalTy} {fields : Fields} :
    (Ty.struct name base fields).HasCounterAt p ↔
      ∃ i rest part, p = i :: rest ∧ (Record.parts ⟨name, base, fields⟩)[i]? = some part ∧
        part.ty.HasCounterAt rest := by
  cases p with
  | nil =>
    constructor
    · rintro ⟨_, ⟨⟩, hcounter⟩
      cases hcounter
    · rintro ⟨_, _, _, ⟨⟩, -⟩
  | cons i rest =>
    constructor
    · rintro ⟨part, hpart, hcounter⟩
      obtain ⟨member, hmember, hpart⟩ := Option.bind_eq_some_iff.1 hpart
      obtain ⟨field, hfield, rfl⟩ := Option.map_eq_some_iff.1 hmember
      exact ⟨i, rest, field, rfl, hfield, part, hpart, hcounter⟩
    · rintro ⟨_, _, field, ⟨⟩, hfield, hcounter⟩
      have hmember : (Ty.struct name base fields).member? i = some field.ty :=
        Option.map_eq_some_iff.2 ⟨field, hfield, rfl⟩
      exact (hasCounterAt_of_member? hmember).2 hcounter

theorem hasCounterAt_resource {kind : Resource} {elem : OptionalTy} :
    (Ty.resource kind elem).HasCounterAt p ↔ p = [] ∧ kind.hasCounter = true := by
  rw [← mem_counterPaths_iff, counterPaths, counterSites]
  cases kind.hasCounter <;> simp

/-- **Every buffer with a hidden counter that a type reaches is reached through structures alone
exactly if none is in an array.** -/
theorem exposesCounters_iff (ty : Ty) :
    ty.exposesCounters = true ↔ ∀ p, ty.ReachesCounterAt p → ty.HasCounterAt p := by
  induction ty using inductionOnParts with
  | void | scalar | vector | matrix =>
    rw [exposesCounters]
    · exact ⟨fun _ p hp => absurd hp (not_reachesAt_of_leaf rfl rfl nofun), fun _ => rfl⟩
    all_goals nofun
  | array elem length ih =>
    rw [exposesCounters, Bool.not_eq_true', Bool.eq_false_iff, ne_eq, reaches_iff]
    -- a path through an array has no counter, so the elements may not reach any buffer
    refine ⟨fun h p hp => absurd ⟨p, reachesAt_array.1 hp⟩ h, fun h => ?_⟩
    rintro ⟨p, hp⟩
    exact not_hasCounterAt_array (h p (reachesAt_array.2 hp))
  | struct name base fields ih =>
    rw [exposesCounters_struct, List.all_eq_true]
    constructor
    · intro h p hp
      obtain ⟨i, rest, part, hp, hpart, hreach⟩ := reachesAt_struct.1 hp
      have hmem := List.mem_of_getElem? hpart
      have hcounter := (ih part hmem).1 (h part hmem) rest hreach
      exact hasCounterAt_struct.2 ⟨i, rest, part, hp, hpart, hcounter⟩
    · intro h part hmem
      obtain ⟨i, hpart⟩ := List.mem_iff_getElem?.1 hmem
      refine (ih part hmem).2 fun p hp => ?_
      have hcounter := h (i :: p) (reachesAt_struct.2 ⟨i, p, part, rfl, hpart, hp⟩)
      obtain ⟨_, _, part', ⟨⟩, hpart', hcounter⟩ := hasCounterAt_struct.1 hcounter
      cases hpart.symm.trans hpart'
      exact hcounter
  | resource kind elem =>
    rw [exposesCounters]
    · refine ⟨fun _ p hp => hasCounterAt_resource.2 (reachesAt_resource.1 hp), fun _ => rfl⟩
    all_goals nofun
  | «alias» name target ih =>
    rw [exposesCounters]
    exact ih.trans (forall_congr' fun p => imp_congr reachesAt_alias.symm hasCounterAt_alias.symm)
  | oriented order target ih =>
    rw [exposesCounters]
    exact ih.trans
      (forall_congr' fun p => imp_congr reachesAt_oriented.symm hasCounterAt_oriented.symm)

end Ty

end Source

end ShaderLowering
