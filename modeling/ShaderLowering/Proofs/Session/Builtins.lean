import ShaderLowering.Proofs.Distance.Owners
import ShaderLowering.Proofs.Session.Discipline
import ShaderLowering.Proofs.Session.Distances

/-!
# One variable for each builtin

A builtin has one variable in a storage class, however often it is declared, because the session
looks its variables up by builtin and direction before it makes one.  Arrays of distances are
different: an entry point makes those that it needs and does not look for them.  So there is a
second one exactly if an entry point is lowered when there are arrays (`Session.PacksOnce`).
-/

namespace ShaderLowering

open ShaderLowering.Action (Total total_pure total_get total_modify)
open Source (EntryPoint Param)
open Spirv (VariableId VariableDecoration Builtin StorageClass)

namespace Session

/-! ## Variables for builtins -/

/-- The variable with a number stands for a builtin in a storage class. -/
def Provides (s : Session) (id : VariableId) (b : Builtin) (c : StorageClass) : Prop :=
  ∃ v, s.var? id = some v ∧ v.Provides b c

instance (v : Spirv.Variable) (b : Builtin) (c : StorageClass) : Decidable (v.Provides b c) :=
  inferInstanceAs (Decidable (_ ∧ _))

instance (s : Session) (id : VariableId) (b : Builtin) (c : StorageClass) :
    Decidable (s.Provides id b c) :=
  decidable_of_iff ((s.var? id).any (fun v => v.Provides b c) = true) <| by
    rw [Option.any_eq_true, Provides]
    simp only [decide_eq_true_eq]

/-- There is one variable at most for a builtin in a storage class. -/
def UniqueFor (s : Session) (b : Builtin) (c : StorageClass) : Prop :=
  ∀ id id', s.Provides id b c → s.Provides id' b c → id = id'

/-- What is to hold of the builtins of a session: there is one variable at most for each of them in
a storage class, and it is the one that listed variables and accesses to distances refer to. -/
structure BuiltinsUnique (s : Session) : Prop where
  unique : ∀ b c, s.UniqueFor b c
  listed : ∀ u ∈ s.interface, ∀ b, u.builtin = some b → s.Provides u.var b u.direction.storage
  accessed : ∀ direction kind index invocation a,
    s.access? direction kind index invocation = some a →
      s.Provides a.var kind.builtin direction.storage

variable {standard packing : Prop} {s s' : Session} {id : VariableId} {b : Builtin}
  {c : StorageClass}

theorem provides_congr (h : s'.emitter.target.variables = s.emitter.target.variables) :
    s'.Provides id b c ↔ s.Provides id b c := by
  rw [Provides, Provides, var?, var?, h]

theorem provides_adding_iff {v : Spirv.Variable} :
    (s.adding v).Provides id b c ↔ s.Provides id b c ∨ id = s.size ∧ v.Provides b c := by
  rw [Provides, var?_adding]
  split
  · rename_i hid
    constructor
    · rintro ⟨_, ⟨⟩, hv⟩
      exact .inr ⟨hid, hv⟩
    · rintro (⟨w, hw, -⟩ | ⟨-, hv⟩)
      · exact absurd (lt_size_of_var? hw) (hid ▸ Nat.lt_irrefl _)
      · exact ⟨v, rfl, hv⟩
  · rename_i hid
    exact ⟨.inl, fun h => h.resolve_right fun hnew => hid hnew.1⟩

/-- No decoration that is added later is a builtin. -/
theorem provides_of_decorated {j : VariableId} {d : VariableDecoration} (hd : ∀ b, d ≠ .builtin b)
    (h : (s.decorated id [d]).Provides j b c) : s.Provides j b c := by
  obtain ⟨v', hv', hstorage, hmem⟩ := h
  rw [var?_decorated] at hv'
  obtain ⟨v, hv, rfl⟩ := Option.map_eq_some_iff.1 hv'
  refine ⟨v, hv, hstorage, (List.mem_append.1 hmem).resolve_right fun hnew => ?_⟩
  split at hnew
  · exact hd b (List.mem_singleton.1 hnew).symm
  · cases hnew

theorem Provides.continues (h : s.Provides id b c) (hs : s.Continues s') :
    s'.Provides id b c := by
  obtain ⟨v, hv, hstorage, hmem⟩ := h
  obtain ⟨_, hv', more, rfl⟩ := hs.emitter.target.kept id v hv
  exact ⟨v.gaining more, hv', hstorage, List.mem_append_left _ hmem⟩

theorem Provides.lt_size (h : s.Provides id b c) : id < s.size := by
  obtain ⟨v, hv, -⟩ := h
  exact lt_size_of_var? hv

/-- No variable is ever taken away. -/
theorem UniqueFor.of_continues (h : s'.UniqueFor b c) (hs : s.Continues s') : s.UniqueFor b c :=
  fun id id' hid hid' => h id id' (hid.continues hs) (hid'.continues hs)

/-- The array of a packing is for its direction and kind. -/
theorem Sound.provides_array (hs : s.Sound) {direction : Direction} {kind : DistanceKind}
    (hid : (s.distances.get direction kind).var = some id) :
    s.Provides id kind.builtin direction.storage := by
  obtain ⟨v, -, hv, hstorage, hmem, -⟩ :=
    (hs.distances direction kind).array List.not_mem_nil id hid
  exact ⟨v, hv, hstorage, hmem⟩

/-! ## Steps -/

/-- **A variable for a builtin** was there before, is an array of distances, or is remembered from
now on. -/
theorem Step.provides (h : s.Step standard packing s') (hid : s'.Provides id b c) :
    s.Provides id b c ∨
    (packing ∧ ∃ (kind : DistanceKind) (direction : Direction),
      b = kind.builtin ∧ c = direction.storage) ∨
    ∃ point : SignaturePoint, (∀ kind : DistanceKind, b ≠ kind.builtin) ∧
      c = point.direction.storage ∧
      s'.builtins = ((b, point.direction), (id, point)) :: s.builtins := by
  have hunplaced : ∀ v : Spirv.Variable, v.IsUnplaced → (s.adding v).Provides id b c →
      s.Provides id b c := fun v hv hid =>
    (provides_adding_iff.1 hid).resolve_right fun hnew => hv.not_mem rfl hnew.2.2
  cases h with
  | emission h => exact .inl ((provides_congr h.target.sameVariables).1 hid)
  | note emitter => exact .inl ((provides_congr (emitter ▸ rfl)).1 hid)
  | recorded | repacked | listed | place => exact .inl hid
  | internal _ hv | located _ _ _ hv | resource _ _ hv | pushConstant _ _ hv =>
    exact .inl (hunplaced _ hv hid)
  | packed hpacking hstorage hv =>
    refine (provides_adding_iff.1 hid).imp_right fun hnew => .inl ⟨hpacking, ?_⟩
    cases hv.mem_iff.1 hnew.2.2
    exact ⟨_, _, rfl, hnew.2.1.symm.trans hstorage⟩
  | builtin hnew hkind hstorage hv =>
    refine (provides_adding_iff.1 hid).imp_right fun hprovides => .inr ?_
    obtain ⟨rfl, hclass, hmem⟩ := hprovides
    cases hv.mem_iff.1 hmem
    exact ⟨_, hkind, hclass.symm.trans hstorage, rfl⟩
  | locate hu hbuiltin location =>
    exact .inl (provides_of_decorated (d := .location location) (fun _ => nofun) hid)
  | bind _ hd => exact .inl (provides_of_decorated (fun b h => by rw [h] at hd; cases hd) hid)

/-- What is remembered is never replaced. -/
theorem Step.lookup_builtins (h : s.Step standard packing s') {key : Builtin × Direction}
    {r : VariableId × SignaturePoint} (hr : s.builtins.lookup key = some r) :
    s'.builtins.lookup key = some r := by
  cases h with
  | emission | recorded | internal | packed | repacked | listed | located | resource
  | pushConstant | place | locate | bind => exact hr
  | note _ _ builtins => exact builtins ▸ hr
  | @builtin v b' point hnew =>
    show List.lookup key (((b', point.direction), _) :: s.builtins) = _
    rw [List.lookup_cons]
    split
    · rename_i hkey
      rw [beq_iff_eq.1 hkey, hnew] at hr
      cases hr
    · exact hr

/-- Without packing, all packings keep their arrays. -/
theorem Step.var_distances (h : s.Step standard False s') (direction : Direction)
    (kind : DistanceKind) :
    (s'.distances.get direction kind).var = (s.distances.get direction kind).var := by
  cases h with
  | emission | internal | builtin | listed | located | resource | pushConstant | place | locate
  | bind => rfl
  | note _ _ _ distances => rw [distances]
  | recorded ha =>
    obtain ⟨declared, -, hget⟩ := ha direction kind
    rw [hget]
  | packed hpacking => exact hpacking.elim
  | repacked hpacking => exact hpacking.elim

/-- Without packing, all arrays keep their owners. -/
theorem Step.owned (h : s.Step standard False s') (hs : s.emitter.Owned s.distances) :
    s'.emitter.Owned s'.distances := by
  intro direction kind id v hv hprovides
  rw [h.var_distances]
  rcases h.provides ⟨v, hv, hprovides⟩ with ⟨w, hw, hold⟩ | ⟨⟨⟩, -⟩ | ⟨_, hkind, -⟩
  · exact hs direction kind id w hw hold
  · exact absurd rfl (hkind kind)

theorem var_distances_of_steps (h : Relation.ReflTransGen (Step standard False) s s')
    (direction : Direction) (kind : DistanceKind) :
    (s'.distances.get direction kind).var = (s.distances.get direction kind).var :=
  of_steps
    (P := fun t => (t.distances.get direction kind).var = (s.distances.get direction kind).var)
    (fun _ _ hstep ht => (hstep.var_distances direction kind).trans ht) h rfl

theorem owned_of_steps (h : Relation.ReflTransGen (Step standard False) s s')
    (hs : s.emitter.Owned s.distances) : s'.emitter.Owned s'.distances :=
  of_steps (P := fun t => t.emitter.Owned t.distances) (fun _ _ hstep => hstep.owned) h hs

/-! ## Remembered builtins -/

/-- Variables for builtins are arrays of distances, or remembered as what they are. -/
def Remembers (s : Session) : Prop :=
  ∀ id b c, s.Provides id b c →
    (∃ (kind : DistanceKind) (direction : Direction), b = kind.builtin ∧ c = direction.storage) ∨
    ∃ direction point, c = direction.storage ∧
      s.builtins.lookup (b, direction) = some (id, point)

theorem Step.remembers (h : s.Step standard packing s') (hs : s.Remembers) : s'.Remembers := by
  intro id b c hid
  rcases h.provides hid with hold | ⟨-, hdistance⟩ | ⟨point, -, hclass, hbuiltins⟩
  · refine (hs id b c hold).imp_right ?_
    rintro ⟨direction, point, hclass, hlookup⟩
    exact ⟨direction, point, hclass, h.lookup_builtins hlookup⟩
  · exact .inl hdistance
  · refine .inr ⟨point.direction, point, hclass, ?_⟩
    rw [hbuiltins, List.lookup_cons_self]

theorem remembers_run (stage : Stage) (options : Options) (ops : List Operation) :
    ((start stage options).run ops).Remembers :=
  run_of_step (P := Remembers) (fun _ _ h hs => h.remembers hs) ops
    (fun _ _ (h : False) => h.elim) fun _ _ _ ⟨_, hv, _⟩ => by cases hv

/-- What is remembered is unique. -/
theorem Remembers.uniqueFor (hs : s.Remembers) (hb : ∀ kind : DistanceKind, b ≠ kind.builtin) :
    s.UniqueFor b c := by
  intro id id' hid hid'
  have hlookup := (hs id b c hid).resolve_left fun ⟨kind, _, hkind, _⟩ => hb kind hkind
  have hlookup' := (hs id' b c hid').resolve_left fun ⟨kind, _, hkind, _⟩ => hb kind hkind
  obtain ⟨direction, point, rfl, h⟩ := hlookup
  obtain ⟨direction', point', hclass, h'⟩ := hlookup'
  cases Direction.storage_inj.1 hclass
  cases h.symm.trans h'
  rfl

/-- So are arrays of distances, if all have owners. -/
theorem Remembers.unique_of_owned (hs : s.Remembers) (howned : s.emitter.Owned s.distances)
    (b : Builtin) (c : StorageClass) : s.UniqueFor b c := by
  by_cases hb : ∃ kind : DistanceKind, b = kind.builtin
  · obtain ⟨kind, rfl⟩ := hb
    intro id id' hid hid'
    have hclass : ∃ direction : Direction, c = direction.storage := by
      rcases hs id _ c hid with ⟨_, direction, -, hclass⟩ | ⟨direction, _, hclass, -⟩
      · exact ⟨direction, hclass⟩
      · exact ⟨direction, hclass⟩
    obtain ⟨direction, rfl⟩ := hclass
    -- the packing of the kind and direction owns both
    obtain ⟨v, hv, hprovides⟩ := hid
    obtain ⟨v', hv', hprovides'⟩ := hid'
    have howner := (howned direction kind id v hv hprovides).2
    have howner' := (howned direction kind id' v' hv' hprovides').2
    exact Option.some.inj (howner.symm.trans howner')
  · exact hs.uniqueFor fun kind hkind => hb ⟨kind, hkind⟩

end Session

/-! ## Entry points -/

namespace Lower

variable {s s' : Session}

theorem total_reportAll (findings : List (Finding × Source.Position)) :
    Total (reportAll findings) :=
  fun s => ⟨(), _, runOn_reportAll findings s⟩

theorem total_recordIf (flows : Bool) (direction : Direction) (ty : Source.Ty) (p : Param) :
    Total (recordIf flows direction ty p) := by
  rw [recordIf]
  split
  · exact total_get.bind fun _ => (total_modify _).bind fun _ =>
      (total_reportAll _).bind fun _ => total_pure _
  · exact total_pure _

theorem total_recordDistances (p : Param) (perPatch : Bool) :
    Total (recordDistances p perPatch) := by
  rw [recordDistances_eq]
  refine total_get.bind fun s => ?_
  split
  · exact total_pure _
  · exact (total_recordIf _ _ _ _).bind fun _ => (total_recordIf _ _ _ _).bind fun _ =>
      total_pure _

theorem total_forAll {α : Type} {check : α → Lower Bool} (hcheck : ∀ a, Total (check a)) :
    (l : List α) → Total (forAll check l)
  | [] => total_pure _
  | a :: rest => (hcheck a).bind fun _ => (total_forAll hcheck rest).bind fun _ => total_pure _

theorem total_recordPatch (e : EntryPoint) : Total (recordPatch e) := by
  rw [recordPatch.eq_def]
  split
  · exact total_pure _
  · exact total_forAll (total_recordDistances · true) _

/-- Distances are recorded without a failure. -/
theorem total_recordEntry (e : EntryPoint) : Total (recordEntry e) :=
  (total_modify _).bind fun _ => (total_forAll (total_recordDistances · false) _).bind fun _ =>
    (total_recordPatch e).bind fun _ => total_pure _

/-- Arrays are created unless there is a fault, and nothing is left undone then. -/
theorem runOn_createDistances (inputVertices outputVertices : Option Nat) (s : Session) :
    (∃ f, (createDistances inputVertices outputVertices).runOn s = (.error (.fault f), s)) ∨
    ∃ a vars a' e, s.distances.calculate = .ok a ∧
      (Emit.distanceArraysFor inputVertices outputVertices DistanceArrays.keys a).runOn s.emitter =
        (.ok (vars, a'), e) ∧
      (createDistances inputVertices outputVertices).runOn s =
        (.ok (), { s with emitter := e, distances := a' }) := by
  cases hcalculate : s.distances.calculate with
  | error f =>
    refine .inl ⟨f, ?_⟩
    rw [createDistances, Action.runOn_bind_of_ok (Action.runOn_get s), hcalculate]
    exact Action.runOn_bind_of_error (Action.runOn_ofChecked_error s f)
  | ok a =>
    obtain ⟨⟨vars, a'⟩, e, hrun⟩ := Emit.total_distanceArraysFor inputVertices outputVertices
      DistanceArrays.keys a s.emitter
    refine .inr ⟨a, vars, a', e, rfl, hrun, ?_⟩
    have hemit : (emit (.distanceArrays a inputVertices outputVertices)).runOn s =
        (.ok (vars, a'), { s with emitter := e }) := by
      rw [runOn_emit, Emit.distanceArrays, hrun]
    rw [createDistances, Action.runOn_bind_of_ok (Action.runOn_get s), hcalculate,
      Action.runOn_bind_of_ok (Action.runOn_ofChecked_ok s a), Action.runOn_bind_of_ok hemit]
    rfl

/-- The only part of an entry point that packs is in the middle, and there is nothing after it if
there is a fault. -/
theorem phases_runOn_entryPoint (hs : s.Sound) (e : EntryPoint) :
    ∃ s₁, s₁.Sound ∧ Relation.ReflTransGen (Session.Step False False) s s₁ ∧
      ((∃ f, (entryPoint e).runOn s = (.error (.fault f), s₁)) ∨
        ∃ s₂, (createDistances e.vertexCounts.1 e.vertexCounts.2).runOn s₁ = (.ok (), s₂) ∧
          Relation.ReflTransGen (Session.Step False False) s₂ ((entryPoint e).runOn s).2) := by
  obtain ⟨recorded, s₁, hrecord⟩ := total_recordEntry e s
  refine ⟨s₁, ((keeps_recordEntry hs e).of_run hrecord).1,
    ((steps_recordEntry e).of_run hrecord).2, ?_⟩
  rw [entryPoint_eq_phases, Action.runOn_bind_of_ok hrecord]
  rcases runOn_createDistances e.vertexCounts.1 e.vertexCounts.2 s₁ with
    ⟨f, hcreate⟩ | ⟨_, _, _, _, -, -, hcreate⟩
  · exact .inl ⟨f, Action.runOn_bind_of_error hcreate⟩
  · refine .inr ⟨_, hcreate, ?_⟩
    rw [Action.runOn_bind_of_ok hcreate]
    exact (steps_createEntry False.elim recorded).step

/-- Arrays get owners if there was none before. -/
theorem owned_createDistances (hs : s.Sound) (howned : s.emitter.Owned s.distances)
    (hvar : ∀ direction kind, (s.distances.get direction kind).var = none)
    {inputVertices outputVertices : Option Nat}
    (h : (createDistances inputVertices outputVertices).runOn s = (.ok (), s')) :
    s'.emitter.Owned s'.distances := by
  rcases runOn_createDistances inputVertices outputVertices s with
    ⟨f, hfault⟩ | ⟨a, vars, a', e, hcalculate, hrun, hcreate⟩
  · cases hfault.symm.trans h
  · cases hcreate.symm.trans h
    have hcalculated := DistanceArrays.var_of_calculate hcalculate
    refine Emit.owned_of_distanceArraysFor (by decide) hs.emitter ?_ hrun
    exact Emitter.Owned.but (howned.congr rfl hcalculated)
      (fun direction kind => (hcalculated direction kind).trans (hvar direction kind)) _

/-- Where there is an array, another one is made. -/
theorem not_uniqueFor_createDistances (hs : s.Sound) {direction : Direction} {kind : DistanceKind}
    {id : VariableId} (hid : (s.distances.get direction kind).var = some id)
    {inputVertices outputVertices : Option Nat}
    (h : (createDistances inputVertices outputVertices).runOn s = (.ok (), s')) :
    ¬s'.UniqueFor kind.builtin direction.storage := by
  have hsteps : Relation.ReflTransGen (Session.Step False True) s s' :=
    ((steps_createDistances trivial _ _).of_run h).2
  have hold := hs.provides_array hid
  rcases runOn_createDistances inputVertices outputVertices s with
    ⟨f, hfault⟩ | ⟨a, vars, a', e, hcalculate, hrun, hcreate⟩
  · cases hfault.symm.trans h
  · cases hcreate.symm.trans h
    -- what was declared when the first array was made is still declared
    have hpos : (a.get direction kind).total ≠ 0 := by
      refine (hs.distances.calculate hcalculate direction kind).filled ?_
      rw [DistanceArrays.var_of_calculate hcalculate, hid]
      rfl
    obtain ⟨id', v, hle, hv, hprovides⟩ := Emit.exists_array_of_distanceArraysFor hs.emitter hrun
      (DistanceArrays.mem_keys direction kind) hpos
    intro hunique
    have hsame := hunique id id' (hold.continues (Session.continues_of_steps hsteps))
      ⟨v, hv, hprovides⟩
    exact Nat.not_lt_of_le hle (hsame ▸ hold.lt_size)

/-- An entry point leaves no array without an owner, if there was none before. -/
theorem owned_entryPoint (hs : s.Sound) (howned : s.emitter.Owned s.distances)
    (hvar : ∀ direction kind, (s.distances.get direction kind).var = none) (e : EntryPoint) :
    ((entryPoint e).runOn s).2.emitter.Owned ((entryPoint e).runOn s).2.distances := by
  obtain ⟨s₁, hs₁, hsteps, hrun⟩ := phases_runOn_entryPoint hs e
  have howned₁ := Session.owned_of_steps hsteps howned
  rcases hrun with ⟨f, hfault⟩ | ⟨s₂, hcreate, hrest⟩
  · rw [hfault]
    exact howned₁
  · have hvar₁ : ∀ direction kind, (s₁.distances.get direction kind).var = none := fun d k =>
      (Session.var_distances_of_steps hsteps d k).trans (hvar d k)
    exact Session.owned_of_steps hrest (owned_createDistances hs₁ howned₁ hvar₁ hcreate)

/-- An entry point without a fault makes another array where there is one. -/
theorem not_uniqueFor_entryPoint (hs : s.Sound) {direction : Direction} {kind : DistanceKind}
    {id : VariableId} (hid : (s.distances.get direction kind).var = some id) {e : EntryPoint}
    (hfault : ∀ f, ((entryPoint e).runOn s).1 ≠ .error (.fault f)) :
    ¬((entryPoint e).runOn s).2.UniqueFor kind.builtin direction.storage := by
  obtain ⟨s₁, hs₁, hsteps, ⟨f, hrun⟩ | ⟨s₂, hcreate, hrest⟩⟩ := phases_runOn_entryPoint hs e
  · exact absurd (congrArg Prod.fst hrun) (hfault f)
  · have hid₁ := (Session.var_distances_of_steps hsteps direction kind).trans hid
    intro hunique
    exact not_uniqueFor_createDistances hs₁ hid₁ hcreate
      (hunique.of_continues (Session.continues_of_steps hrest))

end Lower

/-! ## Sequences of operations -/

/-- Only entry points pack distances. -/
theorem Operation.Packs.exists_entryPoint {op : Operation} (hop : op.Packs) :
    ∃ e, op = .interface (.entryPoint e) := by
  cases op with
  | interface op =>
    cases op with
    | entryPoint e => exact ⟨e, rfl⟩
    | input | output | hullOutput | locations => cases hop
  | resource | declaration | aliasType | type | counterType | moveTo => cases hop

namespace Session

variable {s : Session}

/-- Distances are packed only where there is no array of distances yet. -/
def PacksOnce : Session → List Operation → Prop
  | _, [] => True
  | s, op :: rest =>
    (op.Packs → ∀ direction kind, (s.distances.get direction kind).var = none) ∧
      PacksOnce (s.after op) rest

theorem after_entryPoint (s : Session) (e : EntryPoint) :
    s.after (.interface (.entryPoint e)) = ((Lower.entryPoint e).runOn s).2 :=
  congrArg Prod.snd (Lower.runOn_forget _ s)

theorem continues_run (s : Session) (ops : List Operation) : s.Continues (s.run ops) :=
  run_of_step (P := s.Continues) (fun _ _ h hs => hs.trans h.continues) ops
    (fun _ _ (h : False) => h.elim) (.refl s)

theorem owned_run : (ops : List Operation) → {s : Session} → s.Sound →
    s.emitter.Owned s.distances → s.PacksOnce ops →
    (s.run ops).emitter.Owned (s.run ops).distances
  | [], _, _, howned, _ => howned
  | op :: rest, s, hs, howned, hpacks => by
    refine owned_run rest (hs.after op) ?_ hpacks.2
    by_cases hop : op.Packs
    · obtain ⟨e, rfl⟩ := hop.exists_entryPoint
      rw [after_entryPoint]
      exact Lower.owned_entryPoint hs howned (hpacks.1 hop) e
    · exact owned_of_steps (steps_after s hop False.elim) howned

/-- Two arrays for one direction and kind are never taken away. -/
theorem packsOnce_of_unique : (ops : List Operation) → {s : Session} → s.Sound →
    s.RunsThrough ops → (∀ b c, (s.run ops).UniqueFor b c) → s.PacksOnce ops
  | [], _, _, _, _ => trivial
  | op :: rest, s, hs, hruns, hunique => by
    refine ⟨fun hop direction kind => ?_,
      packsOnce_of_unique rest (hs.after op) hruns.2 hunique⟩
    obtain ⟨e, rfl⟩ := hop.exists_entryPoint
    have hfault : ∀ f, ((Lower.entryPoint e).runOn s).1 ≠ .error (.fault f) := by
      intro f hf
      refine hruns.1 f ?_
      show ((Lower.forget (Lower.entryPoint e)).runOn s).1 = _
      rw [Lower.runOn_forget, hf]
      rfl
    by_contra hvar
    obtain ⟨id, hid⟩ := Option.ne_none_iff_exists'.1 hvar
    refine Lower.not_uniqueFor_entryPoint hs hid hfault ?_
    rw [← after_entryPoint]
    exact (hunique _ _).of_continues (continues_run _ rest)

/-- **Builtins have one variable each**, with one exception.  Whatever operations are done in
order, answered or failed, there is one variable at most for a builtin in a storage class, if the
builtin is not that of packed distances.  If distances are packed only where there is no array of
them yet, that holds of all builtins, and the interface and the accesses to distances refer to
those variables.  As long as there is no fault of arithmetic, it holds only then. -/
theorem builtinsUnique_iff_packsOnce (stage : Stage) (options : Options) (ops : List Operation) :
    (∀ b c, (∀ kind : DistanceKind, b ≠ kind.builtin) →
      ((start stage options).run ops).UniqueFor b c) ∧
    ((start stage options).PacksOnce ops → ((start stage options).run ops).BuiltinsUnique) ∧
    ((start stage options).RunsThrough ops → ((start stage options).run ops).BuiltinsUnique →
      (start stage options).PacksOnce ops) := by
  have hremembers := remembers_run stage options ops
  have hclassified := classified_run stage options ops
  have hsound := (sound_start stage options).run ops
  refine ⟨fun b c hb => hremembers.uniqueFor hb, fun hpacks => ?_, fun hruns hunique =>
    packsOnce_of_unique ops (sound_start stage options) hruns hunique.unique⟩
  have howned : (start stage options).emitter.Owned (start stage options).distances :=
    fun _ _ _ _ hv => by cases hv
  refine ⟨hremembers.unique_of_owned (owned_run ops (sound_start stage options) howned hpacks),
    fun u hu b hb => ?_, fun direction kind index invocation a ha => ?_⟩
  · obtain ⟨v, hv, hstorage, hbuiltin⟩ := hclassified.interface u hu
    exact ⟨v, hv, hstorage, (hbuiltin b).2 hb⟩
  · obtain ⟨v, -, hv, hstorage, hmem, -⟩ := (hsound.reaches ha).array
    exact ⟨v, hv, hstorage, hmem⟩

/-- Operations that lower an entry point twice, with clip distances the first time or not. -/
def clippingTwice (first : List (String × Nat)) : List Operation :=
  [.interface (.entryPoint (clipWriter first)),
    .interface (.entryPoint (clipWriter [("SV_ClipDistance0", 1)]))]

theorem builtinsUnique_iff_packsOnce_clippingLast :
    (start .vertex {}).PacksOnce (clippingTwice []) ∧
    ((start .vertex {}).run (clippingTwice [])).BuiltinsUnique ∧
    ((start .vertex {}).run (clippingTwice [])).Provides 0 .clipDistance .output := by
  have hnone : ∀ key ∈ DistanceArrays.keys,
      (((start .vertex {}).run [.interface (.entryPoint (clipWriter []))]).distances.get
        key.1 key.2).var = none := by decide +kernel
  have hpacks : (start .vertex {}).PacksOnce (clippingTwice []) := by
    refine ⟨fun _ => ?_, fun _ => ?_, trivial⟩
    · exact fun direction kind => DistanceArrays.var_empty
    · exact fun direction kind => hnone _ (DistanceArrays.mem_keys direction kind)
  exact ⟨hpacks, (builtinsUnique_iff_packsOnce .vertex {} (clippingTwice [])).2.1 hpacks,
    by decide +kernel⟩

/-- The second time there is an array already. -/
theorem not_builtinsUnique_clippingTwice :
    ¬((start .vertex {}).run (clippingTwice [("SV_ClipDistance0", 1)])).BuiltinsUnique := by
  intro h
  have hsame : (0 : VariableId) = 1 :=
    h.unique .clipDistance .output 0 1 (by decide +kernel) (by decide +kernel)
  cases hsame

end Session

end ShaderLowering
