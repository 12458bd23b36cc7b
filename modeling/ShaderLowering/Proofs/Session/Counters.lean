import ShaderLowering.Proofs.Counter.Assignments
import ShaderLowering.Proofs.Counter.Paths
import ShaderLowering.Proofs.Session.Decoration
import ShaderLowering.Proofs.Session.Frames

/-!
# Variables that may alias a buffer

What a declaration of such a variable leaves behind (`Session.Declared`): a variable of the type
that was asked for, and for every path to a buffer with a hidden counter, in order, a new variable
that points to a counter, in the same storage class.
-/

namespace ShaderLowering

open Source (Ty Variable Position)
open Spirv (TypeId TypeTree VariableId StorageClass)
open Counter (Path Entry)

/-- The tree of a pointer to a counter. -/
def Written.counterPointer : TypeTree := plain (.pointer counterType .uniform)

/-! ## The counter of one buffer -/

/-- A new counter is a variable of its own, which points to a counter. -/
theorem Emit.adds_aliasCounter {e e' : Emitter} (he : e.Sound) {storage : StorageClass}
    {site : CounterSite} {entry : Entry}
    (h : (aliasCounter storage site).runOn e = (.ok entry, e')) :
    entry = ⟨site.path, e.target.variables.size, true⟩ ∧
    ∃ pointer, e.Adds e' [⟨some ("counter.var." ++ site.name), pointer, storage, []⟩] ∧
      e'.target.tree? pointer = some Written.counterPointer := by
  rw [aliasCounter, ← bind_assoc] at h
  obtain ⟨pointer, e₁, hpointer, h⟩ := Action.runOn_bind_eq_ok_iff.1 h
  obtain ⟨var, e₂, hvar, h⟩ := Action.runOn_bind_eq_ok_iff.1 h
  cases h
  have htype := realizes_counterPointer he
  have hpointerAdds := htype.adds hpointer
  have hvarAdds := adds_addVariable hpointerAdds.sound hvar
  have hsize : e₁.target.variables.size = e.target.variables.size := by
    rw [Spirv.Table.size, hpointerAdds.entries, List.append_nil, Spirv.Table.size]
  refine ⟨?_, pointer, hpointerAdds.trans hvarAdds, ?_⟩
  · cases hvar
    rw [← hsize]
  · have htree := htype.answer hpointer
    cases hvar
    exact htree

namespace Session

variable {s s' : Session} {storage : StorageClass}

/-- There is a variable in a storage class with a type that has a given tree. -/
def HasVariable (s : Session) (id : VariableId) (storage : StorageClass) (tree : TypeTree) : Prop :=
  ∃ v, s.var? id = some v ∧ v.storage = storage ∧ s.emitter.target.tree? v.ty = some tree

/-- A variable keeps its storage class and its type. -/
theorem HasVariable.mono {id : VariableId} {tree : TypeTree} (h : s.HasVariable id storage tree)
    (hg : s.emitter.Extends s'.emitter) : s'.HasVariable id storage tree := by
  obtain ⟨v, hv, rfl, htree⟩ := h
  obtain ⟨v', hv', more, rfl⟩ := hg.target.kept id v hv
  exact ⟨_, hv', rfl, hg.target.tree? htree⟩

/-- A counter that assignments rebind: a variable in a storage class that points to a counter. -/
structure IsAliasCounter (s : Session) (storage : StorageClass) (e : Entry) : Prop where
  isAlias : e.isAlias = true
  pointer : s.HasVariable e.counter storage Written.counterPointer

theorem IsAliasCounter.mono {e : Entry} (h : s.IsAliasCounter storage e)
    (hg : s.emitter.Extends s'.emitter) : s'.IsAliasCounter storage e :=
  ⟨h.isAlias, h.pointer.mono hg⟩

/-- The counters of the buffers at some paths, all of them new. -/
structure NewCounters (s s' : Session) (storage : StorageClass) (paths : List Path)
    (entries : List Entry) : Prop where
  paths : entries.map (·.path) = paths
  isAliasCounter : ∀ e ∈ entries, s'.IsAliasCounter storage e
  /-- The counters come after the variables that were there, and one after the other. -/
  fresh : ∀ e ∈ entries, s.size ≤ e.counter
  distinct : entries.Pairwise (·.counter < ·.counter)

end Session

namespace Lower

open Session (contract)

variable {s s' : Session} {storage : StorageClass}

theorem newCounter_of_aliasCounter (hs : s.Sound) {site : CounterSite} {e : Entry}
    (h : (emit (.aliasCounter storage site)).runOn s = (.ok e, s')) :
    e.path = site.path ∧ e.counter = s.size ∧ s'.IsAliasCounter storage e := by
  obtain ⟨e', hrun, rfl⟩ := runOn_emit_eq_ok_iff.1 h
  obtain ⟨rfl, pointer, hadds, htree⟩ := Emit.adds_aliasCounter hs.emitter hrun
  exact ⟨rfl, rfl, rfl, _, hadds.get?_size, rfl, htree⟩

/-- The counters of all buffers in a declaration. -/
theorem newCounters_of_mapM : (sites : List CounterSite) → {s : Session} → s.Sound →
    {entries : List Entry} → {s' : Session} →
    (sites.mapM fun site => emit (.aliasCounter storage site)).runOn s = (.ok entries, s') →
    s.NewCounters s' storage (sites.map (·.path)) entries
  | [], s, hs, entries, s', h => by
    cases h
    exact ⟨rfl, nofun, nofun, .nil⟩
  | site :: rest, s, hs, entries, s', h => by
    rw [List.mapM_cons] at h
    obtain ⟨e, s₁, hfirst, h⟩ := Action.runOn_bind_eq_ok_iff.1 h
    obtain ⟨others, s₂, hothers, h⟩ := Action.runOn_bind_eq_ok_iff.1 h
    cases h
    have hmakes := Emit.makesVariable_aliasCounter hs.emitter storage site
    obtain ⟨hs₁, hg₁⟩ := (keeps_emit hs hmakes.keeps).of_run hfirst
    obtain ⟨-, hg₂⟩ := (keeps_aliasCounterEntries storage rest hs₁).1.of_run hothers
    obtain ⟨hpath, hcounter, hnew⟩ := newCounter_of_aliasCounter hs hfirst
    have hsize : e.counter < s₁.size := (fresh_of_emit hs hmakes hfirst).lt_size
    have hrest := newCounters_of_mapM rest hs₁ hothers
    refine ⟨?_, ?_, ?_, ?_⟩
    · rw [List.map_cons, List.map_cons, hpath, hrest.paths]
    · exact List.forall_mem_cons.2 ⟨hnew.mono hg₂.emitter, hrest.isAliasCounter⟩
    · refine List.forall_mem_cons.2 ⟨Nat.le_of_eq hcounter.symm, fun d hd => ?_⟩
      exact Nat.le_trans hg₁.size_le (hrest.fresh d hd)
    · refine List.pairwise_cons.2 ⟨fun d hd => ?_, hrest.distinct⟩
      exact Nat.lt_of_lt_of_le hsize (hrest.fresh d hd)

/-- The counters of a declaration become its counters, unless there are none. -/
theorem newCounters_of_aliasCounters (hs : s.Sound) {id : Nat} {sites : List CounterSite}
    (hnodup : (sites.map (·.path)).Nodup)
    (h : (aliasCounters id storage sites).runOn s = (.ok (), s')) :
    ∃ entries, s.NewCounters s' storage (sites.map (·.path)) entries ∧
      s'.counterMap? id = if entries.isEmpty then s.counterMap? id else some ⟨entries⟩ := by
  obtain ⟨entries, s₁, hentries, h⟩ := Action.runOn_bind_eq_ok_iff.1 h
  have hnew := newCounters_of_mapM sites hs hentries
  have hlocal := Action.Contract.keeps_mapM (C := Session.localContract none) sites
    (fun site _ hs => local_aliasCounter hs storage site) hs.emitter
  have hkept := (hlocal.of_run hentries).2.counters id nofun
  have hmap := Counter.Map.foldl_insert entries (hnew.paths ▸ hnodup)
  refine ⟨entries, ?_⟩
  cases hempty : entries.isEmpty with
  | true =>
    rw [hempty] at h
    cases h
    exact ⟨hnew, hkept⟩
  | false =>
    rw [hempty] at h
    cases h
    refine ⟨{ hnew with
      isAliasCounter := fun e he => (hnew.isAliasCounter e he).mono (.refl s₁.emitter) }, ?_⟩
    show List.lookup id (_ :: _) = some _
    rw [List.lookup_cons, beq_self_eq_true, hmap]

end Lower

/-! ## Declarations -/

namespace Lower

variable {s s' : Session}

/-- The type of a variable that may alias a buffer is the written one. -/
theorem tree?_of_aliasType (hs : s.Sound) {ty : Ty} {r : TypeId × Bool}
    (h : (aliasType ty).runOn s = (.ok r, s')) :
    r.2 = ty.holdsAliasable ∧ ∃ tree, Written.ofTy s.emitter.options ty .unlaid {} none = .ok tree ∧
      s'.emitter.target.tree? r.1 = some tree := by
  obtain ⟨id, s₁, hid, h⟩ := Action.runOn_bind_eq_ok_iff.1 h
  obtain ⟨e', hrun, rfl⟩ := runOn_emit_eq_ok_iff.1 hid
  have htype := Emit.realizes_ofTy ty .unlaid {} none hs.emitter
  obtain ⟨tree, hwritten, htree⟩ := htype.exists_of_run hrun
  split at h <;> cases h <;> exact ⟨rfl, tree, hwritten, htree⟩

theorem counterMap?_of_aliasType (hs : s.Sound) {ty : Ty} {r : TypeId × Bool}
    (h : (aliasType ty).runOn s = (.ok r, s')) (id : Nat) :
    s'.counterMap? id = s.counterMap? id := by
  have hlocal : (Session.localContract none).Keeps (aliasType ty) s :=
    local_aliasType hs.emitter ty
  exact (hlocal.of_run h).2.counters id nofun

/-- A new variable is the last one of the module. -/
theorem hasVariable_of_addVariable (hs : s.Sound) {v : Spirv.Variable} {tree : TypeTree}
    {var : VariableId} (htree : s.emitter.target.tree? v.ty = some tree)
    (h : (emit (.addVariable v)).runOn s = (.ok var, s')) :
    var = s.size ∧ s'.HasVariable var v.storage tree := by
  have hkeeps := Emit.keeps_addVariable hs.emitter (Spirv.Module.lt_of_tree? htree)
  obtain ⟨e', hrun, rfl⟩ := runOn_emit_eq_ok_iff.1 h
  have hget := (Emit.adds_addVariable hs.emitter hrun).get?_size
  have htree' := (hkeeps.of_run hrun).2.target.tree? htree
  obtain rfl : s.emitter.target.variables.size = var := by
    cases hrun
    rfl
  exact ⟨rfl, v, hget, rfl, htree'⟩

end Lower

namespace Session

/-- A variable of a type was made between two sessions, as a type without a memory layout. -/
structure VariableMade (s s' : Session) (id : Nat) (ty : Ty) (var : VariableId)
    (storage : StorageClass) : Prop where
  sound : s'.Sound
  typed : ∃ tree, Written.ofTy s.emitter.options ty .unlaid {} none = .ok tree ∧
    s'.HasVariable var storage tree
  fresh : s.size ≤ var
  lt_size : var < s'.size
  counterMap : s'.counterMap? id = s.counterMap? id

/-- A variable of a type that may alias a buffer, and its counters, were made between two
sessions. -/
structure Declared (s s' : Session) (id : Nat) (ty : Ty) (var : VariableId)
    (storage : StorageClass) (entries : List Entry) : Prop where
  typed : ∃ tree, Written.ofTy s.emitter.options ty .unlaid {} none = .ok tree ∧
    s'.HasVariable var storage tree
  fresh : s.size ≤ var
  paths : entries.map (·.path) = ty.counterPaths
  isAliasCounter : ∀ e ∈ entries, s'.IsAliasCounter storage e
  /-- The counters come after the variable, and one after the other. -/
  after : ∀ e ∈ entries, var < e.counter
  distinct : entries.Pairwise (·.counter < ·.counter)
  counterMap : s'.counterMap? id = if entries.isEmpty then s.counterMap? id else some ⟨entries⟩

end Session

namespace Lower

variable {s s' : Session} {id : Nat} {name : String} {ty : Ty} {storage : StorageClass}
variable {position : Position} {var : VariableId}

/-- The variable is made first, then its counters if it may alias a buffer. -/
theorem variableMade_of_aliasable (hs : s.Sound)
    (h : (aliasable id name ty storage position).runOn s = (.ok var, s')) :
    ∃ s₁, s.VariableMade s₁ id ty var storage ∧
      if ty.holdsAliasable then
        (aliasCounters id storage (counterSites name [] ty)).runOn s₁ = (.ok (), s')
      else s' = s₁ := by
  -- the type, whose emission leaves all counters alone
  obtain ⟨_, s₁, hmove, h⟩ := Action.runOn_bind_eq_ok_iff.1 h
  obtain ⟨hs₁, hg₁⟩ := (keeps_moveTo hs position).of_run hmove
  cases hmove
  obtain ⟨r, s₂, htype, h⟩ := Action.runOn_bind_eq_ok_iff.1 h
  obtain ⟨hs₂, hg₂⟩ := (keeps_aliasType hs₁ ty).of_run htype
  have hty := hasType_of_aliasType hs₁ htype
  obtain ⟨halias, tree, hwritten, htree⟩ := tree?_of_aliasType hs₁ htype
  have hmap : s₂.counterMap? id = s.counterMap? id := counterMap?_of_aliasType hs₁ htype id
  -- the variable of this type
  obtain ⟨options, s₃, hoptions, h⟩ := Action.runOn_bind_eq_ok_iff.1 h
  cases hoptions
  obtain ⟨new, s₄, hvar, h⟩ := Action.runOn_bind_eq_ok_iff.1 h
  obtain ⟨hs₄, hg₄⟩ := (keeps_addVariable hs₂ hty).of_run hvar
  have hlt := (fresh_of_addVariable hs₂ hty hvar).lt_size
  obtain ⟨hnew, hvariable⟩ := hasVariable_of_addVariable hs₂ htree hvar
  obtain ⟨e₄, hadd, rfl⟩ := runOn_emit_eq_ok_iff.1 hvar
  -- its declaration
  obtain ⟨_, s₅, hdeclare, h⟩ := Action.runOn_bind_eq_ok_iff.1 h
  obtain ⟨hs₅, hg₅⟩ := (keeps_declare hs₄ id hlt).of_run hdeclare
  cases hdeclare
  have hmade : s.VariableMade _ id ty new storage :=
    { sound := hs₅
      typed := ⟨tree, hwritten, hvariable⟩
      fresh := hnew ▸ Nat.le_trans hg₁.size_le hg₂.size_le
      lt_size := hlt
      counterMap := hmap }
  rw [halias] at h
  cases hholds : ty.holdsAliasable with
  | false =>
    rw [hholds] at h
    cases h
    exact ⟨_, hmade, rfl⟩
  | true =>
    rw [hholds] at h
    obtain ⟨_, s₆, hcounters, h⟩ := Action.runOn_bind_eq_ok_iff.1 h
    cases h
    exact ⟨_, hmade, hcounters⟩

theorem declared_of_aliasable (hs : s.Sound)
    (h : (aliasable id name ty storage position).runOn s = (.ok var, s')) :
    ∃ entries, s.Declared s' id ty var storage entries := by
  obtain ⟨s₁, hmade, h⟩ := variableMade_of_aliasable hs h
  split at h
  · have hnodup := ty.map_path_counterSites_nil name ▸ ty.nodup_counterPaths
    obtain ⟨entries, hnew, hmap⟩ := newCounters_of_aliasCounters hmade.sound hnodup h
    obtain ⟨-, hg⟩ := (keeps_aliasCounters hmade.sound id storage _).of_run h
    obtain ⟨tree, hwritten, hvariable⟩ := hmade.typed
    exact ⟨entries,
      { typed := ⟨tree, hwritten, hvariable.mono hg.emitter⟩
        fresh := hmade.fresh
        paths := hnew.paths.trans (ty.map_path_counterSites_nil name)
        isAliasCounter := hnew.isAliasCounter
        after := fun e he => Nat.lt_of_lt_of_le hmade.lt_size (hnew.fresh e he)
        distinct := hnew.distinct
        counterMap := hmade.counterMap ▸ hmap }⟩
  · rename_i hholds
    subst h
    exact ⟨[],
      { typed := hmade.typed
        fresh := hmade.fresh
        paths := (Ty.counterPaths_eq_nil (Bool.eq_false_iff.2 hholds)).symm
        isAliasCounter := nofun
        after := nofun
        distinct := .nil
        counterMap := hmade.counterMap }⟩

/-- What a declaration of a variable that may alias a buffer leaves behind. -/
theorem declared_of_create (hs : s.Sound) {d : LocalDeclaration}
    (h : d.create.runOn s = (.ok var, s')) :
    ∃ storage entries, s.Declared s' d.id d.ty var storage entries := by
  cases d with
  | function v => exact ⟨.function, declared_of_aliasable hs h⟩
  | param p => exact ⟨.function, declared_of_aliasable hs h⟩
  | file v =>
    change (fileVariable v).runOn s = _ at h
    rw [fileVariable.eq_def] at h
    split at h
    · exact ⟨.privateGlobal, declared_of_aliasable hs h⟩
    · exact ⟨.workgroup, declared_of_aliasable hs h⟩
    · cases h
    · cases h

end Lower

end ShaderLowering
