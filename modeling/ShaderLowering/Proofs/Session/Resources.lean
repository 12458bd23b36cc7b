import ShaderLowering.Proofs.Emission.Reachable
import ShaderLowering.Proofs.Session.Invariant

/-!
# Operations on resources and aliases keep the contract

Every operation that creates a resource variable or a variable that may alias one, or gives resource
variables their bindings, leaves a sound session behind, also when it breaks off.
-/

namespace ShaderLowering

open Source (Ty OptionalTy Fields Field Resource Block Variable Param Position)
open Spirv (VariableId TypeId TypeTree StorageClass)
open Action.Contract (keeps_pure keeps_get keeps_throw keeps_get_bind)

/-! ## Types of blocks and counters -/

/-- The tree of a type within the arrays of a source type. -/
def Written.arrayedLike (base : TypeTree) : Ty → TypeTree
  | .alias _ target | .oriented _ target => arrayedLike base target
  | .array elem (some n) => plain (.array (arrayedLike base elem) n)
  | .array elem none => plain (.runtimeArray (arrayedLike base elem))
  | _ => base

namespace Emit

variable {e : Emitter}

theorem realizes_types {rule : Layout.Rule} : (parts : List Field) → {e : Emitter} → e.Sound →
    Realizes (parts.mapM fun part => type part.ty rule) e
      (parts.mapM fun part => Written.ofTy e.options part.ty rule {} none) AreTrees
  | [], _, he => realizes_pure he .nil
  | part :: rest, e, he => by
    rw [List.mapM_cons, List.mapM_cons]
    refine (realizes_ofTy part.ty rule {} none he).bind fun e₁ id tree he₁ hg₁ htree => ?_
    rw [← hg₁.options]
    refine (realizes_types rest he₁).bind fun e₂ ids trees he₂ hg₂ htrees => ?_
    exact realizes_pure he₂ (.cons (hg₂.tree? htree) htrees)

theorem realizes_blockType (he : e.Sound) (name : String) (parts : List Field) (rule : Layout.Rule)
    (role : BlockRole) : Realizes (blockType name parts rule role) e
      (do
        let trees ← parts.mapM fun part => Written.ofTy e.options part.ty rule {} none
        Written.ofRecord e.options name parts trees rule role) IsTree := by
  refine (realizes_types parts he).bind fun e' ids trees he' hg htrees => ?_
  rw [← hg.options]
  exact realizes_ofRecord he' name parts htrees role

theorem realizes_arrayedLike {base : TypeId} {tree : TypeTree} : (ty : Ty) → {e : Emitter} →
    e.Sound → IsTree e base tree →
    Realizes (arrayedLike base ty) e (.ok (Written.arrayedLike tree ty)) IsTree
  | .alias _ target, _, he, hbase => by
    simp only [arrayedLike, Written.arrayedLike]
    exact realizes_arrayedLike target he hbase
  | .oriented _ target, _, he, hbase => by
    simp only [arrayedLike, Written.arrayedLike]
    exact realizes_arrayedLike target he hbase
  | .array elem (some n), _, he, hbase => by
    simp only [arrayedLike, Written.arrayedLike]
    exact (realizes_arrayedLike elem he hbase).step fun _ _ he' _ hinner =>
      realizes_fixedArray he' hinner n []
  | .array elem none, _, he, hbase => by
    simp only [arrayedLike, Written.arrayedLike]
    exact (realizes_arrayedLike elem he hbase).step fun _ _ he' _ hinner =>
      realizes_openArray he' hinner []
  | .void, _, he, hbase | .scalar _, _, he, hbase | .vector _ _, _, he, hbase
  | .matrix _ _ _, _, he, hbase | .struct _ _ _, _, he, hbase | .resource _ _, _, he, hbase => by
    simp only [arrayedLike, Written.arrayedLike]
    exact realizes_pure he hbase

/-- The type of a pointer to a counter. -/
theorem realizes_counterPointer (he : e.Sound) :
    Realizes (do plainType (.pointer (← counterType) .uniform)) e
      (.ok (Written.plain (.pointer Written.counterType .uniform))) IsTree := by
  refine (realizes_counterType he).step fun e' counter he' _ hcounter =>
    realizes_insertType he' ?_
  have hcounter' : e'.target.tree? counter = _ := hcounter
  simp only [Spirv.TypeEntry.tree?, Spirv.Shape.form?, hcounter', Option.map_some, Written.plain]

theorem makesVariable_aliasCounter (he : e.Sound) (storage : StorageClass) (site : CounterSite) :
    MakesVariable (aliasCounter storage site) (·.counter) e := by
  rw [aliasCounter, ← bind_assoc]
  have htype := realizes_counterPointer he
  refine .after htype.keeps fun pointer e₁ he₁ _ hrun => ?_
  refine (makesVariable_addVariable he₁ (htype.lt_types hrun)).bind
    (fun _ _ he₂ => keeps_pure he₂ _) ?_
  rintro var e₂ _ _ ⟨⟩
  rfl

end Emit

/-! ## Counter maps -/

namespace Counter.Map

theorem mem_insert {m : Map} {c d : Entry} (h : d ∈ (m.insert c).entries) :
    d ∈ m.entries ∨ d = c := by
  rw [insert] at h
  split at h
  · obtain ⟨old, hold, rfl⟩ := List.mem_map.1 h
    split
    · exact .inr rfl
    · exact .inl hold
  · simpa using h

theorem mem_foldl_insert {entries : List Entry} {m : Map} {c : Entry}
    (h : c ∈ (entries.foldl insert m).entries) : c ∈ m.entries ∨ c ∈ entries := by
  induction entries generalizing m with
  | nil => exact .inl h
  | cons d rest ih =>
    rcases ih h with h | h
    · rcases mem_insert h with h | rfl
      · exact .inl h
      · exact .inr List.mem_cons_self
    · exact .inr (List.mem_cons_of_mem d h)

end Counter.Map

/-! ## Resources -/

namespace Lower

open Session (contract)

variable {s s' : Session}

theorem keeps_declare (hs : s.Sound) (id : Nat) {var : VariableId} (hvar : var < s.size) :
    contract.Keeps (declare id var) s := by
  refine keeps_modify_rest hs rfl rfl rfl { hs.held with declared := fun entry hentry => ?_ }
    hs.distances
  rcases List.mem_cons.1 hentry with rfl | hentry
  · exact hvar
  · exact hs.held.declared entry hentry

theorem keeps_declareBlock (hs : s.Sound) (id : Nat) {var : VariableId} (hvar : var < s.size) :
    contract.Keeps (declareBlock id var) s := by
  refine (keeps_modify_rest hs rfl rfl rfl { hs.held with blocks := fun entry hentry => ?_ }
    hs.distances).bind fun _ s₁ hs₁ hg _ => keeps_declare hs₁ id (Nat.lt_of_lt_of_le hvar hg.size_le)
  rcases List.mem_cons.1 hentry with rfl | hentry
  · exact hvar
  · exact hs.held.blocks entry hentry

theorem keeps_type (hs : s.Sound) (ty : Ty) (rule : Layout.Rule) :
    contract.Keeps (emit (.type ty rule)) s :=
  keeps_emit hs (Emit.realizes_ofTy ty rule {} none hs.emitter).keeps

theorem hasType_of_type (hs : s.Sound) {ty : Ty} {rule : Layout.Rule} {id : TypeId}
    (h : (emit (.type ty rule)).runOn s = (.ok id, s')) : s'.HasType id :=
  hasType_of_emit (Emit.realizes_ofTy ty rule {} none hs.emitter) h

theorem keeps_blockType (hs : s.Sound) (name : String) (parts : List Field) (rule : Layout.Rule)
    (role : BlockRole) : contract.Keeps (emit (.blockType name parts rule role)) s :=
  keeps_emit hs (Emit.realizes_blockType hs.emitter name parts rule role).keeps

theorem hasType_of_blockType (hs : s.Sound) {name : String} {parts : List Field}
    {rule : Layout.Rule} {role : BlockRole} {id : TypeId}
    (h : (emit (.blockType name parts rule role)).runOn s = (.ok id, s')) : s'.HasType id :=
  hasType_of_emit (Emit.realizes_blockType hs.emitter name parts rule role) h

/-- A new variable that becomes a resource at once, before anything else is done with it. -/
theorem keeps_newResource {α : Type} (hs : s.Sound) {v : Spirv.Variable} (hv : s.HasType v.ty)
    (resource : VariableId → ResourceVariable) (hvar : ∀ id, (resource id).var = id)
    (howner : ∀ id, (resource id).owner = none) {f : VariableId → Lower α}
    (hf : ∀ id s', s'.Sound → s.Grows s' → id < s'.size → contract.Keeps (f id) s') :
    contract.Keeps (do
      let id ← emit (.addVariable v)
      addResource (resource id)
      f id) s := by
  refine (keeps_addVariable hs hv).bind fun id s₁ hs₁ hg₁ hrun => ?_
  have hfresh := fresh_of_addVariable hs hv hrun
  refine (keeps_addResource hs₁ ((hvar id).symm ▸ hfresh) fun i hi => ?_).bind
    fun _ s₂ hs₂ hg₂ _ =>
      hf id s₂ hs₂ (hg₁.trans hg₂) (Nat.lt_of_lt_of_le hfresh.lt_size hg₂.size_le)
  rw [howner] at hi
  cases hi

theorem keeps_block (hs : s.Sound) (b : Block) : contract.Keeps (block b) s := by
  refine keeps_get_bind ?_
  split
  · exact keeps_pure hs _
  · refine (keeps_reportAll hs _).bind fun _ s₁ hs₁ _ _ => ?_
    split
    · exact (keeps_throw hs₁ _).bind fun _ _ _ _ h => by cases h
    · refine (keeps_options hs₁).bind fun _ s₂ hs₂ _ _ => ?_
      refine (keeps_moveTo hs₂ _).bind fun _ s₃ hs₃ _ _ => ?_
      refine (keeps_blockType hs₃ _ _ _ _).bind fun ty s₄ hs₄ _ hrun => ?_
      refine keeps_newResource hs₄ (hasType_of_blockType hs₃ hrun)
        (fun var => { var, position := b.position, register := b.attributes.register,
                      binding := b.attributes.binding })
        (fun _ => rfl) (fun _ => rfl) fun var s₅ hs₅ _ hvar => ?_
      exact (keeps_declareBlock hs₅ b.id hvar).bind fun _ _ hs₆ _ _ => keeps_pure hs₆ _

theorem keeps_blockVariable (hs : s.Sound) (v : Variable) : contract.Keeps (blockVariable v) s := by
  refine keeps_get_bind ?_
  split
  · exact keeps_pure hs _
  · split
    · exact (keeps_refuse hs _ _).bind fun _ _ _ _ h => by cases h
    · refine (keeps_moveTo hs _).bind fun _ s₁ hs₁ _ _ => ?_
      refine (keeps_type hs₁ _ _).bind fun ty s₂ hs₂ _ hrun => ?_
      refine keeps_newResource hs₂ (hasType_of_type hs₁ hrun) (resourceOf · v) (fun _ => rfl)
        (fun _ => rfl) fun var s₃ hs₃ _ hvar => ?_
      exact (keeps_declareBlock hs₃ v.id hvar).bind fun _ _ hs₄ _ _ => keeps_pure hs₄ _

theorem keeps_pushConstant (hs : s.Sound) (v : Variable) : contract.Keeps (pushConstant v) s := by
  refine keeps_get_bind ?_
  split
  · exact (keeps_report hs _ _).bind fun _ _ hs₁ _ _ => keeps_refuse hs₁ _ _
  · exact keeps_refuse hs _ _
  · refine (keeps_moveTo hs _).bind fun _ s₁ hs₁ _ _ => ?_
    refine (keeps_options hs₁).bind fun _ s₂ hs₂ _ _ => ?_
    refine (keeps_blockType hs₂ _ _ _ _).bind fun ty s₃ hs₃ _ hrun => ?_
    have hty := hasType_of_blockType hs₂ hrun
    refine (keeps_addVariable hs₃ hty).bind fun var s₄ hs₄ _ hrun => ?_
    have hvar := (fresh_of_addVariable hs₃ hty hrun).lt_size
    refine (keeps_modify_rest hs₄ rfl rfl rfl
      { hs₄.held with pushConstant := ?_ } hs₄.distances).bind fun _ s₅ hs₅ hg _ => ?_
    · rintro _ ⟨⟩
      exact hvar
    · exact (keeps_declare hs₅ v.id (Nat.lt_of_lt_of_le hvar hg.size_le)).bind
        fun _ _ hs₆ _ _ => keeps_pure hs₆ _

theorem keeps_globalBlock (hs : s.Sound) (vs : List Variable) :
    contract.Keeps (globalBlock vs) s := by
  rw [globalBlock]
  split
  · exact keeps_pure hs _
  · refine (keeps_options hs).bind fun _ s₁ hs₁ _ _ => ?_
    refine (keeps_blockType hs₁ _ _ _ _).bind fun ty s₂ hs₂ _ hrun => ?_
    exact keeps_newResource hs₂ (hasType_of_blockType hs₁ hrun)
      (fun var => { var, position := {} }) (fun _ => rfl) (fun _ => rfl)
      fun var s₃ hs₃ _ _ => keeps_pure hs₃ _

/-- The hidden counter of a buffer that is among the resources. -/
theorem keeps_hiddenCounter (hs : s.Sound) (v : Variable) {owner : Nat} {buffer : ResourceVariable}
    (hbuffer : s.resources[owner]? = some buffer) (hnone : buffer.owner = none) :
    contract.Keeps (hiddenCounter v owner) s := by
  have hcounterType := Emit.realizes_counterType hs.emitter
  refine (keeps_emit hs hcounterType.keeps).bind fun counter s₁ hs₁ _ hrun => ?_
  obtain ⟨e₁, hcounter, rfl⟩ := runOn_emit_eq_ok_iff.1 hrun
  have htree := hcounterType.answer hcounter
  have harrayed := Emit.realizes_arrayedLike v.ty hs₁.emitter htree
  refine (keeps_emit hs₁ harrayed.keeps).bind fun ty s₂ hs₂ _ hrun => ?_
  have hty := hasType_of_emit harrayed hrun
  obtain ⟨e₂, -, rfl⟩ := runOn_emit_eq_ok_iff.1 hrun
  refine (keeps_addVariable hs₂ hty).bind fun var s₃ hs₃ _ hrun => ?_
  have hfresh := fresh_of_addVariable hs₂ hty hrun
  obtain ⟨e₃, -, rfl⟩ := runOn_emit_eq_ok_iff.1 hrun
  refine (keeps_addResource hs₃ hfresh ?_).bind fun _ s₄ hs₄ hg _ => ?_
  · rintro _ ⟨⟩
    exact ⟨rfl, rfl, buffer, hbuffer, hnone⟩
  · refine keeps_modify_rest hs₄ rfl rfl rfl { hs₄.held with counters := fun entry hentry => ?_ }
      hs₄.distances
    rcases List.mem_cons.1 hentry with rfl | hentry
    · intro c hc
      obtain rfl : c = ⟨[], var, false⟩ := by simpa [Counter.Map.insert, Counter.Map.get?] using hc
      exact Nat.lt_of_lt_of_le hfresh.lt_size hg.size_le
    · exact hs₄.held.counters entry hentry

theorem keeps_resourceVariable (hs : s.Sound) (v : Variable) (kind : Resource) (elem : Option Ty) :
    contract.Keeps (resourceVariable v kind elem) s := by
  refine (keeps_moveTo hs _).bind fun _ s₁ hs₁ _ _ => ?_
  refine (keeps_options hs₁).bind fun _ s₂ hs₂ _ _ => ?_
  refine (keeps_type hs₂ _ _).bind fun ty s₃ hs₃ _ hrun => ?_
  have hty := hasType_of_type hs₂ hrun
  refine (keeps_addVariable hs₃ hty).bind fun var s₄ hs₄ _ hrun => keeps_get_bind ?_
  have hfresh := fresh_of_addVariable hs₃ hty hrun
  refine (keeps_addResource hs₄ hfresh (by rintro _ ⟨⟩)).bind fun _ s₅ hs₅ hg₅ hrun => ?_
  have hvar := Nat.lt_of_lt_of_le hfresh.lt_size hg₅.size_le
  cases hrun
  refine (keeps_declare hs₅ v.id hvar).bind fun _ s₆ hs₆ _ hrun => ?_
  cases hrun
  split
  · have hbuffer : (s₄.resources ++ [resourceOf var v])[s₄.resources.length]? =
        some (resourceOf var v) := List.getElem?_concat_length
    exact (keeps_hiddenCounter hs₆ v hbuffer rfl).bind fun _ _ hs₇ _ _ => keeps_pure hs₇ _
  · exact keeps_pure hs₆ _

theorem keeps_globalVariable (hs : s.Sound) (v : Variable) :
    contract.Keeps (globalVariable v) s := by
  rw [globalVariable]
  split
  · exact keeps_pushConstant hs v
  · split
    · exact keeps_blockVariable hs v
    · split
      · split
        · exact keeps_resourceVariable hs v _ _
        · exact keeps_refuse hs _ _
      · exact keeps_refuse hs _ _

theorem keeps_decorate (hs : s.Sound) (id : VariableId) (d : Spirv.VariableDecoration) :
    contract.Keeps (emit (.decorate id d)) s :=
  keeps_emit hs (Emit.keeps_decorate hs.emitter id d)

theorem keeps_decorateBindings (hs : s.Sound) : contract.Keeps decorateBindings s := by
  refine keeps_get_bind ((keeps_reportAll hs _).bind fun _ s₁ hs₁ _ _ => ?_)
  refine (Action.Contract.keeps_forM _ (fun r _ hs => ?_) hs₁).bind fun _ _ hs₂ _ _ =>
    keeps_pure hs₂ _
  exact (keeps_decorate hs _ _).bind fun _ _ hs₃ _ _ => keeps_decorate hs₃ _ _

/-! ## Aliases -/

theorem keeps_aliasType (hs : s.Sound) (ty : Ty) : contract.Keeps (aliasType ty) s := by
  refine (keeps_type hs _ _).bind fun id s₁ hs₁ _ _ => ?_
  split
  · exact (keeps_modify_rest hs₁ rfl rfl rfl { hs₁.held with } hs₁.distances).bind
      fun _ _ hs₂ _ _ => keeps_pure hs₂ _
  · exact keeps_pure hs₁ _

theorem hasType_of_aliasType (hs : s.Sound) {ty : Ty} {r : TypeId × Bool}
    (h : (aliasType ty).runOn s = (.ok r, s')) : s'.HasType r.1 := by
  obtain ⟨id, s₁, hid, h⟩ := Action.runOn_bind_eq_ok_iff.1 h
  have hty := hasType_of_type hs hid
  split at h <;> cases h <;> exact hty

/-- The aliasing counters of a declaration, all of which exist. -/
theorem keeps_aliasCounterEntries (storage : StorageClass) :
    (sites : List CounterSite) → {s : Session} → s.Sound →
    contract.Keeps (sites.mapM fun site => emit (.aliasCounter storage site)) s ∧
    ∀ entries s', (sites.mapM fun site => emit (.aliasCounter storage site)).runOn s =
      (.ok entries, s') → ∀ c ∈ entries, c.counter < s'.size
  | [], s, hs => by
    refine ⟨keeps_pure hs _, fun entries s' h => ?_⟩
    cases h
    simp
  | site :: rest, s, hs => by
    rw [List.mapM_cons]
    have hmakes := Emit.makesVariable_aliasCounter hs.emitter storage site
    have hfirst := keeps_emit hs hmakes.keeps
    constructor
    · exact hfirst.bind fun c s₁ hs₁ _ _ =>
        (keeps_aliasCounterEntries storage rest hs₁).1.bind fun _ _ hs₂ _ _ => keeps_pure hs₂ _
    · intro entries s' h
      obtain ⟨c, s₁, hc, h⟩ := Action.runOn_bind_eq_ok_iff.1 h
      obtain ⟨others, s₂, hothers, h⟩ := Action.runOn_bind_eq_ok_iff.1 h
      cases h
      have hrest := keeps_aliasCounterEntries storage rest (hfirst.of_run hc).1
      obtain ⟨-, hg⟩ := hrest.1.of_run hothers
      intro d hd
      rcases List.mem_cons.1 hd with rfl | hd
      · exact Nat.lt_of_lt_of_le (fresh_of_emit hs hmakes hc).lt_size hg.size_le
      · exact hrest.2 _ _ hothers d hd

theorem keeps_aliasCounters (hs : s.Sound) (id : Nat) (storage : StorageClass)
    (sites : List CounterSite) : contract.Keeps (aliasCounters id storage sites) s := by
  obtain ⟨hkeeps, hlt⟩ := keeps_aliasCounterEntries storage sites hs
  refine hkeeps.bind fun entries s₁ hs₁ _ hrun => ?_
  split
  · refine keeps_modify_rest hs₁ rfl rfl rfl { hs₁.held with counters := fun entry hentry => ?_ }
      hs₁.distances
    rcases List.mem_cons.1 hentry with rfl | hentry
    · intro c hc
      exact hlt entries s₁ hrun c ((Counter.Map.mem_foldl_insert hc).resolve_left (by simp))
    · exact hs₁.held.counters entry hentry
  · exact keeps_pure hs₁ _

theorem keeps_aliasable (hs : s.Sound) (id : Nat) (name : String) (ty : Ty)
    (storage : StorageClass) (position : Position) :
    contract.Keeps (aliasable id name ty storage position) s := by
  refine (keeps_moveTo hs _).bind fun _ s₁ hs₁ _ _ => ?_
  refine (keeps_aliasType hs₁ _).bind fun r s₂ hs₂ _ hrun => ?_
  refine (keeps_options hs₂).bind fun _ s₃ hs₃ hg _ => ?_
  have hty := hg.hasType (hasType_of_aliasType hs₁ hrun)
  refine (keeps_addVariable hs₃ hty).bind fun var s₄ hs₄ _ hrun => ?_
  have hvar := (fresh_of_addVariable hs₃ hty hrun).lt_size
  refine (keeps_declare hs₄ id hvar).bind fun _ s₅ hs₅ _ _ => ?_
  split
  · exact (keeps_aliasCounters hs₅ _ _ _).bind fun _ _ hs₆ _ _ => keeps_pure hs₆ _
  · exact keeps_pure hs₅ _

theorem keeps_fileVariable (hs : s.Sound) (v : Variable) : contract.Keeps (fileVariable v) s := by
  rw [fileVariable.eq_def]
  split
  · exact keeps_aliasable hs _ _ _ _ _
  · exact keeps_aliasable hs _ _ _ _ _
  · exact keeps_refuse hs _ _
  · exact keeps_refuse hs _ _

end Lower

end ShaderLowering
