import ShaderLowering.Proofs.Emission.Pointers
import ShaderLowering.Proofs.Session.Assignments

/-!
# When a module has to be legalized

A session notes that its module has to be legalized as soon as a type that may alias a buffer was
emitted for a variable, and it never takes the note back.  The note is exact: it is there if and
only if some operation that answered produced a type with a pointer in it
(`Session.needsLegalization_exact`).  A request whose type cannot be emitted leaves the note as it
is, and once the type is there, nothing that is left to do for a variable fails.
-/

namespace ShaderLowering

open Source (Ty Position)
open Spirv (TypeId StorageClass)

namespace Lower

variable {α β : Type}

/-- The action notes that the module has to be legalized where it answers and `isAlias` holds, and
does not touch the note else. -/
def NotesIf (x : Lower α) (isAlias : Bool) : Prop :=
  ∀ s, ((x.runOn s).2).needsLegalization =
    (s.needsLegalization || ((x.runOn s).1.isOk && isAlias))

/-- The action answers and does not touch the note. -/
def Unnoticed (x : Lower α) : Prop :=
  ∀ s, ∃ a s', x.runOn s = (.ok a, s') ∧ s'.needsLegalization = s.needsLegalization

theorem Unnoticed.bind {x : Lower α} {f : α → Lower β} (hx : Unnoticed x)
    (hf : ∀ a, Unnoticed (f a)) : Unnoticed (x >>= f) := by
  intro s
  obtain ⟨a, s₁, hrun, hnote⟩ := hx s
  obtain ⟨b, s₂, hrun₂, hnote₂⟩ := hf a s₁
  exact ⟨b, s₂, (Action.runOn_bind_of_ok hrun).trans hrun₂, hnote₂.trans hnote⟩

theorem unnoticed_pure (a : α) : Unnoticed (pure a : Lower α) := fun s => ⟨a, s, rfl, rfl⟩

theorem unnoticed_modify {f : Session → Session}
    (h : ∀ s, (f s).needsLegalization = s.needsLegalization) :
    Unnoticed (modify f : Lower Unit) := fun s => ⟨(), f s, rfl, h s⟩

/-- What comes before and after without touching the note does not matter to it. -/
theorem NotesIf.bind_left {x : Lower α} {f : α → Lower β} {isAlias : Bool} (hx : Unnoticed x)
    (hf : ∀ a, NotesIf (f a) isAlias) : NotesIf (x >>= f) isAlias := by
  intro s
  obtain ⟨a, s₁, hrun, hnote⟩ := hx s
  rw [Action.runOn_bind_of_ok hrun, hf a s₁, hnote]

theorem NotesIf.bind_right {x : Lower α} {f : α → Lower β} {isAlias : Bool}
    (hx : NotesIf x isAlias) (hf : ∀ a, Unnoticed (f a)) : NotesIf (x >>= f) isAlias := by
  intro s
  have hnote := hx s
  rcases hrun : x.runOn s with ⟨err | a, s₁⟩
  · rw [hrun] at hnote
    rw [Action.runOn_bind_of_error hrun]
    exact hnote
  · obtain ⟨b, s₂, hrun₂, hnote₂⟩ := hf a s₁
    rw [hrun] at hnote
    rw [Action.runOn_bind_of_ok hrun, hrun₂, hnote₂]
    exact hnote

/-! ## Declarations of variables that may alias a buffer -/

theorem notesIf_aliasType (ty : Ty) : NotesIf (aliasType ty) ty.holdsAliasable := by
  intro s
  rcases hrun : (emit (.type ty .unlaid)).runOn s with ⟨err | id, s₁⟩
  · have hs₁ : s₁.needsLegalization = s.needsLegalization :=
      congrArg (·.2.needsLegalization) hrun.symm
    rw [aliasType, Action.runOn_bind_of_error hrun]
    exact hs₁.trans (Bool.or_false _).symm
  · have hs₁ : s₁.needsLegalization = s.needsLegalization :=
      congrArg (·.2.needsLegalization) hrun.symm
    rw [aliasType, Action.runOn_bind_of_ok hrun, ← hs₁]
    cases ty.holdsAliasable with
    | true => exact (Bool.or_true _).symm
    | false => exact (Bool.or_false _).symm

theorem unnoticed_aliasCounters (id : Nat) (storage : StorageClass) (sites : List CounterSite) :
    Unnoticed (aliasCounters id storage sites) := by
  have hentries : Unnoticed (sites.mapM fun site => emit (.aliasCounter storage site)) := by
    induction sites with
    | nil => exact unnoticed_pure []
    | cons site rest ih =>
      rw [List.mapM_cons]
      exact Unnoticed.bind (fun s => ⟨_, _, rfl, rfl⟩) fun e =>
        ih.bind fun entries => unnoticed_pure (e :: entries)
  refine hentries.bind fun entries => ?_
  cases !entries.isEmpty with
  | true => exact unnoticed_modify fun s => rfl
  | false => exact unnoticed_pure ()

theorem notesIf_aliasable (id : Nat) (name : String) (ty : Ty) (storage : StorageClass)
    (position : Position) : NotesIf (aliasable id name ty storage position) ty.holdsAliasable := by
  refine NotesIf.bind_left (fun s => ⟨_, _, rfl, rfl⟩) fun _ => ?_
  refine (notesIf_aliasType ty).bind_right fun r => ?_
  refine Unnoticed.bind (fun s => ⟨_, _, rfl, rfl⟩) fun options => ?_
  refine Unnoticed.bind (fun s => ⟨_, _, rfl, rfl⟩) fun var => ?_
  refine Unnoticed.bind (fun s => ⟨_, _, rfl, rfl⟩) fun _ => ?_
  cases r.2 with
  | true => exact (unnoticed_aliasCounters _ _ _).bind fun _ => unnoticed_pure var
  | false => exact unnoticed_pure var

theorem notesIf_refuse (f : Finding) (position : Position) (isAlias : Bool) :
    NotesIf (refuse f position : Lower α) isAlias := fun _ => (Bool.or_false _).symm

theorem notesIf_create (d : LocalDeclaration) : NotesIf d.create d.ty.holdsAliasable := by
  cases d with
  | function v => exact notesIf_aliasable _ _ _ _ _
  | param p => exact notesIf_aliasable _ _ _ _ _
  | file v =>
    show NotesIf (fileVariable v) v.ty.holdsAliasable
    rw [fileVariable.eq_def]
    split
    · exact notesIf_aliasable _ _ _ _ _
    · exact notesIf_aliasable _ _ _ _ _
    · exact notesIf_refuse _ _ _
    · exact notesIf_refuse _ _ _

end Lower

/-! ## Types that operations produce -/

/-- The type of the variable that is declared, or that is asked for. -/
def Operation.aliased? : Operation → Option Ty
  | declaration d => some d.ty
  | aliasType ty => some ty
  | _ => none

/-- The operation is about a type that mentions no patch and no stream. -/
def Operation.MayAlias (op : Operation) : Prop :=
  ∃ ty, op.aliased? = some ty ∧ ty.mentionsInterface = false

namespace Session

variable {s : Session} {op : Operation} {ty : Ty} {stage : Stage} {options : Options}

/-- The operation answers, with a type or with a variable of the type. -/
def Produces (s : Session) : Operation → TypeId → Prop
  | .declaration d, id => ∃ var v, (d.create.runOn s).1 = .ok var ∧
      (d.create.runOn s).2.var? var = some v ∧ v.ty = id
  | .aliasType ty, id => ∃ isAlias, ((Lower.aliasType ty).runOn s).1 = .ok (id, isAlias)
  | _, _ => False

/-- The operation answers, and there is a pointer in the type that it produces. -/
def ProducesPointer (s : Session) (op : Operation) : Prop :=
  ∃ id tree, s.Produces op id ∧ (s.after op).emitter.target.tree? id = some tree ∧
    tree.hasPointer = true

theorem after_aliasType (s : Session) (ty : Ty) :
    s.after (.aliasType ty) = ((Lower.aliasType ty).runOn s).2 :=
  congrArg Prod.snd (Lower.runOn_forget _ s)

/-- There is a pointer in the type of a variable exactly if it may alias a buffer. -/
theorem hasPointer_of_written {tree : Spirv.TypeTree} (hty : ty.mentionsInterface = false)
    (h : Written.ofTy options ty .unlaid {} none = .ok tree) :
    tree.hasPointer = ty.holdsAliasable := Written.hasPointer_ofTy ty hty h

/-- An operation that answers produces a pointer exactly if its type may alias a buffer. -/
theorem producesPointer_declaration_iff (hs : s.Sound) (d : LocalDeclaration)
    (hty : d.ty.mentionsInterface = false) :
    s.ProducesPointer (.declaration d) ↔
      (d.create.runOn s).1.isOk = true ∧ d.ty.holdsAliasable = true := by
  rcases hrun : d.create.runOn s with ⟨err | var, s'⟩
  · constructor
    · rintro ⟨id, tree, ⟨var, v, hok, -⟩, -⟩
      rw [hrun] at hok
      cases hok
    · rintro ⟨⟨⟩, -⟩
  · -- the type of the variable is in the session that is left
    obtain ⟨storage, entries, h⟩ := Lower.declared_of_create hs hrun
    obtain ⟨tree, hwritten, v, hv, -, htree⟩ := h.typed
    rw [← hasPointer_of_written hty hwritten]
    have hafter : s.after (.declaration d) = s' := by rw [after_declaration, hrun]
    constructor
    · rintro ⟨id, tree', ⟨var', v', hok, hv', rfl⟩, htree', hpointer⟩
      rw [hrun] at hok hv'
      cases hok
      cases hv.symm.trans hv'
      rw [hafter] at htree'
      cases htree.symm.trans htree'
      exact ⟨rfl, hpointer⟩
    · rintro ⟨-, hpointer⟩
      exact ⟨v.ty, tree, ⟨var, v, by rw [hrun], by rw [hrun]; exact hv, rfl⟩,
        by rw [hafter]; exact htree, hpointer⟩

theorem producesPointer_aliasType_iff (hs : s.Sound) (hty : ty.mentionsInterface = false) :
    s.ProducesPointer (.aliasType ty) ↔
      ((Lower.aliasType ty).runOn s).1.isOk = true ∧ ty.holdsAliasable = true := by
  rcases hrun : (Lower.aliasType ty).runOn s with ⟨err | r, s'⟩
  · constructor
    · rintro ⟨id, tree, ⟨isAlias, hok⟩, -⟩
      rw [hrun] at hok
      cases hok
    · rintro ⟨⟨⟩, -⟩
  · obtain ⟨-, tree, hwritten, htree⟩ := Lower.tree?_of_aliasType hs hrun
    rw [← hasPointer_of_written hty hwritten]
    have hafter : s.after (.aliasType ty) = s' := by rw [after_aliasType, hrun]
    constructor
    · rintro ⟨id, tree', ⟨isAlias, hok⟩, htree', hpointer⟩
      rw [hrun] at hok
      cases hok
      rw [hafter] at htree'
      cases htree.symm.trans htree'
      exact ⟨rfl, hpointer⟩
    · rintro ⟨-, hpointer⟩
      exact ⟨r.1, tree, ⟨r.2, by rw [hrun]⟩, by rw [hafter]; exact htree, hpointer⟩

/-- **One operation notes that the module has to be legalized exactly if it produces a pointer.** -/
theorem needsLegalization_after_iff (hs : s.Sound) (hop : op.aliased? = some ty)
    (hty : ty.mentionsInterface = false) :
    (s.after op).needsLegalization = true ↔
      s.needsLegalization = true ∨ s.ProducesPointer op := by
  cases op with
  | declaration d =>
    cases hop
    rw [after_declaration, Lower.notesIf_create d s, Bool.or_eq_true, Bool.and_eq_true,
      producesPointer_declaration_iff hs d hty]
  | aliasType ty =>
    cases hop
    rw [after_aliasType, Lower.notesIf_aliasType ty s, Bool.or_eq_true, Bool.and_eq_true,
      producesPointer_aliasType_iff hs hty]
  | _ => cases hop

/-- Some operation in a sequence produces a pointer. -/
def ProducesPointerIn (s : Session) (ops : List Operation) : Prop :=
  ∃ before op after, ops = before ++ op :: after ∧ (s.run before).ProducesPointer op

theorem producesPointerIn_cons {ops : List Operation} :
    s.ProducesPointerIn (op :: ops) ↔
      s.ProducesPointer op ∨ (s.after op).ProducesPointerIn ops := by
  constructor
  · rintro ⟨_ | ⟨first, before⟩, op', after, hops, hpointer⟩
    · cases hops
      exact .inl hpointer
    · cases hops
      exact .inr ⟨before, op', after, rfl, hpointer⟩
  · rintro (hpointer | ⟨before, op', after, rfl, hpointer⟩)
    · exact ⟨[], op, ops, rfl, hpointer⟩
    · exact ⟨op :: before, op', after, rfl, hpointer⟩

/-- A run keeps the note and notes every pointer that is produced. -/
theorem needsLegalization_run_iff (hs : s.Sound) {ops : List Operation}
    (hops : ∀ op ∈ ops, op.MayAlias) :
    (s.run ops).needsLegalization = true ↔
      s.needsLegalization = true ∨ s.ProducesPointerIn ops := by
  -- on the operations, from any sound session
  induction ops generalizing s with
  | nil =>
    refine ⟨.inl, fun h => h.elim id ?_⟩
    rintro ⟨before, op, after, hops, -⟩
    exact absurd hops (by simp)
  | cons op ops ih =>
    obtain ⟨ty, hop, hty⟩ := hops op List.mem_cons_self
    have hrest := ih (hs.after op) fun op hop => hops op (List.mem_cons_of_mem _ hop)
    rw [producesPointerIn_cons, ← or_assoc, ← needsLegalization_after_iff hs hop hty]
    exact hrest

/-- **The note is exact.**  In every session that operations lead to, a type without a memory layout
that mentions no patch and no stream has a pointer in it exactly if it may alias a buffer.  After
declarations of variables of such types and requests for such types, in any number and order, the
module has to be legalized exactly if one of them answered with a type that has a pointer in it. -/
theorem needsLegalization_exact (stage : Stage) (options : Options) :
    (∀ s, Session.Reachable stage options s → ∀ ty, ty.mentionsInterface = false →
      ∀ id s', (Lower.emit (.type ty .unlaid)).runOn s = (.ok id, s') →
      ∃ tree, s'.emitter.target.tree? id = some tree ∧
        (tree.hasPointer = true ↔ ty.holdsAliasable = true)) ∧
    ∀ ops, (∀ op ∈ ops, op.MayAlias) →
      (((start stage options).run ops).needsLegalization = true ↔
        ∃ before op after, ops = before ++ op :: after ∧
          ((start stage options).run before).ProducesPointer op) := by
  refine ⟨fun s hs ty hty id s' hrun => ?_, fun ops hops => ?_⟩
  · obtain ⟨e', htypeRun, rfl⟩ := Lower.runOn_emit_eq_ok_iff.1 hrun
    have htype := Emit.realizes_ofTy ty .unlaid {} none hs.sound.emitter
    obtain ⟨tree, hwritten, htree⟩ := htype.exists_of_run htypeRun
    exact ⟨tree, htree, by rw [hasPointer_of_written hty hwritten]⟩
  · have hstart : (start stage options).needsLegalization ≠ true := Bool.false_ne_true
    rw [needsLegalization_run_iff (sound_start stage options) hops, or_iff_right hstart,
      ProducesPointerIn]

end Session

/-- A number, a buffer without an element and a parameter that is a queue. -/
def legalized : List Operation :=
  [.aliasType (.scalar .single), .aliasType (.resource (.structured .append) .absent),
    .declaration queueParam]

namespace Session

/-- The number is no pointer, the buffer has no type, and the queue has two pointers in it. -/
theorem needsLegalization_exact_legalized :
    (∀ op ∈ legalized, op.MayAlias) ∧
    (∃ s', (Lower.emit (.type queueParam.ty .unlaid)).runOn (start .compute {}) = (.ok 7, s') ∧
      ∃ tree, s'.emitter.target.tree? 7 = some tree ∧
        (tree.hasPointer = true ↔ queueParam.ty.holdsAliasable = true)) ∧
    ((start .compute {}).run (legalized.take 2)).needsLegalization = false ∧
    ∃ before op after, legalized = before ++ op :: after ∧
      ((start .compute {}).run before).ProducesPointer op := by
  have hops : ∀ op ∈ legalized, op.MayAlias := by
    refine List.forall_mem_cons.2 ⟨⟨_, rfl, rfl⟩, ?_⟩
    refine List.forall_mem_cons.2 ⟨⟨_, rfl, rfl⟩, ?_⟩
    exact List.forall_mem_singleton.2 ⟨_, rfl, by decide⟩
  have hanswer :
      ((Lower.emit (.type queueParam.ty .unlaid)).runOn (start .compute {})).1 = .ok 7 := by
    decide +kernel
  have hrun := Prod.fst_eq_iff.1 hanswer
  have hexact := needsLegalization_exact .compute {}
  exact ⟨hops, ⟨_, hrun, hexact.1 _ .start _ (by decide) _ _ hrun⟩, by decide +kernel,
    (hexact.2 legalized hops).1 (by decide +kernel)⟩

end Session

end ShaderLowering
