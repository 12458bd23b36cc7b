import ShaderLowering.Proofs.Session.Invariant

/-!
# Reports and decorations in a session

What a report and a decoration do to a session, as a function of it, and what is left of a variable
after many of them: itself with the decorations that it was given, in order.
-/

namespace ShaderLowering

open Source (Position)
open Spirv (VariableId VariableDecoration)

namespace Session

/-- The variable of the module with a number. -/
def var? (s : Session) (id : VariableId) : Option Spirv.Variable :=
  s.emitter.target.variables.get? id

/-- The session with findings reported. -/
def reported (s : Session) (findings : List (Finding × Position)) : Session :=
  { s with emitter := { s.emitter with
      log := ⟨s.emitter.log.entries ++ findings.map fun f => f.1.diagnostic f.2⟩ } }

/-- The session with further decorations on a variable. -/
def decorated (s : Session) (id : VariableId) (ds : List VariableDecoration) : Session :=
  { s with emitter := { s.emitter with target := { s.emitter.target with
      «variables» := s.emitter.target.variables.modify id (·.gaining ds) } } }

variable {s : Session}

theorem reported_reported (s : Session) (findings findings' : List (Finding × Position)) :
    (s.reported findings).reported findings' = s.reported (findings ++ findings') := by
  simp only [reported, List.map_append, List.append_assoc]

theorem decorated_decorated (s : Session) (id : VariableId) (ds ds' : List VariableDecoration) :
    (s.decorated id ds).decorated id ds' = s.decorated id (ds ++ ds') := by
  have hgaining : (·.gaining ds') ∘ (·.gaining ds) =
      fun v : Spirv.Variable => v.gaining (ds ++ ds') :=
    funext fun v => v.gaining_gaining ds ds'
  simp only [decorated, Spirv.Table.modify, List.modify_modify_eq, hgaining]

@[simp] theorem size_decorated (s : Session) (id : VariableId) (ds : List VariableDecoration) :
    (s.decorated id ds).size = s.size := Spirv.Table.size_modify _ _ _

theorem var?_decorated (s : Session) (id j : VariableId) (ds : List VariableDecoration) :
    (s.decorated id ds).var? j =
      (s.var? j).map (·.gaining (if id = j then ds else [])) := by
  show (Spirv.Table.modify _ _ _).get? j = _
  rw [Spirv.Table.get?_modify]
  split
  · rfl
  · cases h : s.var? j with
    | none => exact h
    | some v => exact h.trans (congrArg some v.gaining_nil.symm)

/-- After many decorations a variable has those that it was given. -/
theorem var?_foldl {α : Type} {g : Session → α → Session} {id : α → VariableId}
    {ds : α → List VariableDecoration}
    (hg : ∀ s a j, (g s a).var? j =
      (s.var? j).map (·.gaining (if id a = j then ds a else []))) (l : List α) (s : Session)
    (j : VariableId) : (l.foldl g s).var? j =
      (s.var? j).map (·.gaining ((l.filter fun a => id a = j).flatMap ds)) := by
  induction l generalizing s with
  | nil => cases h : s.var? j <;> simp [h, Spirv.Variable.gaining_nil]
  | cons a rest ih =>
    rw [List.foldl_cons, ih, hg, Option.map_map]
    congr 1
    funext v
    show (v.gaining _).gaining _ = _
    rw [Spirv.Variable.gaining_gaining, List.filter_cons]
    by_cases hid : id a = j <;> simp [hid]

/-- A variable that was not decorated stays as it is. -/
theorem var?_foldl_of_not_mem {α : Type} {g : Session → α → Session} {id : α → VariableId}
    {ds : α → List VariableDecoration}
    (hg : ∀ s a j, (g s a).var? j =
      (s.var? j).map (·.gaining (if id a = j then ds a else []))) {l : List α} {j : VariableId}
    (hl : ∀ a ∈ l, id a ≠ j) (s : Session) : (l.foldl g s).var? j = s.var? j := by
  have hnone : l.filter (fun a => id a = j) = [] :=
    List.filter_eq_nil_iff.2 fun a ha => by simpa using hl a ha
  rw [var?_foldl hg, hnone]
  cases h : s.var? j with
  | none => rfl
  | some v => exact congrArg some v.gaining_nil

/-- After many decorations a variable that was decorated once has what it was given then. -/
theorem var?_foldl_of_mem {α : Type} {g : Session → α → Session} {id : α → VariableId}
    {ds : α → List VariableDecoration}
    (hg : ∀ s a j, (g s a).var? j =
      (s.var? j).map (·.gaining (if id a = j then ds a else []))) {l : List α}
    (hl : (l.map id).Nodup) {a : α} (ha : a ∈ l) (s : Session) :
    (l.foldl g s).var? (id a) = (s.var? (id a)).map (·.gaining (ds a)) := by
  have hfilter : l.filter (fun b => id b = id a) = [a] := by
    induction l with
    | nil => cases ha
    | cons b rest ih =>
      rw [List.map_cons, List.nodup_cons] at hl
      rcases List.mem_cons.1 ha with rfl | ha
      · have hrest : rest.filter (fun b => id b = id a) = [] := by
          rw [List.filter_eq_nil_iff]
          intro b hb hid
          exact hl.1 (of_decide_eq_true hid ▸ List.mem_map_of_mem hb)
        rw [List.filter_cons_of_pos (by simp), hrest]
      · have hne : id b ≠ id a := fun hid => hl.1 (hid ▸ List.mem_map_of_mem ha)
        rw [List.filter_cons_of_neg (by simpa using hne), ih hl.2 ha]
  rw [var?_foldl hg, hfilter, List.flatMap_singleton]

end Session

namespace Lower

variable {s : Session}

theorem runOn_report (f : Finding) (position : Position) (s : Session) :
    (report f position).runOn s = (.ok (), s.reported [(f, position)]) := rfl

theorem runOn_reportAll : (findings : List (Finding × Position)) → (s : Session) →
    (reportAll findings).runOn s = (.ok (), s.reported findings)
  | [], s => by
    show (_, s) = _
    simp only [Session.reported, List.map_nil, List.append_nil]
  | f :: rest, s => by
    have hrest := runOn_reportAll rest (s.reported [f])
    rw [Session.reported_reported] at hrest
    exact (Action.runOn_bind_of_ok (runOn_report f.1 f.2 s)).trans hrest

/-- A variable that exists can be decorated. -/
theorem runOn_decorate {id : VariableId} (hid : id < s.size) (d : VariableDecoration) :
    (emit (.decorate id d)).runOn s = (.ok (), s.decorated id [d]) := by
  have htarget : s.emitter.target.decorate id d =
      .ok (s.decorated id [d]).emitter.target := if_pos hid
  rw [runOn_emit, Emit.decorate, Action.runOn_bind_of_ok (Action.runOn_get _), htarget]
  rfl

end Lower

end ShaderLowering
