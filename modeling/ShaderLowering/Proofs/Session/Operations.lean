import ShaderLowering.Proofs.Session.Reachable

/-!
# Sequences of operations

The operations that a client can ask of a session, as data, and what a sequence of them leaves
behind.  They fall into those on the interface, those on resources, the declarations of variables
that may alias a buffer, and requests to the emitter alone.
-/

namespace ShaderLowering

open Source (Ty Param EntryPoint Block Variable Position)
open Spirv (VariableId StorageClass)

/-! ## Operations -/

/-- An operation on the interface of a stage. -/
inductive InterfaceOperation
  | input (p : Param) (perPatch : Bool)
  | output (p : Param) (perPatch : Bool)
  | hullOutput (p : Param) (points : Nat) (invocation : Option Nat)
  | locations
  | entryPoint (e : EntryPoint)

/-- An operation on resources. -/
inductive ResourceOperation
  | block (b : Block)
  | blockVariable (v : Variable)
  | pushConstant (v : Variable)
  | globalBlock (vs : List Variable)
  | globalVariable (v : Variable)
  | bindings

/-- A declaration of a variable that may alias a buffer. -/
inductive LocalDeclaration
  /-- A static or shared global. -/
  | file (v : Variable)
  /-- A variable of a function. -/
  | function (v : Variable)
  | param (p : Param)

/-- An operation of a session. -/
inductive Operation
  | interface (op : InterfaceOperation)
  | resource (op : ResourceOperation)
  | declaration (d : LocalDeclaration)
  | aliasType (ty : Ty)
  | type (ty : Ty) (rule : Layout.Rule) (expected : Option Ty)
  | counterType
  | moveTo (position : Position)

/-- An action without its answer. -/
def Lower.forget {α : Type} (x : Lower α) : Lower Unit := do
  let _ ← x
  return ()

theorem Lower.runOn_forget {α : Type} (x : Lower α) (s : Session) :
    (forget x).runOn s = ((x.runOn s).1.map fun _ => (), (x.runOn s).2) := by
  rcases hx : x.runOn s with ⟨err | a, s'⟩
  · exact Action.runOn_bind_of_error hx
  · exact Action.runOn_bind_of_ok hx

open Lower (forget)

def InterfaceOperation.action : InterfaceOperation → Lower Bool
  | input p perPatch => Lower.createInput p perPatch
  | output p perPatch => Lower.createOutput p perPatch
  | hullOutput p points invocation => Lower.createHullOutput p points invocation
  | locations => Lower.decorateLocations
  | entryPoint e => Lower.entryPoint e

namespace ResourceOperation

def action : ResourceOperation → Lower Unit
  | block b => forget (Lower.block b)
  | blockVariable v => forget (Lower.blockVariable v)
  | pushConstant v => forget (Lower.pushConstant v)
  | globalBlock vs => forget (Lower.globalBlock vs)
  | globalVariable v => forget (Lower.globalVariable v)
  | bindings => forget Lower.decorateBindings

/-- The declaration that an operation is about. -/
def id? : ResourceOperation → Option Nat
  | block b => some b.id
  | blockVariable v | pushConstant v | globalVariable v => some v.id
  | globalBlock _ | bindings => none

end ResourceOperation

namespace LocalDeclaration

def create : LocalDeclaration → Lower VariableId
  | file v => Lower.fileVariable v
  | function v => Lower.functionVariable v
  | param p => Lower.functionParam p

def id : LocalDeclaration → Nat
  | file v | function v => v.id
  | param p => p.id

def ty : LocalDeclaration → Ty
  | file v | function v => v.ty
  | param p => p.ty

end LocalDeclaration

namespace Operation

def action : Operation → Lower Unit
  | interface op => forget op.action
  | resource op => op.action
  | declaration d => forget d.create
  | aliasType ty => forget (Lower.aliasType ty)
  | type ty rule expected => forget (Lower.emit (.typeExpecting ty rule expected))
  | counterType => forget (Lower.emit .counterType)
  | moveTo position => Lower.emit (.moveTo position)

/-- The declaration that an operation is about. -/
def id? : Operation → Option Nat
  | resource op => op.id?
  | declaration d => some d.id
  | _ => none

/-- The operation, if it is one on the interface. -/
def interface? : Operation → Option InterfaceOperation
  | interface op => some op
  | _ => none

/-- The operation, if it is one on resources. -/
def resource? : Operation → Option ResourceOperation
  | resource op => some op
  | _ => none

end Operation

/-! ## Sequences -/

namespace Session

/-- The session after an operation, answered or failed. -/
def after (s : Session) (op : Operation) : Session := (op.action.runOn s).2

/-- The session after operations in order. -/
def run (s : Session) (ops : List Operation) : Session := ops.foldl after s

/-- None of the operations in order breaks off for a fault of its arithmetic. -/
def RunsThrough : Session → List Operation → Prop
  | _, [] => True
  | s, op :: rest =>
    (∀ f, (op.action.runOn s).1 ≠ .error (.fault f)) ∧ RunsThrough (s.after op) rest

variable {stage : Stage} {options : Options} {s : Session}

theorem run_append (s : Session) (ops ops' : List Operation) :
    s.run (ops ++ ops') = (s.run ops).run ops' :=
  List.foldl_append

/-- What an operation leaves is left by an action of a client. -/
theorem exists_isOperation (s : Session) (op : Operation) :
    ∃ (α : Type) (x : Lower α), x.IsOperation ∧ s.after op = (x.runOn s).2 := by
  have hforget : ∀ {α : Type} {x : Lower α}, x.IsOperation →
      ∃ (β : Type) (y : Lower β), y.IsOperation ∧ ((forget x).runOn s).2 = (y.runOn s).2 :=
    fun {_ x} hx => ⟨_, x, hx, congrArg Prod.snd (Lower.runOn_forget x s)⟩
  -- an operation forgets the answer, and for each there is the action with it
  cases op with
  | interface op =>
    cases op with
    | input p perPatch => exact hforget (.input p perPatch)
    | output p perPatch => exact hforget (.output p perPatch)
    | hullOutput p points invocation => exact hforget (.hullOutput p points invocation)
    | locations => exact hforget .locations
    | entryPoint e => exact hforget (.entryPoint e)
  | resource op =>
    cases op with
    | block b => exact hforget (.block b)
    | blockVariable v => exact hforget (.blockVariable v)
    | pushConstant v => exact hforget (.pushConstant v)
    | globalBlock vs => exact hforget (.globalBlock vs)
    | globalVariable v => exact hforget (.globalVariable v)
    | bindings => exact hforget .bindings
  | declaration d =>
    cases d with
    | file v => exact hforget (.fileVariable v)
    | function v => exact hforget (.functionVariable v)
    | param p => exact hforget (.functionParam p)
  | aliasType ty => exact hforget (.aliasType ty)
  | type ty rule expected => exact hforget (.typeExpecting ty rule expected)
  | counterType => exact hforget .counterType
  | moveTo position => exact ⟨_, _, .moveTo position, rfl⟩

theorem Sound.after (hs : s.Sound) (op : Operation) : (s.after op).Sound := by
  obtain ⟨_, x, hx, hafter⟩ := s.exists_isOperation op
  exact hafter ▸ (hx.keeps hs).invariant

theorem Sound.run (hs : s.Sound) (ops : List Operation) : (s.run ops).Sound := by
  induction ops generalizing s with
  | nil => exact hs
  | cons op rest ih => exact ih (hs.after op)

/-- Every sequence of operations leads to a session that a client can have. -/
theorem Reachable.run (h : Session.Reachable stage options s) (ops : List Operation) :
    Session.Reachable stage options (s.run ops) := by
  induction ops generalizing s with
  | nil => exact h
  | cons op rest ih =>
    obtain ⟨_, x, hx, hafter⟩ := s.exists_isOperation op
    exact ih (hafter ▸ .step hx h)

/-- What an action of a client leaves is left by an operation. -/
theorem exists_after {α : Type} {x : Lower α} (hx : x.IsOperation) (s : Session) :
    ∃ op, (x.runOn s).2 = s.after op := by
  have hforget : ∀ op : Operation, op.action = forget x → ∃ op, (x.runOn s).2 = s.after op := by
    intro op hop
    refine ⟨op, ?_⟩
    rw [after, hop, Lower.runOn_forget]
  cases hx with
  | input p perPatch => exact hforget (.interface (.input p perPatch)) rfl
  | output p perPatch => exact hforget (.interface (.output p perPatch)) rfl
  | hullOutput p points invocation =>
    exact hforget (.interface (.hullOutput p points invocation)) rfl
  | locations => exact hforget (.interface .locations) rfl
  | entryPoint e => exact hforget (.interface (.entryPoint e)) rfl
  | block b => exact hforget (.resource (.block b)) rfl
  | blockVariable v => exact hforget (.resource (.blockVariable v)) rfl
  | pushConstant v => exact hforget (.resource (.pushConstant v)) rfl
  | globalBlock vs => exact hforget (.resource (.globalBlock vs)) rfl
  | globalVariable v => exact hforget (.resource (.globalVariable v)) rfl
  | bindings => exact hforget (.resource .bindings) rfl
  | aliasType ty => exact hforget (.aliasType ty) rfl
  | fileVariable v => exact hforget (.declaration (.file v)) rfl
  | functionVariable v => exact hforget (.declaration (.function v)) rfl
  | functionParam p => exact hforget (.declaration (.param p)) rfl
  | typeExpecting ty rule expected => exact hforget (.type ty rule expected) rfl
  | counterType => exact hforget .counterType rfl
  | moveTo position => exact ⟨.moveTo position, rfl⟩

/-- Every session that a client can have is what a sequence of operations leads to. -/
theorem Reachable.exists_run (h : Session.Reachable stage options s) :
    ∃ ops, s = (Session.start stage options).run ops := by
  induction h with
  | start => exact ⟨[], rfl⟩
  | step hx _ ih =>
    obtain ⟨ops, rfl⟩ := ih
    obtain ⟨op, hop⟩ := exists_after hx ((Session.start stage options).run ops)
    exact ⟨ops ++ [op], by rw [hop, run_append]; rfl⟩

end Session

end ShaderLowering
