import ShaderLowering.Session.Resources

/-!
# Aliasing variables of a session

Private, shared and function variables.  One that holds a buffer is a pointer to the buffer that it
was assigned from, and the module has to be legalized before it is valid.  For every buffer with a
hidden counter it has a pointer to a counter as well.
-/

namespace ShaderLowering

open Source (Ty OptionalTy Fields Variable Param Position)
open Spirv (VariableId TypeId StorageClass)

/-- A buffer with a hidden counter inside a declaration. -/
structure CounterSite where
  name : String
  path : Counter.Path
deriving DecidableEq, Repr, Inhabited

/-- The number of members that a base structure makes: it comes before the fields. -/
def Source.OptionalTy.memberCount : OptionalTy → Nat
  | .absent => 0
  | .present _ => 1

mutual

/-- The buffers with hidden counters in a type, below a name and a path.  Arrays are not entered.
A base structure is member 0 and shifts the fields by one. -/
def counterSites (name : String) (path : Counter.Path) : Ty → List CounterSite
  | .alias _ target | .oriented _ target => counterSites name path target
  | .resource kind _ => if kind.hasCounter then [⟨name, path⟩] else []
  | .struct _ base fields =>
    baseCounterSites name (path.child 0) base
      ++ fieldCounterSites name path base.memberCount fields
  | _ => []

/-- The buffers with hidden counters in a base structure. -/
def baseCounterSites (name : String) (path : Counter.Path) : OptionalTy → List CounterSite
  | .absent => []
  | .present ty => counterSites name path ty

/-- The buffers with hidden counters in fields that are numbered from `first`. -/
def fieldCounterSites (name : String) (path : Counter.Path) (first : Nat) :
    Fields → List CounterSite
  | .nil => []
  | .cons fieldName ty _ _ rest =>
    counterSites (name ++ "." ++ fieldName) (path.child first) ty
      ++ fieldCounterSites name path (first + 1) rest

end

namespace Emit

/-- The aliasing counter of a buffer. -/
def aliasCounter (storage : StorageClass) (site : CounterSite) : Emit Counter.Entry := do
  let counter ← counterType
  let pointer ← plainType (.pointer counter .uniform)
  let var ← addVariable ⟨some ("counter.var." ++ site.name), pointer, storage, []⟩
  return ⟨site.path, var, true⟩

end Emit

namespace Lower

/-- The type of a variable that may alias a buffer, and whether it does. -/
def aliasType (ty : Ty) : Lower (TypeId × Bool) := do
  let id ← emit (.type ty .unlaid)
  if ty.holdsAliasable then
    modify fun s => { s with needsLegalization := true }
  return (id, ty.holdsAliasable)

/-- Creates the aliasing counters of a declaration. -/
def aliasCounters (id : Nat) (storage : StorageClass) (sites : List CounterSite) :
    Lower Unit := do
  let entries ← sites.mapM fun site => emit (.aliasCounter storage site)
  if !entries.isEmpty then
    modify fun s => { s with counters := (id, entries.foldl .insert {}) :: s.counters }

/-- A variable that may alias a buffer. -/
def aliasable (id : Nat) (name : String) (ty : Ty) (storage : StorageClass) (position : Position) :
    Lower VariableId := do
  emit (.moveTo position)
  let (typeId, isAlias) ← aliasType ty
  let decorations :=
    if Layout.isRelaxedPrecision (← options) ty then [.relaxedPrecision] else []
  let var ← emit (.addVariable ⟨some name, typeId, storage, decorations⟩)
  declare id var
  if isAlias then
    aliasCounters id storage (counterSites name [] ty)
  return var

/-- The variable of a static or shared global. -/
def fileVariable (v : Variable) : Lower VariableId :=
  match v.storage with
  | .static => aliasable v.id v.name v.ty .privateGlobal v.position
  | .groupShared => aliasable v.id v.name v.ty .workgroup v.position
  | .global | .function => refuse (.notFileVariable v.name) v.position

/-- The variable of a function. -/
def functionVariable (v : Variable) : Lower VariableId :=
  aliasable v.id v.name v.ty .function v.position

/-- The variable of a function parameter. -/
def functionParam (p : Param) : Lower VariableId :=
  aliasable p.id p.name p.ty .function p.position

end Lower

namespace Session

/-- The variable of a declaration. -/
def variableOf? (s : Session) (id : Nat) : Option VariableId := s.declared.lookup id

/-- The counters of a declaration. -/
def counterMap? (s : Session) (id : Nat) : Option Counter.Map := s.counters.lookup id

/-- The counter at a path of a declaration. -/
def counter? (s : Session) (id : Nat) (path : Counter.Path) : Option Counter.Entry :=
  (s.counterMap? id).bind (·.get? path)

/-- The copies of counters that an assignment between members of declarations implies. -/
def assignCounters (s : Session) (destination : Nat) (destinationPath : Counter.Path)
    (source : Nat) (sourcePath : Counter.Path) : Except CounterError (List Counter.Copy) :=
  match s.counterMap? destination, s.counterMap? source with
  | some d, some c => d.assignAt destinationPath c sourcePath
  | _, _ => .error .noCounters

end Session

end ShaderLowering
