import ShaderLowering.Emission.Types
import ShaderLowering.Layout.Locations
import ShaderLowering.Session

/-!
# Resource variables of a session

Constant blocks, push constants and global resources become variables; all but push constants get a
descriptor binding when all of them are there.
-/

namespace ShaderLowering

open Source (Ty Resource Block Variable Field)
open Spirv (VariableId TypeId)

/-- The resource below all arrays of a type. -/
def Source.Ty.resourceBelow? : Ty → Option (Resource × Option Ty)
  | .alias _ target | .oriented _ target => target.resourceBelow?
  | .array elem _ => elem.resourceBelow?
  | .resource kind elem => some (kind, elem.toOption)
  | _ => none

/-- Whether the type is a constant or texture buffer, or an array of such. -/
def Source.Ty.isBlockArray (ty : Ty) : Bool := ty.resourceBelow?.any (·.1.isBlock)

/-- The structure that a push constant of the given type consists of. -/
def pushConstantRecord? (ty : Ty) : Option Source.Record :=
  match ty.resource? with
  | some (.constantBuffer, some elem) => elem.record?
  | _ => ty.record?

/-- Whether a variable is a member of the global constant buffer. -/
def Source.Variable.isLoose (v : Variable) : Bool :=
  v.storage = .global && !v.attributes.pushConstant && !v.ty.isResourceArray

/-- A variable as a member of a block. -/
def Source.Variable.part (v : Variable) : Field := ⟨v.name, v.ty, v.attributes, v.position⟩

/-- The rule and role of a constant block. -/
def blockRule (options : Options) : Source.BlockKind → Layout.Rule × BlockRole
  | .constant => (options.constantRule, .block)
  | .texture => (options.textureRule, .bufferBlock true)

namespace Emit

/-- A type wrapped into the arrays of a source type. -/
def arrayedLike (base : TypeId) : Ty → Emit TypeId
  | .alias _ target | .oriented _ target => arrayedLike base target
  | .array elem length => do
    let inner ← arrayedLike base elem
    match length with
    | some n => plainType (.array inner (← constant n))
    | none => plainType (.runtimeArray inner)
  | _ => return base

end Emit

namespace Lower

/-- One more resource variable. -/
def addResource (r : ResourceVariable) : Lower Unit :=
  modify fun s => { s with resources := s.resources ++ [r] }

/-- Remembers the variable of a declaration. -/
def declare (id : Nat) (var : VariableId) : Lower Unit :=
  modify fun s => { s with declared := (id, var) :: s.declared }

/-- Remembers the variable of a constant or texture buffer. -/
def declareBlock (id : Nat) (var : VariableId) : Lower Unit := do
  modify fun s => { s with blocks := (id, var) :: s.blocks }
  declare id var

/-- The resource variable of a declaration. -/
def resourceOf (var : VariableId) (v : Variable) : ResourceVariable :=
  { var, position := v.position, register := v.attributes.register,
    binding := v.attributes.binding, counterBinding := v.attributes.counterBinding }

/-- The variable of a constant block; a block has one variable however often it is asked for.
Resources cannot be members. -/
def block (b : Block) : Lower VariableId := do
  match (← get).blocks.lookup b.id with
  | some var => return var
  | none =>
    let parts := b.fields.toList
    let wrong := parts.filter (·.ty.isResourceArray)
    reportAll (wrong.map fun f => (.resourceInBlock f.name b.kind b.name, f.position))
    if !wrong.isEmpty then
      throw (.error .invalid)
    let (rule, role) := blockRule (← options) b.kind
    emit (.moveTo b.position)
    let ty ← emit (.blockType ("type." ++ b.name) parts rule role)
    let var ← emit (.addVariable ⟨some b.name, ty, .uniform, []⟩)
    addResource { var, position := b.position, register := b.attributes.register,
                  binding := b.attributes.binding }
    declareBlock b.id var
    return var

/-- The variable of a global constant or texture buffer, or an array of such. -/
def blockVariable (v : Variable) : Lower VariableId := do
  match (← get).blocks.lookup v.id with
  | some var => return var
  | none =>
    if !v.ty.isBlockArray then
      refuse (.notBlockResource v.name) v.position
    emit (.moveTo v.position)
    let ty ← emit (.type v.ty .unlaid)
    let var ← emit (.addVariable ⟨some v.name, ty, .uniform, []⟩)
    addResource (resourceOf var v)
    declareBlock v.id var
    return var

/-- The variable of the push constant, of which there is one in a compile. -/
def pushConstant (v : Variable) : Lower VariableId := do
  match (← get).pushConstant, pushConstantRecord? v.ty with
  | some (_, first), _ =>
    report .secondPushConstant v.position
    refuse .firstPushConstant first
  | none, none => refuse (.notPushConstant v.ty) v.position
  | none, some record =>
    emit (.moveTo v.position)
    let ty ← emit (.blockType ("type.PushConstant." ++ record.name) record.parts
      (← options).structuredRule .block)
    let var ← emit (.addVariable ⟨some v.name, ty, .pushConstant, []⟩)
    modify fun s => { s with pushConstant := some (var, v.position) }
    declare v.id var
    return var

/-- The variable of the global constant buffer with every loose global, if there are any. -/
def globalBlock (vs : List Variable) : Lower (Option VariableId) := do
  let parts := (vs.filter (·.isLoose)).map (·.part)
  if parts.isEmpty then
    return none
  else
    let ty ← emit (.blockType "type.$Globals" parts (← options).constantRule .block)
    let var ← emit (.addVariable ⟨some "$Globals", ty, .uniform, []⟩)
    addResource { var, position := {} }
    return some var

/-- The hidden counter of a buffer, which is the last resource variable. -/
def hiddenCounter (v : Variable) (owner : Nat) : Lower Unit := do
  let counter ← emit .counterType
  let ty ← emit (.arrayedLike counter v.ty)
  let var ← emit (.addVariable ⟨some ("counter.var." ++ v.name), ty, .uniform, []⟩)
  addResource { var, position := v.position, owner := some owner }
  modify fun s =>
    { s with counters := (v.id, Counter.Map.insert {} ⟨[], var, false⟩) :: s.counters }

/-- The variable of a global resource, with its hidden counter. -/
def resourceVariable (v : Variable) (kind : Resource) (elem : Option Ty) : Lower VariableId := do
  emit (.moveTo v.position)
  let opts ← options
  let (rule, storage) :=
    if kind.isAliasable then (opts.structuredRule, Spirv.StorageClass.uniform)
    else (.unlaid, .uniformConstant)
  let ty ← emit (.type v.ty rule)
  let decorations :=
    if elem.any (Layout.isRelaxedPrecision opts) then [.relaxedPrecision] else []
  let var ← emit (.addVariable ⟨some v.name, ty, storage, decorations⟩)
  let owner := (← get).resources.length
  addResource (resourceOf var v)
  declare v.id var
  if kind.hasCounter then
    hiddenCounter v owner
  return var

/-- The variable of a global that is visible outside and not in the global constant buffer. -/
def globalVariable (v : Variable) : Lower VariableId := do
  if v.attributes.pushConstant then
    pushConstant v
  else if v.ty.isBlockArray then
    blockVariable v
  else
    match v.ty.resourceBelow? with
    | some (kind, elem) =>
      if v.ty.isResourceArray then resourceVariable v kind elem
      else refuse (.notResource v.name) v.position
    | none => refuse (.notResource v.name) v.position

/-- Gives every resource variable its descriptor binding; the answer is whether no explicit ones
collide. -/
def decorateBindings : Lower Bool := do
  let resources := (← get).resources
  let plan := BindingPlan.of resources
  reportAll plan.findings
  (resources.zip plan.slots).forM fun (r, slot) => do
    emit (.decorate r.var (.descriptorSet slot.set))
    emit (.decorate r.var (.binding slot.binding))
  return plan.findings.isEmpty

end Lower

end ShaderLowering
