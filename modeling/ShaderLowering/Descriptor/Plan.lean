import ShaderLowering.Finding
import ShaderLowering.Spirv.Entry

/-!
# Descriptor bindings

Every resource variable gets a descriptor set and a binding in it.  Bindings that are asked for by
an attribute come first, those of a counter in the set of its buffer; then registers; every other
variable takes the lowest free binding of its set.
-/

namespace ShaderLowering

open Source (Position BindingRequest Register)
open Spirv (ResourceBinding)

/-- A variable that needs a descriptor binding. -/
structure ResourceVariable where
  var : Spirv.VariableId
  position : Position
  register : Option Register := none
  binding : Option BindingRequest := none
  /-- The binding asked for on behalf of the hidden counter. -/
  counterBinding : Option Nat := none
  /-- For a hidden counter, the number of its buffer among the resource variables. -/
  owner : Option Nat := none
deriving DecidableEq, Repr, Inhabited

namespace ResourceVariable

/-- The set that the variable is explicitly placed in. -/
def explicitSet? (r : ResourceVariable) : Option Nat :=
  (r.binding.map (·.set)).or (r.register.map (·.space))

/-- The buffer that a hidden counter belongs to. -/
def owner? (all : List ResourceVariable) (r : ResourceVariable) : Option ResourceVariable :=
  r.owner.bind (all[·]?)

/-- The place that an attribute asks for. -/
def requested? (all : List ResourceVariable) (r : ResourceVariable) : Option ResourceBinding :=
  match r.binding with
  | some b => some ⟨b.set, b.binding⟩
  | none => do
    let owner ← r.owner? all
    return ⟨owner.explicitSet?.getD 0, ← owner.counterBinding⟩

/-- The place that the register stands for. -/
def registered? (r : ResourceVariable) : Option ResourceBinding :=
  r.register.map fun reg => ⟨reg.space, reg.number⟩

/-- The explicit place of a variable. -/
def explicit? (all : List ResourceVariable) (r : ResourceVariable) : Option ResourceBinding :=
  (r.requested? all).or r.registered?

/-- The set in which a variable without an explicit place gets one. -/
def automaticSet (all : List ResourceVariable) (r : ResourceVariable) : Nat :=
  ((r.owner? all).bind (·.explicitSet?)).getD 0

end ResourceVariable

/-- The findings about explicit places that are claimed twice, given the places claimed before with
the place in the source of the first claim. -/
def repeatedBindings :
    List (ResourceBinding × Position) → List (ResourceBinding × Position) →
      List (Finding × Position)
  | _, [] => []
  | claimed, (slot, position) :: rest =>
    match claimed.lookup slot with
    | none => repeatedBindings (claimed ++ [(slot, position)]) rest
    | some first =>
      (.bindingTaken slot.binding slot.set, position) :: (.firstUseOfBinding, first)
        :: repeatedBindings claimed rest

/-- The lowest binding of a set that is not taken; one of the first `taken.length + 1` is free. -/
def lowestBinding (taken : List ResourceBinding) (set : Nat) : Nat :=
  ((List.range (taken.length + 1)).find? fun binding => decide (⟨set, binding⟩ ∉ taken)).getD 0

/-- The places of variables, in order, given what is taken. -/
def assignBindings (all : List ResourceVariable) :
    List ResourceBinding → List ResourceVariable → List ResourceBinding
  | _, [] => []
  | taken, r :: rest =>
    match r.explicit? all with
    | some slot => slot :: assignBindings all taken rest
    | none =>
      let set := r.automaticSet all
      let slot : ResourceBinding := ⟨set, lowestBinding taken set⟩
      slot :: assignBindings all (taken ++ [slot]) rest

/-- The bindings of all resource variables. -/
structure BindingPlan where
  findings : List (Finding × Position)
  /-- The place of every variable, in order. -/
  slots : List ResourceBinding
deriving DecidableEq, Repr, Inhabited

/-- The explicit places in the order in which they are claimed: first those of attributes, then
those of registers. -/
def claims (all : List ResourceVariable) : List (ResourceBinding × Position) :=
  (all.filterMap fun r => (r.requested? all).map (·, r.position))
    ++ all.filterMap fun r =>
      if (r.requested? all).isSome then none else r.registered?.map (·, r.position)

/-- The plan for all resource variables. -/
def BindingPlan.of (all : List ResourceVariable) : BindingPlan where
  findings := repeatedBindings [] (claims all)
  slots := assignBindings all ((claims all).map (·.1)) all

end ShaderLowering
