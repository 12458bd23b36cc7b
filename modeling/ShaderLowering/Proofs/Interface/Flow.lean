import ShaderLowering.Session.EntryPoint
import ShaderLowering.Proofs.Distance.Arrays

/-!
# What flows through an interface

The leaves of an entry point, read off its declaration: every parameter in each direction in which
it passes a value, and the return value, of the entry point and of its per-patch function.  They are
told apart from what is done with them:

* `leaves` are all of them, in order of declaration;
* `loweredLeaves` are those for which something is created;
* `droppedLeaves` are the others, the output parameters of the per-patch function;
* `distanceParts` are the parts of the same declarations that are recorded as distances, found by a
  walk of its own.
-/

namespace ShaderLowering

open Source (Ty Field Param Function EntryPoint Position)

/-- Two lists for each element can be collected side by side or one after the other. -/
theorem flatMap_append_perm {α β : Type} (f g : α → List β) : (l : List α) →
    (l.flatMap fun a => f a ++ g a).Perm (l.flatMap f ++ l.flatMap g)
  | [] => .refl _
  | a :: rest => by
    rw [List.flatMap_cons, List.flatMap_cons, List.flatMap_cons, List.append_assoc,
      List.append_assoc]
    have hswap : (g a ++ (rest.flatMap f ++ rest.flatMap g)).Perm
        (rest.flatMap f ++ (g a ++ rest.flatMap g)) := by
      rw [← List.append_assoc, ← List.append_assoc]
      exact List.perm_append_comm.append_right _
    exact (((flatMap_append_perm f g rest).append_left _).trans hswap).append_left _

/-- A leaf at its signature point, with the semantic that it ends up with. -/
structure InterfaceLeaf where
  point : SignaturePoint
  decl : Field
  semantic : Option Semantic
deriving DecidableEq, Repr, Inhabited

/-- What tells the interface variables of one entry point apart. -/
structure InterfaceLabel where
  point : SignaturePoint
  semantic : Option Semantic
  position : Position
deriving DecidableEq, Repr, Inhabited

namespace InterfaceLeaf

variable (stage : Stage) (l : InterfaceLeaf)

/-- The direction in which the leaf flows. -/
def direction : Direction := l.point.direction

/-- Where the leaf lives, if it is allowed. -/
def site? : Option Site := (placementOf stage l.point l.decl l.semantic).toOption.map (·.site)

/-- The label of the leaf. -/
def label : InterfaceLabel := ⟨l.point, l.semantic, l.decl.position⟩

/-- The label of a leaf at a location. -/
def located? : Option InterfaceLabel := if l.site? stage = some .location then some l.label else none

/-- The kind of distance that a packed leaf is part of. -/
def packed? : Option DistanceKind :=
  if l.site? stage = some .packed then l.semantic.bind (·.kind.distance?) else none

end InterfaceLeaf

/-- The label of a variable at a location. -/
def InterfaceVariable.located? (v : InterfaceVariable) : Option InterfaceLabel :=
  if v.isLocated then some ⟨v.point, v.semantic, v.position⟩ else none

/-- The leaf that an item creates at a signature point. -/
def InterfaceItem.leaf? (point : SignaturePoint) : InterfaceItem → Option InterfaceLeaf
  | .leaf decl semantic => some ⟨point, decl, semantic⟩
  | .remark _ _ => none

/-- The leaves of a declaration at a signature point. -/
def InterfaceLeaf.ofDeclaration (decl : Field) (point : Option SignaturePoint) :
    List InterfaceLeaf :=
  if decl.ty.isVoid then []
  else
    match point with
    | none => []
    | some point => (InterfaceItem.ofDeclaration decl).filterMap (·.leaf? point)

/-- All leaves of a declaration are at its signature point. -/
theorem InterfaceLeaf.point_of_mem_ofDeclaration {decl : Field} {point : Option SignaturePoint}
    {l : InterfaceLeaf} (h : l ∈ InterfaceLeaf.ofDeclaration decl point) : point = some l.point := by
  rw [ofDeclaration.eq_def] at h
  split at h
  · cases h
  · split at h
    · cases h
    · obtain ⟨item, -, hitem⟩ := List.mem_filterMap.1 h
      cases item <;> cases hitem
      rfl

namespace Source

/-! ## Leaves of a parameter -/

namespace Param

variable (stage : Stage) (perPatch : Bool) (p : Param)

/-- The leaves that a parameter passes in. -/
def inputLeaves : List InterfaceLeaf :=
  if p.isStream then []
  else
    match p.perVertex stage perPatch with
    | (none, _) => []
    | (some ty, vertices) =>
      let role : Role :=
        if perPatch then .patchConstant else if vertices.isSome then .perVertex else .plain
      InterfaceLeaf.ofDeclaration (Lower.declarationOf p ty) (SignaturePoint.of? stage .input role)

/-- The leaves that a parameter or return value passes out. -/
def outputLeaves : List InterfaceLeaf :=
  if stage = .hull ∧ !perPatch then
    InterfaceLeaf.ofDeclaration (Lower.declarationOf p p.ty) (some .hullPointOut)
  else
    match (p.perVertex stage perPatch).1 with
    | none => []
    | some ty =>
      InterfaceLeaf.ofDeclaration (Lower.declarationOf p ty)
        (SignaturePoint.of? stage .output (if perPatch then .patchConstant else .plain))

/-- The leaves that a parameter passes in, if it does. -/
def inLeaves : List InterfaceLeaf := if p.isInput then p.inputLeaves stage perPatch else []

/-- The leaves that a parameter passes out, if it does. -/
def outLeaves : List InterfaceLeaf := if p.isOutput then p.outputLeaves stage perPatch else []

/-- The parts of a parameter that are recorded as distances, with their directions. -/
def distanceParts : List (Direction × DistanceLeaf) :=
  match (p.perVertex stage perPatch).1 with
  | none => []
  | some ty =>
    let parts := distanceLeaves ty p.attributes.semantic p.position ty
    (if p.isInput && !p.isStream then parts.map (Direction.input, ·) else [])
      ++ (if p.isOutput then parts.map (Direction.output, ·) else [])

end Param

/-! ## Leaves of an entry point -/

namespace Function

variable (stage : Stage) (f : Function)

/-- The leaves of a function: of its parameters, then of its return value. -/
def leaves (perPatch : Bool) : List InterfaceLeaf :=
  f.params.flatMap (fun p => p.inLeaves stage perPatch ++ p.outLeaves stage perPatch)
    ++ f.returnParam.outputLeaves stage perPatch

/-- The leaves of a per-patch function that are lowered. -/
def patchLeaves : List InterfaceLeaf :=
  f.params.flatMap (·.inLeaves stage true) ++ f.returnParam.outputLeaves stage true

/-- The leaves of a per-patch function that are dropped. -/
def droppedLeaves : List InterfaceLeaf := f.params.flatMap (·.outLeaves stage true)

/-- The parts of a function that are recorded as distances. -/
def distanceParts (perPatch : Bool) : List (Direction × DistanceLeaf) :=
  (f.params ++ [f.returnParam]).flatMap (·.distanceParts stage perPatch)

end Function

namespace EntryPoint

variable (e : EntryPoint)

/-- All leaves of an entry point. -/
def leaves : List InterfaceLeaf :=
  e.function.leaves e.stage false ++ e.patchFunction.elim [] (·.leaves e.stage true)

/-- The leaves for which something is created. -/
def loweredLeaves : List InterfaceLeaf :=
  e.function.leaves e.stage false ++ e.patchFunction.elim [] (·.patchLeaves e.stage)

/-- The leaves for which nothing is created. -/
def droppedLeaves : List InterfaceLeaf := e.patchFunction.elim [] (·.droppedLeaves e.stage)

/-- The parts that are recorded as distances, with their directions. -/
def distanceParts : List (Direction × DistanceLeaf) :=
  e.function.distanceParts e.stage false
    ++ e.patchFunction.elim [] (·.distanceParts e.stage true)

/-- Whether a part asks for an index of a kind of distance, with a number of components. -/
def Declares (direction : Direction) (kind : DistanceKind) (index count : Nat) : Prop :=
  ∃ part, (direction, part) ∈ e.distanceParts ∧ part.declares? = some (kind, index, count)

/-- Whether a component is asked for. -/
def Fills (direction : Direction) (kind : DistanceKind) : Prop :=
  ∃ index count, e.Declares direction kind index count ∧ count ≠ 0

/-- A leaf is lowered or dropped. -/
theorem leaves_perm : e.leaves.Perm (e.loweredLeaves ++ e.droppedLeaves) := by
  rw [leaves, loweredLeaves, droppedLeaves, List.append_assoc]
  refine List.Perm.append_left _ ?_
  cases e.patchFunction with
  | none => exact .refl _
  | some f =>
    show (f.leaves e.stage true).Perm (f.patchLeaves e.stage ++ f.droppedLeaves e.stage)
    rw [Function.leaves, Function.patchLeaves, Function.droppedLeaves]
    have hparams := flatMap_append_perm (·.inLeaves e.stage true) (·.outLeaves e.stage true)
      f.params
    refine (hparams.append_right _).trans ?_
    rw [List.append_assoc, List.append_assoc]
    exact List.perm_append_comm.append_left _

end EntryPoint

end Source

end ShaderLowering
