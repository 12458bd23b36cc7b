import ShaderLowering.Finding

/-!
# Leaves of an interface declaration

A declaration of structure type stands for its fields, and so on down to the leaves, which become
variables.  A semantic on a structure is inherited by its leaves: the first takes it as it is, and
every further one takes the next index.  An inherited semantic overrides the leaf's own.

Walking a declaration depends on nothing but the declaration, so its result is a list of items:
leaves to create and remarks to report, in order.
-/

namespace ShaderLowering

open Source (Ty OptionalTy Fields Field Position Attributes)

/-- A step in the creation of a declaration's variables. -/
inductive InterfaceItem
  /-- A leaf with the semantic that it ends up with. -/
  | leaf (decl : Field) (semantic : Option Semantic)
  /-- Something to report. -/
  | remark (finding : Finding) (position : Position)
deriving DecidableEq, Repr, Inhabited

namespace InterfaceItem

/-- The semantic written on a declaration, or what is wrong with it. -/
def ownSemantic (decl : Field) : Except Finding (Option Semantic) :=
  match decl.attributes.semantic with
  | none => .ok none
  | some string =>
    match Semantic.ofString? string decl.position with
    | some semantic => .ok (some semantic)
    | none => .error (.semanticIndexTooLarge string decl.name)

/-- The warning that an inherited semantic overrides the one on a declaration. -/
def overriding (decl : Field) (own inherited : Option Semantic) : List InterfaceItem :=
  match own, inherited with
  | some own, some outer =>
    [.remark (.semanticOverridden own decl.name outer) decl.position]
  | _, _ => []

/-- The item of a leaf, and the semantic that is inherited after it. -/
def ofLeaf (decl : Field) (own inherited : Option Semantic) :
    List InterfaceItem × Option Semantic :=
  match inherited with
  | none => ([.leaf decl own], none)
  | some semantic =>
    match semantic.next? with
    | some next => ([.leaf decl (some semantic)], some next)
    | none =>
      ([.remark (.nextSemanticIndexTooLarge semantic decl.name) decl.position], some semantic)

mutual

/-- The items of a declaration at a wrapper or shape of its type, and the semantic that is
inherited after it.  A builtin is not taken apart. -/
def ofShape (decl : Field) (own : Option Semantic) :
    Ty → Option Semantic → List InterfaceItem × Option Semantic
  | .alias _ target, inherited | .oriented _ target, inherited =>
    ofShape decl own target inherited
  | .struct _ base fields, inherited =>
    if decl.attributes.builtin.isSome then
      ofLeaf decl own inherited
    else
      let (first, current) := ofBase decl base (inherited.or own)
      let (rest, current) := ofFields fields current
      (first ++ rest, if inherited.isSome then current else none)
  | _, inherited => ofLeaf decl own inherited

/-- The items of a base structure, which has the name and place of the declaration around it. -/
def ofBase (decl : Field) :
    OptionalTy → Option Semantic → List InterfaceItem × Option Semantic
  | .absent, inherited => ([], inherited)
  | .present ty, inherited => ofShape ⟨decl.name, ty, {}, decl.position⟩ none ty inherited

/-- The items of fields. -/
def ofFields : Fields → Option Semantic → List InterfaceItem × Option Semantic
  | .nil, inherited => ([], inherited)
  | .cons name ty attributes position rest, inherited =>
    let decl : Field := ⟨name, ty, attributes, position⟩
    match ownSemantic decl with
    | .error finding =>
      let (others, current) := ofFields rest inherited
      (.remark finding position :: others, current)
    | .ok own =>
      let (here, current) := ofShape decl own ty inherited
      let (others, current) := ofFields rest current
      (overriding decl own inherited ++ here ++ others, current)

end

/-- The items of a declaration. -/
def ofDeclaration (decl : Field) : List InterfaceItem :=
  match ownSemantic decl with
  | .error finding => [.remark finding decl.position]
  | .ok own => (ofShape decl own decl.ty none).1

end InterfaceItem

end ShaderLowering
