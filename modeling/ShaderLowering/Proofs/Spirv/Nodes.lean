import ShaderLowering.Proofs.Spirv.TypeTree

/-!
# Types inside a type

Whether some type inside a written-out type, at any depth and the type itself among them, passes a
test (`TypeTree.any`), and the pointers inside a type.
-/

namespace ShaderLowering.Spirv

mutual

/-- Whether the tree or some tree inside it passes a test. -/
def TypeTree.any (test : TypeTree → Bool) : TypeTree → Bool
  | .node name form ds => test (.node name form ds) || form.any test

/-- Whether some tree inside a form passes a test. -/
def TreeForm.any (test : TypeTree → Bool) : TreeForm → Bool
  | .matrix column _ => column.any test
  | .array elem _ | .runtimeArray elem => elem.any test
  | .struct members => members.any test
  | .image sample _ _ _ _ _ _ => sample.any test
  | .pointer target _ => target.any test
  | .void | .scalar _ | .vector _ _ | .sampler => false

/-- Whether some tree inside a member passes a test. -/
def TreeMembers.any (test : TypeTree → Bool) : TreeMembers → Bool
  | .nil => false
  | .cons _ ty rest => ty.any test || rest.any test

end

/-- Whether some tree inside a tree, but not the tree itself, passes a test. -/
def TypeTree.anyInside (test : TypeTree → Bool) : TypeTree → Bool
  | .node _ form _ => form.any test

theorem TypeTree.any_eq (test : TypeTree → Bool) (tree : TypeTree) :
    tree.any test = (test tree || tree.anyInside test) := by
  cases tree
  rfl

/-- Whether a form is one of those of numbers, vectors, matrices and fixed arrays. -/
def TreeForm.isNumeric : TreeForm → Bool
  | .scalar _ | .vector _ _ | .matrix _ _ | .array _ _ => true
  | _ => false

/-- Whether a type is a pointer. -/
def TypeTree.isPointer : TypeTree → Bool
  | .node _ (.pointer _ _) _ => true
  | _ => false

/-- Whether there is a pointer anywhere in a type. -/
def TypeTree.hasPointer (tree : TypeTree) : Bool := tree.any isPointer

end ShaderLowering.Spirv
