import ShaderLowering.Word

/-!
# Positions and annotations

What the front end attaches to a declaration besides its name and type: where it stands in the
source, and the annotations that were written on it.
-/

namespace ShaderLowering.Source

/-- A place in the source text. -/
structure Position where
  line : Nat := 0
  column : Nat := 0
deriving DecidableEq, Repr, Inhabited

/-- A position as `line:column`. -/
def Position.text (p : Position) : String := toString p.line ++ ":" ++ toString p.column

/-- A place in a constant buffer, counted in 16-byte registers and 4-byte components. -/
structure PackOffset where
  register : Nat
  component : Nat
deriving DecidableEq, Repr, Inhabited

/-- The place in bytes. -/
def PackOffset.bytes (p : PackOffset) : Checked Nat := do
  Word.add (← Word.mul p.register 16) (← Word.mul p.component 4)

/-- An explicit descriptor binding. -/
structure BindingRequest where
  binding : Nat
  set : Nat
deriving DecidableEq, Repr, Inhabited

/-- A register of the shading language: class letter, number and space. -/
structure Register where
  letter : String
  number : Nat
  space : Nat
deriving DecidableEq, Repr, Inhabited

/-- The interpolation modifiers of a pixel shader input. -/
structure Interpolation where
  flat : Bool := false
  noPerspective : Bool := false
  centroid : Bool := false
  sample : Bool := false
deriving DecidableEq, Repr, Inhabited

/-- The annotations on a declaration. -/
structure Attributes where
  /-- The semantic string as written. -/
  semantic : Option String := none
  /-- An explicit interface location. -/
  location : Option Nat := none
  /-- An explicit blend source. -/
  index : Option Nat := none
  /-- An explicit descriptor binding. -/
  binding : Option BindingRequest := none
  /-- An explicit binding of the hidden counter. -/
  counterBinding : Option Nat := none
  /-- The register of the declaration. -/
  register : Option Register := none
  /-- A builtin asked for by name. -/
  builtin : Option String := none
  /-- An explicit byte offset in the enclosing block. -/
  offset : Option Nat := none
  /-- An explicit register offset in the enclosing block. -/
  packOffset : Option PackOffset := none
  /-- The interpolation modifiers. -/
  interpolation : Interpolation := {}
  /-- Whether the declaration is a push constant. -/
  pushConstant : Bool := false
deriving DecidableEq, Repr, Inhabited

end ShaderLowering.Source
