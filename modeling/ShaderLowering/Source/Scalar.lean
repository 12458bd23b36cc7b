/-!
# Scalars of the shading language

A source scalar says what the programmer wrote, not yet how wide it is stored: half and
minimum-precision scalars depend on a compile option, literals on the type they meet.  The stored
width is the subject of `ShaderLowering.Layout.Width`.
-/

namespace ShaderLowering.Source

/-- A scalar as written in the source; widths are in bits. -/
inductive Scalar
  /-- A truth value. -/
  | bool
  /-- An integer of a given width. -/
  | int (bits : Nat) (signed : Bool)
  /-- A floating-point number of a given width; 16 bits is the half type. -/
  | float (bits : Nat)
  /-- An integer of at least 16 bits. -/
  | minInt (signed : Bool)
  /-- A floating-point number of at least 16 bits. -/
  | minFloat
  /-- An integer literal whose type is still open. -/
  | literalInt (bits : Nat)
  /-- A floating-point literal whose type is still open. -/
  | literalFloat (bits : Nat)
deriving DecidableEq, Repr, Inhabited

namespace Scalar

/-- The signed 32-bit integer. -/
def int32 : Scalar := .int 32 true

/-- The unsigned 32-bit integer. -/
def uint32 : Scalar := .int 32 false

/-- The half-precision number. -/
def half : Scalar := .float 16

/-- The single-precision number. -/
def single : Scalar := .float 32

/-- The double-precision number. -/
def double : Scalar := .float 64

/-- Whether the scalar is an integer of any kind. -/
def isInteger : Scalar → Bool
  | .int _ _ | .minInt _ | .literalInt _ => true
  | _ => false

/-- Whether the scalar is a floating-point number of any kind. -/
def isFloat : Scalar → Bool
  | .float _ | .minFloat | .literalFloat _ => true
  | _ => false

/-- Whether the type of the scalar is still open. -/
def isLiteral : Scalar → Bool
  | .literalInt _ | .literalFloat _ => true
  | _ => false

/-- Whether only a least width was asked for. -/
def isMinPrecision : Scalar → Bool
  | .minInt _ | .minFloat => true
  | _ => false

/-- Whether the scalar is a signed integer; an integer literal counts as signed. -/
def isSigned : Scalar → Bool
  | .int _ signed | .minInt signed => signed
  | .literalInt _ => true
  | _ => false

/-- The scalar in the spelling of the shading language. -/
def text : Scalar → String
  | .bool => "bool"
  | .int 32 signed => if signed then "int" else "uint"
  | .int bits signed => (if signed then "int" else "uint") ++ toString bits ++ "_t"
  | .float 16 => "half"
  | .float 32 => "float"
  | .float 64 => "double"
  | .float bits => "float" ++ toString bits ++ "_t"
  | .minInt signed => if signed then "min16int" else "min16uint"
  | .minFloat => "min16float"
  | .literalInt _ => "literal int"
  | .literalFloat _ => "literal float"

/-- Whether two scalars can share one storage type: equal scalars can, an integer literal can with
every integer, a floating-point literal with every floating-point number. -/
def sharesStorage (a b : Scalar) : Bool :=
  a = b ||
    match a, b with
    | .literalInt _, other | other, .literalInt _ => other.isInteger
    | .literalFloat _, other | other, .literalFloat _ => other.isFloat
    | _, _ => false

/-- The scalar that stands for this one on a stage interface, where truth values are not
allowed. -/
def onInterface : Scalar → Scalar
  | .bool => uint32
  | s => s

end Scalar

end ShaderLowering.Source
