import ShaderLowering.Word
import ShaderLowering.Source.Ty
import ShaderLowering.Layout.Width

/-!
# Interface locations

On a stage interface a value takes a number of locations of four 32-bit components each, and may
be marked as needing only minimum precision.
-/

namespace ShaderLowering.Layout

open Source (Scalar Ty OptionalTy Fields)

/-- The locations of a vector: two for three or four components of 64 bits, else one. -/
def vectorLocations (options : Options) (elem : Scalar) (count : Nat) : Nat :=
  if elem.bits options = 64 ∧ 3 ≤ count then 2 else 1

mutual

/-- The number of interface locations of a type; an open array counts as one element. -/
def locations (options : Options) : Ty → Checked Nat
  | .alias _ target | .oriented _ target => locations options target
  | .void => .ok 0
  | .scalar _ => .ok 1
  | .vector elem count => .ok (vectorLocations options elem count)
  | .matrix elem rows cols =>
    if rows = 1 ∨ cols = 1 then do
      return vectorLocations options elem (← Word.mul rows cols)
    else
      Word.mul rows (vectorLocations options elem cols)
  | .array elem length => do
    Word.mul (length.getD 1) (← locations options elem)
  | .struct _ base fields => do
    Word.add (← baseLocations options base) (← fieldLocations options fields)
  | .resource _ _ => .ok 1

/-- The locations of a base structure, if there is one. -/
def baseLocations (options : Options) : OptionalTy → Checked Nat
  | .absent => .ok 0
  | .present ty => locations options ty

/-- The locations of all fields together. -/
def fieldLocations (options : Options) : Fields → Checked Nat
  | .nil => .ok 0
  | .cons _ ty _ _ rest => do
    Word.add (← locations options ty) (← fieldLocations options rest)

end

/-- Whether a scalar, vector, matrix or array of such needs only minimum precision and is stored
wider. -/
def isRelaxedPrecision (options : Options) : Ty → Bool
  | .alias _ target | .oriented _ target => isRelaxedPrecision options target
  | .array elem _ => isRelaxedPrecision options elem
  | ty => !options.narrowTypes && (ty.elementScalar?.any (·.isMinPrecision))

end ShaderLowering.Layout
