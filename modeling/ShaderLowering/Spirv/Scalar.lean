/-!
# Scalars and vector sizes of the module
-/

namespace ShaderLowering.Spirv

/-- The kind of a scalar. -/
inductive ScalarKind
  | bool
  | signed
  | unsigned
  | float
deriving DecidableEq, Repr, Inhabited

/-- A scalar type: its kind and its width in bytes.  A truth value has no physical size, so its
width is nominal. -/
structure Scalar where
  kind : ScalarKind
  width : Nat
deriving DecidableEq, Repr, Inhabited

namespace Scalar

/-- The truth values. -/
def bool : Scalar := ⟨.bool, 1⟩

/-- Signed integers of 2, 4 and 8 bytes. -/
def int16 : Scalar := ⟨.signed, 2⟩

@[inherit_doc int16] def int32 : Scalar := ⟨.signed, 4⟩

@[inherit_doc int16] def int64 : Scalar := ⟨.signed, 8⟩

/-- Unsigned integers of 2, 4 and 8 bytes. -/
def uint16 : Scalar := ⟨.unsigned, 2⟩

@[inherit_doc uint16] def uint32 : Scalar := ⟨.unsigned, 4⟩

@[inherit_doc uint16] def uint64 : Scalar := ⟨.unsigned, 8⟩

/-- Floating-point numbers of 2, 4 and 8 bytes. -/
def float16 : Scalar := ⟨.float, 2⟩

@[inherit_doc float16] def float32 : Scalar := ⟨.float, 4⟩

@[inherit_doc float16] def float64 : Scalar := ⟨.float, 8⟩

/-- The width in bits. -/
def bits (s : Scalar) : Nat := s.width * 8

/-- The scalar as in a listing, `i32` for instance. -/
def text (s : Scalar) : String :=
  match s.kind with
  | .bool => "bool"
  | .signed => "i" ++ toString s.bits
  | .unsigned => "u" ++ toString s.bits
  | .float => "f" ++ toString s.bits

end Scalar

/-- The name of a scalar kind. -/
def ScalarKind.text : ScalarKind → String
  | bool => "bool"
  | signed => "sint"
  | unsigned => "uint"
  | float => "float"

/-- The number of components of a vector, or of columns of a matrix. -/
inductive VectorSize
  | two
  | three
  | four
deriving DecidableEq, Repr, Inhabited

namespace VectorSize

/-- The size as a number. -/
def toNat : VectorSize → Nat
  | two => 2
  | three => 3
  | four => 4

/-- The size with a given number of components. -/
def ofNat? : Nat → Option VectorSize
  | 2 => some two
  | 3 => some three
  | 4 => some four
  | _ => none

theorem ofNat?_eq_some_iff {n : Nat} {size : VectorSize} :
    ofNat? n = some size ↔ size.toNat = n := by
  constructor
  · intro h
    unfold ofNat? at h
    split at h <;> cases h <;> rfl
  · rintro rfl
    cases size <;> rfl

end VectorSize

end ShaderLowering.Spirv
