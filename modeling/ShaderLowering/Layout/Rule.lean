/-!
# Memory rules

A memory rule fixes the alignment, size and stride of every type in a buffer.  The rules differ in
four respects only, and those are the predicates below: whether aggregates are aligned to 16 bytes,
whether a vector may sit at its element's alignment inside a structure, whether a vector has no
alignment of its own at all, and whether arrays and matrices are packed without gaps.
-/

namespace ShaderLowering.Layout

/-- A memory rule. -/
inductive Rule
  /-- No explicit layout: interface, private and function storage. -/
  | unlaid
  | std140
  | std430
  | relaxedStd140
  | relaxedStd430
  /-- Scalar block layout. -/
  | scalar
  /-- Register packing of constant and texture buffers. -/
  | registerConstant
  /-- Register packing of structured buffers. -/
  | registerStructured
deriving DecidableEq, Repr, Inhabited

namespace Rule

/-- Whether structures, arrays and matrices are aligned to 16 bytes. -/
def roundsAggregates : Rule → Bool
  | std140 | relaxedStd140 | registerConstant => true
  | _ => false

/-- Whether a vector in a structure may take the alignment of its element. -/
def isRelaxed : Rule → Bool
  | relaxedStd140 | relaxedStd430 | registerConstant => true
  | _ => false

/-- Whether the own alignment of a vector is that of its element. -/
def alignsToElement : Rule → Bool
  | registerConstant | registerStructured | scalar => true
  | _ => false

/-- Whether arrays and matrices are packed without gaps. -/
def isTight : Rule → Bool
  | registerStructured | scalar => true
  | _ => false

/-- Whether the size of a structure is padded to its alignment. -/
def padsTail : Rule → Bool
  | registerConstant | registerStructured => false
  | _ => true

/-- The name of a rule. -/
def text : Rule → String
  | unlaid => "Void"
  | std140 => "GlslStd140"
  | std430 => "GlslStd430"
  | relaxedStd140 => "RelaxedGlslStd140"
  | relaxedStd430 => "RelaxedGlslStd430"
  | scalar => "Scalar"
  | registerConstant => "FxcCtBuffer"
  | registerStructured => "FxcSBuffer"

end Rule

end ShaderLowering.Layout
