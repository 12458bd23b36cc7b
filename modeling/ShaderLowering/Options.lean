import ShaderLowering.Layout.Rule

/-!
# Compile options

The choices that hold for a whole compile, and the memory rule that they give to each kind of
buffer.
-/

namespace ShaderLowering

/-- A family of memory rules for buffers. -/
inductive RuleFamily
  /-- The relaxed standard rules. -/
  | relaxed
  /-- The strict standard rules. -/
  | strict
  /-- The register packing of older compilers. -/
  | register
  /-- Scalar block layout everywhere. -/
  | scalar
deriving DecidableEq, Repr, Inhabited

/-- The order in which interface variables without a location get one. -/
inductive LocationOrder
  /-- The order of declaration. -/
  | declaration
  /-- The order of the semantic strings. -/
  | alphabetical
deriving DecidableEq, Repr, Inhabited

/-- The options of a compile. -/
structure Options where
  /-- Whether a matrix without an order is stored by rows. -/
  rowMajor : Bool := false
  /-- Whether half and minimum-precision scalars are 16 bits wide. -/
  narrowTypes : Bool := false
  /-- The memory rules of buffers. -/
  family : RuleFamily := .relaxed
  /-- The order of location assignment. -/
  order : LocationOrder := .declaration
deriving DecidableEq, Repr, Inhabited

/-- The name of a rule family. -/
def RuleFamily.text : RuleFamily → String
  | relaxed => "Relaxed"
  | strict => "Gl"
  | register => "Dx"
  | scalar => "Scalar"

/-- The name of a location order. -/
def LocationOrder.text : LocationOrder → String
  | declaration => "Declaration"
  | alphabetical => "Alphabetical"

namespace Options

/-- The rule of constant buffers. -/
def constantRule (options : Options) : Layout.Rule :=
  match options.family with
  | .relaxed => .relaxedStd140
  | .strict => .std140
  | .register => .registerConstant
  | .scalar => .scalar

/-- The rule of texture buffers. -/
def textureRule (options : Options) : Layout.Rule :=
  match options.family with
  | .relaxed => .relaxedStd430
  | .strict => .std430
  | .register => .registerConstant
  | .scalar => .scalar

/-- The rule of structured buffers and push constants. -/
def structuredRule (options : Options) : Layout.Rule :=
  match options.family with
  | .relaxed => .relaxedStd430
  | .strict => .std430
  | .register => .registerStructured
  | .scalar => .scalar

/-- The options in one line. -/
def text (options : Options) : String :=
  "LowerOptions \x7b default_row_major: " ++ toString options.rowMajor
    ++ ", enable_16bit_types: " ++ toString options.narrowTypes
    ++ ", layout: " ++ options.family.text
    ++ ", stage_io_order: " ++ options.order.text ++ " \x7d"

end Options

end ShaderLowering
