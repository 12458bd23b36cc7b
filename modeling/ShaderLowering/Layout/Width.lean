import ShaderLowering.Source.Scalar
import ShaderLowering.Options

/-!
# Stored widths of scalars

How many bits a source scalar takes when it is stored.  Half and minimum-precision scalars depend
on an option; a literal takes the width of the type that is expected of it, if that type is of the
same family and itself settled.
-/

namespace ShaderLowering

/-- The stored width of half and minimum-precision scalars. -/
def Options.narrowBits (options : Options) : Nat :=
  if options.narrowTypes then 16 else 32

namespace Source.Scalar

/-- The stored width of a scalar, of which nothing further is expected. -/
def bits (options : Options) : Scalar → Nat
  | .bool => 32
  | .int bits _ => bits
  | .float bits => if bits = 16 then options.narrowBits else bits
  | .minInt _ | .minFloat => options.narrowBits
  | .literalInt bits => if 32 < bits then 64 else 32
  | .literalFloat bits => if bits ≤ 32 then 32 else 64

/-- The scalar that settles a literal: the expected one, if it is of the literal's family and no
literal itself.  Any other scalar is settled already. -/
def settled (s : Scalar) (expected : Option Scalar) : Scalar :=
  match s, expected with
  | .literalInt _, some e => if e.isInteger && !e.isLiteral then e else s
  | .literalFloat _, some e => if e.isFloat && !e.isLiteral then e else s
  | _, _ => s

/-- The stored width of a scalar of which another one is expected. -/
def expectedBits (options : Options) (s : Scalar) (expected : Option Scalar) : Nat :=
  (s.settled expected).bits options

/-- The stored size of a scalar in whole bytes. -/
def bytes (options : Options) (s : Scalar) : Nat := s.bits options / 8

end Source.Scalar

end ShaderLowering
