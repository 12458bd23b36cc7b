import ShaderLowering.Diagnostic
import ShaderLowering.Semantic
import ShaderLowering.Stage
import ShaderLowering.Source.Declaration
import ShaderLowering.Layout.Members

/-!
# Findings

Everything that lowering can find about the program it compiles.  A finding is a cause; its
severity and its wording are functions of it, so what is wrong can be reasoned about apart from how
it is said.
-/

namespace ShaderLowering

open Source (Ty Scalar Resource)

/-- What lowering found. -/
inductive Finding
  | unsupportedVectorSize (count : Nat)
  | overlap (o : Layout.Overlap)
  | writableBufferOfStruct
  | missingElement (kind : Resource)
  | contentNotStruct (kind : Resource) (elem : Ty)
  | unsupportedElement (kind : Resource) (elem : Ty)
  | elementTooWide (elem : Ty)
  | unsupportedElementField
  | mixedElementFields
  | noImageFormat (scalar : Scalar) (kind : Resource)
  | missingPointCount
  | noInterface (stage : Stage)
  | semanticIndexTooLarge (string name : String)
  | semanticOverridden (own : Semantic) (name : String) (outer : Semantic)
  | nextSemanticIndexTooLarge (semantic : Semantic) (name : String)
  | unknownBuiltin (name : String)
  | misplacedBuiltin (name : String) (stage : Stage) (direction : Direction)
  | missingSemantic (direction : Direction) (name : String)
  | unknownSystemValue (semantic : Semantic)
  | misplacedSemantic (semantic : Semantic) (stage : Stage) (point : SignaturePoint)
  | repeatedSemantic (direction : Direction) (semantic : Semantic)
  | firstUseOfSemantic (semantic : Semantic)
  | locationTaken (location : Nat)
  | distanceNotFloat (semantic : Semantic) (ty : Ty)
  | distanceRedeclared (semantic : Semantic) (ty previous : Ty)
  | resourceInBlock (field : String) (kind : Source.BlockKind) (block : String)
  | notBlockResource (name : String)
  | secondPushConstant
  | firstPushConstant
  | notPushConstant (ty : Ty)
  | notResource (name : String)
  | bindingTaken (binding set : Nat)
  | firstUseOfBinding
  | notFileVariable (name : String)
deriving DecidableEq, Repr, Inhabited

namespace Finding

/-- The severity of a finding. -/
def severity : Finding → Severity
  | unsupportedVectorSize _ | missingElement _ => .fatal
  | semanticOverridden _ _ _ => .warning
  | firstUseOfSemantic _ | firstPushConstant | firstUseOfBinding => .note
  | _ => .error

/-- The wording of a finding. -/
def text : Finding → String
  | unsupportedVectorSize count => "unsupported vector size " ++ toString count
  | overlap o =>
    (if o.inRegisters then "packoffset" else "vk::offset")
      ++ " caused overlap with previous members ('" ++ o.member ++ "' at offset "
      ++ toString o.requested ++ ", next free offset " ++ toString o.nextFree ++ ")"
  | writableBufferOfStruct => "cannot instantiate RWBuffer with struct type"
  | missingElement kind => kind.name ++ " requires a template type"
  | contentNotStruct kind elem =>
    kind.name ++ " template type must be a struct, found '" ++ elem.text ++ "'"
  | unsupportedElement kind elem =>
    "unsupported " ++ kind.name ++ " element type '" ++ elem.text ++ "'"
  | elementTooWide elem =>
    "resource template element type '" ++ elem.text ++ "' cannot fit into four 32-bit scalars"
  | unsupportedElementField => "unsupported struct element type for resource template instantiation"
  | mixedElementFields =>
    "all struct members should have the same element type for resource template instantiation"
  | noImageFormat scalar kind =>
    "cannot translate resource type parameter '" ++ scalar.text ++ "' of " ++ kind.name
      ++ " to proper image format"
  | missingPointCount => "hull shader entry point requires an output control point count"
  | noInterface stage => stage.text ++ " shader has no stage interface"
  | semanticIndexTooLarge string name =>
    "semantic index in '" ++ string ++ "' on '" ++ name ++ "' is out of range"
  | semanticOverridden own name outer =>
    "semantic '" ++ own.string ++ "' on '" ++ name ++ "' is overridden by enclosing semantic '"
      ++ outer.string ++ "'"
  | nextSemanticIndexTooLarge semantic name =>
    "semantic index after '" ++ semantic.string ++ "' on '" ++ name ++ "' is out of range"
  | unknownBuiltin name => "unknown vk::builtin '" ++ name ++ "'"
  | misplacedBuiltin name stage direction =>
    "vk::builtin '" ++ name ++ "' cannot be used as " ++ stage.text ++ " " ++ direction.text
  | missingSemantic direction name =>
    "semantic string missing for shader " ++ direction.text ++ " variable '" ++ name ++ "'"
  | unknownSystemValue semantic => "unknown system value semantic '" ++ semantic.string ++ "'"
  | misplacedSemantic semantic stage point =>
    "semantic " ++ semantic.string ++ " is not allowed for " ++ stage.text ++ " shader "
      ++ point.direction.text ++ " (" ++ point.text ++ ")"
  | repeatedSemantic direction semantic =>
    direction.text ++ " semantic '" ++ semantic.string ++ "' used more than once"
  | firstUseOfSemantic semantic => "'" ++ semantic.string ++ "' first used here"
  | locationTaken location => "location #" ++ toString location ++ " already assigned"
  | distanceNotFloat semantic ty =>
    semantic.string ++ " must be a float scalar or vector, found '" ++ ty.text ++ "'"
  | distanceRedeclared semantic ty previous =>
    semantic.string ++ " redeclared as '" ++ ty.text ++ "', previously '" ++ previous.text ++ "'"
  | resourceInBlock field kind block =>
    "resource '" ++ field ++ "' cannot be a member of "
      ++ (match kind with
        | .constant => "cbuffer"
        | .texture => "tbuffer")
      ++ " '" ++ block ++ "'"
  | notBlockResource name => "'" ++ name ++ "' is not a ConstantBuffer or TextureBuffer"
  | secondPushConstant => "cannot have more than one push constant block"
  | firstPushConstant => "push constant block first declared here"
  | notPushConstant ty =>
    "vk::push_constant requires a struct or ConstantBuffer type, found '" ++ ty.text ++ "'"
  | notResource name => "global '" ++ name ++ "' is not a resource; it belongs to $Globals"
  | bindingTaken binding set =>
    "resource binding #" ++ toString binding ++ " in descriptor set #" ++ toString set
      ++ " already assigned"
  | firstUseOfBinding => "binding number previously assigned here"
  | notFileVariable name => "'" ++ name ++ "' is not a static or groupshared variable"

/-- A finding at a place in the source. -/
def diagnostic (f : Finding) (position : Source.Position) : Diagnostic :=
  ⟨f.severity, f.text, position⟩

end Finding

end ShaderLowering
