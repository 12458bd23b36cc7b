import ShaderLowering.Spirv.Module

/-!
# Listing of a module

A module as text for a reader.  A named type is shown by its name where it is used and by its
structure only in its own line, so a listing is finite for every module whose nameless types do not
refer to themselves.  The depth to which nameless types are unfolded is bounded by the size of the
type table, which no chain of different types exceeds.
-/

namespace ShaderLowering.Spirv

/-- The number of an entry in a listing. -/
def handleText (id : Nat) : String := "%" ++ toString id

namespace Module

/-- A shape with nameless types unfolded up to a depth. -/
def shapeTextUpTo (m : Module) : Nat → Shape → String
  | 0, _ => "..."
  | depth + 1, shape =>
    let typeRef (id : TypeId) : String :=
      match m.types.get? id with
      | some ⟨some name, _, _⟩ => name
      | some ⟨none, inner, _⟩ => shapeTextUpTo m depth inner
      | none => handleText id
    match shape with
    | .void => "void"
    | .scalar s => s.text
    | .vector size s => "vec" ++ toString size.toNat ++ "<" ++ s.text ++ ">"
    | .matrix column columns => "mat" ++ toString columns.toNat ++ "<" ++ typeRef column ++ ">"
    | .array elem length => "array<" ++ typeRef elem ++ ", " ++ handleText length ++ ">"
    | .runtimeArray elem => "array<" ++ typeRef elem ++ ">"
    | .struct members =>
      "struct \x7b " ++ ", ".intercalate (members.map fun member => typeRef member.ty) ++ " \x7d"
    | .image i =>
      "image<" ++ typeRef i.sampledType ++ ", " ++ i.dim.text
        ++ (if i.arrayed then ", arrayed" else "")
        ++ (if i.multisampled then ", ms" else "")
        ++ (if i.sampled = 2 then ", storage " ++ i.format.text else "") ++ ">"
    | .sampler => "sampler"
    | .pointer target storage => "ptr<" ++ storage.text ++ ", " ++ typeRef target ++ ">"

/-- A shape with all nameless types unfolded. -/
def shapeText (m : Module) (shape : Shape) : String :=
  m.shapeTextUpTo (m.types.size + 1) shape

/-- A type as it is referred to. -/
def typeText (m : Module) (entry : TypeEntry) : String :=
  match entry.name with
  | some name => name
  | none => m.shapeText entry.shape

/-- The members of a structure type. -/
def structMembers (m : Module) (ty : TypeId) : Except ModuleError (List Member) :=
  match m.types.get? ty with
  | none => .error (.badHandle ty m.types.size)
  | some ⟨_, .struct members, _⟩ => .ok members
  | some entry => .error (.typeMismatch "struct" (m.shapeText entry.shape))

/-- The lines of a type: number and structure, then the decorations. -/
def typeLines (m : Module) (id : TypeId) (entry : TypeEntry) : List String :=
  let title := match entry.name with
    | some name => name ++ " = "
    | none => ""
  ("  " ++ handleText id ++ " " ++ title ++ m.shapeText entry.shape)
    :: entry.decorations.map fun d => "      " ++ d.text

/-- The line of a variable, whose type has to be in the table. -/
def variableLine (m : Module) (id : VariableId) (v : Variable) : Checked String := do
  let ty := m.typeText (← m.types.get v.ty)
  let decorations :=
    if v.decorations.isEmpty then ""
    else "  [" ++ ", ".intercalate (v.decorations.map (·.text)) ++ "]"
  return "  " ++ handleText id ++ " var<" ++ v.storage.text ++ "> " ++ v.name.getD "_" ++ ": "
    ++ ty ++ decorations

/-- A titled part of a listing, left out if it is empty. -/
def part (title : List String) (lines : List String) : List String :=
  if lines.isEmpty then [] else title ++ lines

/-- The lines of a module. -/
def lines (m : Module) : Checked (List String) := do
  let variableLines ← m.variables.entries.zipIdx.mapM fun (v, id) => m.variableLine id v
  return part ["Capabilities:"] (m.capabilityList.map fun c => "  " ++ c.text)
    ++ part ["Extensions:"] (m.extensionList.map fun e => "  " ++ e.name)
    ++ "Types:" :: (m.types.entries.zipIdx.flatMap fun (entry, id) => m.typeLines id entry)
    ++ part ["", "Constants:"] (m.constants.entries.zipIdx.map fun (c, id) =>
      "  " ++ handleText id ++ " " ++ toString c.value ++ "u")
    ++ part ["", "Variables:"] variableLines

/-- The listing of a module. -/
def listing (m : Module) : Checked String := do
  return String.join ((← m.lines).map (· ++ "\n"))

end Module

end ShaderLowering.Spirv
