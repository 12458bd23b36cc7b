import ShaderLowering.Interface.Variable
import ShaderLowering.Interface.Slots
import ShaderLowering.Finding

/-!
# Planning of locations

The variables of one direction are looked at together.  A semantic may be used once.  Explicit
locations are set aside first; then every other variable takes the lowest free range after the
previous one's, in order of declaration or of semantic strings.
-/

namespace ShaderLowering

open Source (Position)

/-- The findings about repeated semantics among variables, given the semantics seen before with
the place of their first use. -/
def repeatedSemantics (direction : Direction) :
    List (String × Position) → List InterfaceVariable → List (Finding × Position)
  | _, [] => []
  | seen, v :: rest =>
    match v.semantic with
    | none => repeatedSemantics direction seen rest
    | some semantic =>
      match seen.lookup semantic.key with
      | none => repeatedSemantics direction (seen ++ [(semantic.key, v.position)]) rest
      | some first =>
        (.repeatedSemantic direction semantic, v.position)
          :: (.firstUseOfSemantic semantic, first)
          :: repeatedSemantics direction seen rest

/-- The outcome of setting explicit locations aside. -/
structure ExplicitLocations where
  taken : List SlotRange := []
  findings : List (Finding × Position) := []
deriving DecidableEq, Repr, Inhabited

/-- Sets aside the locations of the variables that have one.  A variable that meets a taken
location keeps the locations before it. -/
def setAside : ExplicitLocations → List InterfaceVariable → Checked ExplicitLocations
  | e, [] => .ok e
  | e, v :: rest =>
    match v.location with
    | none => setAside e rest
    | some start => do
      let range : SlotRange := ⟨start, ← Word.add start v.room, v.index.getD 0⟩
      let findings := match firstTaken? e.taken range with
        | none => []
        | some location => [(.locationTaken location, v.position)]
      setAside ⟨e.taken ++ [claimable e.taken range], e.findings ++ findings⟩ rest

/-- The locations of variables that take one of their own, in the order in which they do. -/
def fill : List SlotRange → Nat → List Nat → Checked (List Nat)
  | _, _, [] => .ok []
  | taken, next, count :: rest => do
    let start := lowestFree taken next count
    let stop ← Word.add start count
    return start :: (← fill (taken ++ [⟨start, stop, 0⟩]) stop rest)

/-- The order in which variables without a location get one. -/
def fillOrder (order : LocationOrder) (vs : List (InterfaceVariable × Nat)) :
    List (InterfaceVariable × Nat) :=
  match order with
  | .declaration => vs
  | .alphabetical =>
    let key (v : InterfaceVariable × Nat) : String := (v.1.semantic.map (·.string)).getD ""
    vs.mergeSort fun a b => decide (key a ≤ key b)

/-- The locations of all variables of one direction. -/
structure LocationPlan where
  /-- What is wrong with explicit locations. -/
  findings : List (Finding × Position)
  /-- The location of every variable, by its number among the interface variables. -/
  placed : List (Nat × Nat)
deriving DecidableEq, Repr, Inhabited

/-- The variables of one direction that are bound to locations, with their numbers. -/
def locatedVariables (direction : Direction) (vs : List InterfaceVariable) :
    List (InterfaceVariable × Nat) :=
  vs.zipIdx.filter fun v => v.1.direction = direction && v.1.isLocated

/-- The plan for the variables of one direction. -/
def LocationPlan.of (order : LocationOrder) (direction : Direction) (vs : List InterfaceVariable) :
    Checked LocationPlan := do
  let located := locatedVariables direction vs
  let explicit ← setAside {} (located.map (·.1))
  let pending := fillOrder order (located.filter fun v => v.1.location.isNone)
  let starts ← fill explicit.taken 0 (pending.map (·.1.room))
  return {
    findings := explicit.findings
    placed := (located.filterMap fun v => v.1.location.map (v.2, ·))
      ++ List.zipWith (fun v start => (v.2, start)) pending starts }

end ShaderLowering
