import ShaderLowering.Source.Ty
import ShaderLowering.Layout.Extent

/-!
# Placement of structure members

Members are placed one after the other.  Each starts at or after the end of the one before it, at
the first place that the rule allows; an explicit offset moves it further back, never forward, and
one that would is recorded as an overlap.
-/

namespace ShaderLowering.Layout

open Source (Scalar Attributes Position)

/-- A structure member before it is placed. -/
structure Unplaced where
  name : String
  attributes : Attributes
  position : Position
  /-- The bytes of one component, if the member is a vector of several. -/
  component : Option Nat
  extent : Extent
deriving DecidableEq, Repr, Inhabited

/-- An explicit offset before the end of the previous member. -/
structure Overlap where
  member : String
  requested : Nat
  nextFree : Nat
  /-- Whether the offset was given in registers. -/
  inRegisters : Bool
  position : Position
deriving DecidableEq, Repr, Inhabited

/-- A member in its place. -/
structure Placed where
  offset : Nat
  extent : Extent
  overlap : Option Overlap := none
deriving DecidableEq, Repr, Inhabited

/-- The explicit offset on a declaration, and whether it was given in registers; one in bytes
wins. -/
def explicitOffset (attributes : Attributes) : Checked (Option (Nat × Bool)) :=
  match attributes.offset, attributes.packOffset with
  | some bytes, _ => .ok (some (bytes, false))
  | none, some pack => do return some (← pack.bytes, true)
  | none, none => .ok none

/-- Whether a vector of `size` bytes at `offset` touches one 16-byte slot too many: up to 16 bytes
have to lie in one slot, more have to start with one. -/
def straddles (size offset : Nat) : Checked Bool :=
  if size ≤ 16 then do
    let last ← Word.sub (← Word.add offset size) 1
    return offset / 16 != last / 16
  else
    return offset % 16 != 0

/-- The first place for a member at or after `nextFree`.  Under the relaxed rules a vector is
aligned to its component, up to four bytes, and moved to the next slot if it would straddle. -/
def naturalOffset (rule : Rule) (m : Unplaced) (nextFree : Nat) : Checked Nat :=
  match m.component with
  | some component =>
    if rule.isRelaxed then do
      let offset ← Word.roundUp nextFree (if component ≤ 4 then component else m.extent.alignment)
      if ← straddles m.extent.size offset then Word.roundUp offset 16 else return offset
    else
      Word.roundUp nextFree m.extent.alignment
  | none => Word.roundUp nextFree m.extent.alignment

/-- The place of a member when everything before `nextFree` is taken. -/
def place (rule : Rule) (nextFree : Nat) (m : Unplaced) : Checked Placed := do
  let offset ← naturalOffset rule m nextFree
  match ← explicitOffset m.attributes with
  | none => return ⟨offset, m.extent, none⟩
  | some (requested, inRegisters) =>
    if requested < nextFree then
      return ⟨offset, m.extent, some ⟨m.name, requested, nextFree, inRegisters, m.position⟩⟩
    else
      return ⟨requested, m.extent, none⟩

/-- The places of members from `nextFree` on, and the end of the last one. -/
def placeFrom (rule : Rule) : Nat → List Unplaced → Checked (List Placed × Nat)
  | nextFree, [] => .ok ([], nextFree)
  | nextFree, m :: rest => do
    let placed ← place rule nextFree m
    let (others, stop) ← placeFrom rule (← Word.add placed.offset m.extent.size) rest
    return (placed :: others, stop)

/-- The largest alignment among members. -/
def maxAlignment (ms : List Unplaced) : Nat :=
  ms.foldl (fun a m => max a m.extent.alignment) 0

/-- The members of a structure in their places, and the extent of the whole. -/
structure RecordLayout where
  members : List Placed
  extent : Extent
deriving DecidableEq, Repr, Inhabited

/-- The overlaps in a structure, in declaration order. -/
def RecordLayout.overlaps (r : RecordLayout) : List Overlap :=
  r.members.filterMap (·.overlap)

/-- The layout of a structure with the given members.  Relaxed packing moves a member and leaves
its alignment as it is for the structure. -/
def RecordLayout.of (rule : Rule) (ms : List Unplaced) : Checked RecordLayout := do
  if ms.isEmpty then
    return ⟨[], .empty⟩
  else
    let (placed, stop) ← placeFrom rule 0 ms
    if rule = .scalar then
      return ⟨placed, .solid (maxAlignment ms) stop⟩
    else
      let alignment ← Extent.aggregateAlignment rule (maxAlignment ms)
      let size ← if rule.padsTail then Word.roundUp stop alignment else .ok stop
      return ⟨placed, .solid alignment size⟩

end ShaderLowering.Layout
