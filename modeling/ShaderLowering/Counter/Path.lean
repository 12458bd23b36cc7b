/-!
# Member paths

A path leads from a declaration down to a nested member, one member number per level.  The empty
path is the declaration itself.
-/

namespace ShaderLowering.Counter

/-- The member numbers on the way from a declaration to a nested member. -/
abbrev Path := List Nat

namespace Path

/-- The path to a member of the thing that a path leads to. -/
def child (p : Path) (member : Nat) : Path := p ++ [member]

/-- What remains of a path below another one, if that one leads towards it. -/
def below? (p above : Path) : Option Path :=
  match p, above with
  | rest, [] => some rest
  | a :: p, b :: above => if a = b then below? p above else none
  | [], _ :: _ => none

theorem below?_eq_some_iff {p above rest : Path} :
    below? p above = some rest ↔ p = above ++ rest := by
  induction above generalizing p with
  | nil => cases p <;> simp [below?]
  | cons b above ih =>
    cases p with
    | nil => simp [below?]
    | cons a p =>
      simp only [below?, List.cons_append, List.cons.injEq]
      split
      · simp [*]
      · simp [*]

/-- The order of paths: by the first member number in which they differ, a path before its
extensions. -/
def compare : Path → Path → Ordering
  | [], [] => .eq
  | [], _ :: _ => .lt
  | _ :: _, [] => .gt
  | a :: p, b :: q => (Ord.compare a b).then (compare p q)

/-- A path as a bracketed list. -/
def text (p : Path) : String := "[" ++ ", ".intercalate (p.map toString) ++ "]"

end Path

end ShaderLowering.Counter
