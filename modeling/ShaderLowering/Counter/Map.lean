import ShaderLowering.Failure

/-!
# Counter maps

A buffer with a hidden counter, or a structure that holds such buffers, has one counter for every
path that leads to one.  An assignment between declarations rebinds the counters of the
destination, so it is planned path by path, and every counter of the source needs a rebindable one
at the same relative path of the destination.
-/

namespace ShaderLowering.Counter

open Spirv (VariableId)

/-- The counter at a path. -/
structure Entry where
  path : Path
  counter : VariableId
  /-- Whether the counter is a pointer that assignments rebind, and no counter of its own. -/
  isAlias : Bool
deriving DecidableEq, Repr, Inhabited

/-- A counter that is to be rebound to another one. -/
structure Copy where
  destination : VariableId
  source : VariableId
deriving DecidableEq, Repr, Inhabited

/-- The counters of a declaration, in the order of first insertion. -/
structure Map where
  entries : List Entry := []
deriving DecidableEq, Repr, Inhabited

namespace Map

/-- The entry at a path. -/
def get? (m : Map) (path : Path) : Option Entry := m.entries.find? (·.path = path)

/-- The map with an entry, which takes the place of one at the same path. -/
def insert (m : Map) (e : Entry) : Map :=
  if (m.get? e.path).isSome then
    ⟨m.entries.map fun old => if old.path = e.path then e else old⟩
  else
    ⟨m.entries ++ [e]⟩

theorem get?_eq_none_iff {m : Map} {path : Path} :
    m.get? path = none ↔ ∀ e ∈ m.entries, e.path ≠ path := by
  simp [get?]

theorem path_of_get? {m : Map} {path : Path} {e : Entry} (h : m.get? path = some e) :
    e.path = path := by
  simpa using List.find?_some h

/-- An entry is found where it was inserted, and every other path is as before. -/
theorem get?_insert (m : Map) (e : Entry) (path : Path) :
    (m.insert e).get? path = if path = e.path then some e else m.get? path := by
  unfold insert
  split
  · rename_i h
    have hpath : (fun old : Entry => decide ((if old.path = e.path then e else old).path = path))
        = fun old => decide (old.path = path) := by
      funext old
      split <;> simp_all
    have hmap : Map.get? ⟨m.entries.map fun old => if old.path = e.path then e else old⟩ path
        = (m.get? path).map fun old => if old.path = e.path then e else old := by
      rw [get?, get?, List.find?_map]
      exact congrArg (fun p => Option.map _ (m.entries.find? p)) hpath
    rw [hmap]
    split
    · rename_i hp
      subst hp
      obtain ⟨old, hold⟩ := Option.isSome_iff_exists.1 h
      simp [hold, path_of_get? hold]
    · rename_i hp
      cases hget : m.get? path with
      | none => rfl
      | some old =>
        have hne : old.path ≠ e.path := fun ho => hp (path_of_get? hget ▸ ho)
        simp [hne]
  · rename_i h
    rw [get?, List.find?_append]
    split
    · rename_i hp
      subst hp
      have hnone : m.entries.find? (·.path = e.path) = none := by simpa [get?] using h
      simp [hnone]
    · rename_i hp
      have hne : ¬ e.path = path := fun he => hp he.symm
      simp [get?, hne]

/-- The number of entries. -/
def size (m : Map) : Nat := m.entries.length

/-- The copies for those of the given source entries that lie below `sourcePath`, when the member
of `destination` at `destinationPath` is assigned. -/
def planFrom (destination : Map) (destinationPath sourcePath : Path) :
    List Entry → Except CounterError (List Copy)
  | [] => .ok []
  | e :: rest =>
    match e.path.below? sourcePath with
    | none => planFrom destination destinationPath sourcePath rest
    | some relative =>
      match destination.get? (destinationPath ++ relative) with
      | none => .error (.missing (destinationPath ++ relative))
      | some d =>
        if d.isAlias then do
          return ⟨d.counter, e.counter⟩
            :: (← planFrom destination destinationPath sourcePath rest)
        else
          .error (.notAlias (destinationPath ++ relative))

/-- The copies that assign the member of `source` at `sourcePath` to the member of `destination` at
`destinationPath`. -/
def assignAt (destination : Map) (destinationPath : Path) (source : Map) (sourcePath : Path) :
    Except CounterError (List Copy) :=
  planFrom destination destinationPath sourcePath source.entries

/-- The copies that assign one declaration to another. -/
def assign (destination source : Map) : Except CounterError (List Copy) :=
  destination.assignAt [] source []

end Map

end ShaderLowering.Counter
