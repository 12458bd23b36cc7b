import ShaderLowering.Proofs.Interface.Listed
import ShaderLowering.Proofs.Session.Locations

/-!
# Repeated semantics

The check for repeated semantics compares the strings of listed variables, without regard to case,
direction by direction.  So it finds a semantic that is used twice where both leaves are listed and
spell it alike, and no other (`Lower.semanticsUnique_iff`): `TEXCOORD` and `TEXCOORD0` are one
semantic with two spellings, and a builtin at another signature point than that of its first use is
not listed.
-/

namespace ShaderLowering

open Source (Position EntryPoint)

/-! ## The check -/

/-- The key of a variable's semantic. -/
def InterfaceVariable.key? (v : InterfaceVariable) : Option String := v.semantic.map (·.key)

/-- The keys of the semantics among some entries, in one direction. -/
def InterfaceEntry.keysIn (direction : Direction) (entries : List InterfaceEntry) : List String :=
  (entries.filter (·.point.direction = direction)).filterMap fun e => e.semantic.map (·.key)

/-- Nothing is repeated exactly if no key is used twice or was used before. -/
theorem repeatedSemantics_eq_nil_iff {direction : Direction} {seen : List (String × Position)}
    {vs : List InterfaceVariable} : repeatedSemantics direction seen vs = [] ↔
      (∀ key ∈ vs.filterMap (·.key?), key ∉ seen.map (·.1)) ∧ (vs.filterMap (·.key?)).Nodup := by
  -- on the variables, for any keys seen before
  induction vs generalizing seen with
  | nil => simp [repeatedSemantics]
  | cons v rest ih =>
    rw [repeatedSemantics]
    cases hsemantic : v.semantic with
    | none =>
      have hkey : v.key? = none := congrArg _ hsemantic
      rw [List.filterMap_cons_none hkey]
      exact ih
    | some semantic =>
      have hkey : v.key? = some semantic.key := congrArg _ hsemantic
      dsimp only
      rw [List.filterMap_cons_some hkey, List.forall_mem_cons, List.nodup_cons]
      cases hlookup : seen.lookup semantic.key with
      | none =>
        -- a new key is seen from here on
        have hfree : semantic.key ∉ seen.map (·.1) := by
          intro hkey
          obtain ⟨first, hfirst, heq⟩ := List.mem_map.1 hkey
          have hne := List.lookup_eq_none_iff.1 hlookup first hfirst
          simp [heq] at hne
        dsimp only
        rw [ih]
        simp only [List.map_append, List.map_cons, List.map_nil, List.mem_append,
          List.mem_singleton, not_or]
        constructor
        · rintro ⟨hrest, hnodup⟩
          exact ⟨⟨hfree, fun key hkey => (hrest key hkey).1⟩,
            fun hkey => (hrest _ hkey).2 rfl, hnodup⟩
        · rintro ⟨⟨-, hrest⟩, hkey, hnodup⟩
          refine ⟨fun key hmem => ⟨hrest key hmem, ?_⟩, hnodup⟩
          rintro rfl
          exact hkey hmem
      | some first =>
        -- a key that was seen is reported, and neither side is true
        obtain ⟨l₁, l₂, rfl, -⟩ := List.lookup_eq_some_iff.1 hlookup
        simp

namespace Lower

variable {s s' : Session} {direction : Direction}

/-- Nothing is reported about a direction exactly if its keys are different. -/
theorem repeatedIn_eq_nil_iff : repeatedIn direction s = [] ↔
    (InterfaceEntry.keysIn direction (s.interface.map (·.entry))).Nodup := by
  have hkeys : InterfaceEntry.keysIn direction (s.interface.map (·.entry)) =
      (s.interface.filter (·.direction = direction)).filterMap (·.key?) := by
    rw [InterfaceEntry.keysIn, List.filter_map, List.filterMap_map]
    rfl
  rw [repeatedIn, repeatedSemantics_eq_nil_iff, hkeys]
  simp

/-- After the answer `true` nothing was reported. -/
theorem repeatedIn_eq_nil (h : decorateLocations.runOn s = (.ok true, s')) :
    repeatedIn direction s = [] := by
  rw [runOn_decorateLocations_eq] at h
  obtain ⟨inputs, s₁, -, h⟩ := Action.runOn_bind_eq_ok_iff.1 h
  obtain ⟨outputs, s₂, -, h⟩ := Action.runOn_bind_eq_ok_iff.1 h
  simp only [Action.runOn_pure, Prod.mk.injEq, Except.ok.injEq, Bool.and_eq_true,
    List.isEmpty_iff] at h
  obtain ⟨⟨⟨⟨hinput, houtput⟩, -⟩, -⟩, -⟩ := h
  cases direction
  · exact hinput
  · exact houtput

end Lower

/-! ## Leaves with one semantic -/

/-- Two semantics are the same if their names are, without regard to case, and their indices. -/
def Semantic.Same (a b : Semantic) : Prop :=
  a.name.map Char.toUpper = b.name.map Char.toUpper ∧ a.index = b.index

namespace InterfaceLeaf

variable {stage : Stage} {options : Options} {l m : InterfaceLeaf} {leaves : List InterfaceLeaf}

/-- Two leaves at one signature point, neither part of an array of distances, have the same
semantic. -/
structure Clashes (stage : Stage) (l m : InterfaceLeaf) : Prop where
  point : l.point = m.point
  left : l.site? stage ≠ some .packed
  right : m.site? stage ≠ some .packed
  semantic : ∃ a b, l.semantic = some a ∧ m.semantic = some b ∧ a.Same b

theorem Clashes.symm (h : l.Clashes stage m) : m.Clashes stage l := by
  obtain ⟨a, b, ha, hb, hname, hindex⟩ := h.semantic
  exact ⟨h.point.symm, h.right, h.left, b, a, hb, ha, hname.symm, hindex.symm⟩

/-- Two leaves have semantic strings that differ by no more than case. -/
def SpelledAlike (l m : InterfaceLeaf) : Prop :=
  ∃ a b, l.semantic = some a ∧ m.semantic = some b ∧ a.key = b.key

/-- The keys of one direction are different exactly if no two leaves are spelled alike there. -/
theorem nodup_keysIn_iff {direction : Direction} :
    (InterfaceEntry.keysIn direction (leaves.map (·.entry options stage))).Nodup ↔
      leaves.Pairwise fun l m => l.direction = direction → m.direction = direction →
        ¬l.SpelledAlike m := by
  rw [InterfaceEntry.keysIn, List.Nodup, List.pairwise_filterMap, List.pairwise_filter,
    List.pairwise_map]
  refine List.Pairwise.iff fun l m => ?_
  simp only [Option.map_eq_some_iff, decide_eq_true_eq]
  constructor
  · rintro h hl hm ⟨a, b, ha, hb, hkey⟩
    exact h hl hm a.key ⟨a, ha, rfl⟩ b.key ⟨b, hb, rfl⟩ hkey
  · rintro h hl hm _ ⟨a, ha, rfl⟩ _ ⟨b, hb, rfl⟩ hkey
    exact h hl hm ⟨a, b, ha, hb, hkey⟩

end InterfaceLeaf

namespace Source.EntryPoint

variable (e : EntryPoint)

/-- No two leaves at one signature point have the same semantic, apart from those of distances. -/
def SemanticsUnique : Prop := e.leaves.Pairwise fun l m => ¬l.Clashes e.stage m

/-- The leaves that have a variable of their own. -/
def listedLeaves : List InterfaceLeaf := InterfaceLeaf.listed e.stage e.loweredLeaves

/-- The leaves that have none: parts of arrays of distances, builtins at another signature point
than that of their first use, and leaves that are dropped. -/
def unlistedLeaves : List InterfaceLeaf :=
  e.loweredLeaves.filter (!InterfaceLeaf.isListed e.stage e.loweredLeaves ·) ++ e.droppedLeaves

theorem leaves_perm_listed : e.leaves.Perm (e.listedLeaves ++ e.unlistedLeaves) := by
  refine e.leaves_perm.trans ?_
  rw [listedLeaves, unlistedLeaves, InterfaceLeaf.listed, ← List.append_assoc]
  exact (List.filter_append_perm _ _).symm.append_right _

end Source.EntryPoint

namespace Lower

variable {e : EntryPoint} {stage : Stage} {options : Options} {s : Session}

/-- After an entry point was lowered with nothing wrong, no two listed leaves of one direction are
spelled alike. -/
theorem pairwise_not_spelledAlike
    (h : (entryPoint e).runOn (.start stage options) = (.ok true, s)) :
    e.listedLeaves.Pairwise fun l m => l.direction = m.direction → ¬l.SpelledAlike m := by
  obtain ⟨s₁, s₂, s₃, -, -, hblank, hlowers, hlocations⟩ := phases_entryPoint h
  have hlists := hlowers.lists_of_blank hblank
  have hapart : ∀ direction, e.listedLeaves.Pairwise fun l m => l.direction = direction →
      m.direction = direction → ¬l.SpelledAlike m := by
    intro direction
    have hnil : repeatedIn direction _ = [] := repeatedIn_eq_nil hlocations
    rw [repeatedIn_eq_nil_iff, hlists.entries] at hnil
    exact InterfaceLeaf.nodup_keysIn_iff.1 hnil
  refine ((hapart .input).and (hapart .output)).imp fun {l m} hboth hdirection => ?_
  cases hl : l.direction with
  | input => exact hboth.1 hl (hdirection ▸ hl)
  | output => exact hboth.2 hl (hdirection ▸ hl)

/-- **Unique semantics.**  After an entry point was lowered with nothing wrong, no semantic is used
twice at a signature point exactly if listed leaves that have one semantic spell it alike, and no
leaf that is not listed has the semantic of another. -/
theorem semanticsUnique_iff (h : (entryPoint e).runOn (.start stage options) = (.ok true, s)) :
    e.SemanticsUnique ↔
      e.listedLeaves.Pairwise (fun l m => l.Clashes e.stage m → l.SpelledAlike m) ∧
      e.unlistedLeaves.Pairwise (fun l m => ¬l.Clashes e.stage m) ∧
      ∀ l ∈ e.listedLeaves, ∀ m ∈ e.unlistedLeaves, ¬l.Clashes e.stage m := by
  have hsymm : ∀ {l m : InterfaceLeaf}, ¬l.Clashes e.stage m → ¬m.Clashes e.stage l :=
    fun hclash hclash' => hclash hclash'.symm
  rw [EntryPoint.SemanticsUnique, e.leaves_perm_listed.pairwise_iff hsymm, List.pairwise_append]
  refine and_congr_left fun _ => ⟨fun hunique => hunique.imp fun hnone hclash => absurd hclash hnone,
    fun halike => ?_⟩
  -- what is spelled alike was found, so it did not happen
  refine (halike.and (pairwise_not_spelledAlike h)).imp fun {l m} ⟨halike, hapart⟩ hclash => ?_
  exact hapart (congrArg SignaturePoint.direction hclash.point) (halike hclash)

end Lower

/-- A vertex shader with two inputs of one semantic, spelled in two ways. -/
def twoSpellings : EntryPoint where
  stage := .vertex
  function := {
    id := 1
    name := "main"
    params := [
      { id := 2
        name := "a"
        ty := .vector .single 2
        attributes := { semantic := some "TEXCOORD" } },
      { id := 3
        name := "b"
        ty := .vector .single 2
        attributes := { semantic := some "TEXCOORD0" } }] }

/-- The session after it was lowered. -/
def twoSpellingsSession : Session := ((Lower.entryPoint twoSpellings).runOn (.start .vertex {})).2

namespace Lower

theorem runOn_twoSpellings :
    (entryPoint twoSpellings).runOn (.start .vertex {}) = (.ok true, twoSpellingsSession) :=
  Prod.ext (by decide +kernel) rfl

theorem semanticsUnique_iff_twoSpellings :
    (entryPoint twoSpellings).runOn (.start .vertex {}) = (.ok true, twoSpellingsSession) ∧
    (twoSpellings.SemanticsUnique ↔
      twoSpellings.listedLeaves.Pairwise
        (fun l m => l.Clashes twoSpellings.stage m → l.SpelledAlike m) ∧
      twoSpellings.unlistedLeaves.Pairwise (fun l m => ¬l.Clashes twoSpellings.stage m) ∧
      ∀ l ∈ twoSpellings.listedLeaves, ∀ m ∈ twoSpellings.unlistedLeaves,
        ¬l.Clashes twoSpellings.stage m) :=
  ⟨runOn_twoSpellings, semanticsUnique_iff runOn_twoSpellings⟩

/-- Nothing is reported about it. -/
theorem not_semanticsUnique :
    (entryPoint twoSpellings).runOn (.start .vertex {}) = (.ok true, twoSpellingsSession) ∧
      ¬twoSpellings.SemanticsUnique := by
  refine ⟨runOn_twoSpellings, fun hunique => ?_⟩
  let leaf (name string : String) : InterfaceLeaf := {
    point := .vertexIn
    decl := ⟨name, .vector .single 2, { semantic := some string }, {}⟩
    semantic := some ⟨string, "TEXCOORD", 0, .arbitrary, {}⟩ }
  have hleaves : twoSpellings.leaves = [leaf "a" "TEXCOORD", leaf "b" "TEXCOORD0"] := by
    decide +kernel
  rw [Source.EntryPoint.SemanticsUnique, hleaves, List.pairwise_pair] at hunique
  exact hunique ⟨rfl, by decide, by decide, _, _, rfl, rfl, rfl, rfl⟩

end Lower

end ShaderLowering
