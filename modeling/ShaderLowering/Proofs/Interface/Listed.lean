import ShaderLowering.Proofs.Interface.EntryPoint
import ShaderLowering.Proofs.Interface.Linkage

/-!
# Listed leaves

Which variables the interface of a session lists, leaf by leaf.  A leaf at a location is always
listed.  A builtin has one variable per direction, and it is listed for the leaves at the signature
point of its first use; a leaf at another point shares the variable and leaves no trace.

`Session.Lists` relates a session to all leaves created so far, so it is an invariant of creating one
leaf more (`lists_createLeaf`) and with that of a whole interface (`Session.Lowers.lists`).
-/

namespace ShaderLowering

open Source (Ty Field Param Function EntryPoint)
open Spirv (Builtin VariableId)

/-- What an interface variable is, apart from its place in the module and in the source. -/
structure InterfaceEntry where
  point : SignaturePoint
  semantic : Option Semantic
  /-- The linkage of a variable at locations; a builtin has none. -/
  linkage : Option Linkage
deriving DecidableEq, Repr, Inhabited

/-- The entry of a variable. -/
def InterfaceVariable.entry (v : InterfaceVariable) : InterfaceEntry :=
  ⟨v.point, v.semantic, v.linkage?⟩

namespace InterfaceLeaf

section Entries

variable (options : Options) (stage : Stage) (l : InterfaceLeaf)

/-- The linkage of a leaf at locations, before they are given out. -/
def linkage? : Option Linkage :=
  if l.site? stage = some .location then
    (Layout.locations options l.decl.ty).toOption.map fun count => {
      semantic := l.semantic.map (·.string)
      location := l.semantic.bind (explicitLocation? l.decl)
      index := l.decl.attributes.index
      count }
  else none

/-- The entry of the variable of a leaf. -/
def entry : InterfaceEntry := ⟨l.point, l.semantic, l.linkage? options stage⟩

end Entries

/-! ## Which leaves are listed -/

section Listed

variable (stage : Stage)

/-- The signature point at which a builtin is used first among some leaves of a direction. -/
def firstUse? (leaves : List InterfaceLeaf) (b : Builtin) (direction : Direction) :
    Option SignaturePoint :=
  (leaves.find? fun l => l.site? stage = some (.builtin b) && l.direction = direction).map (·.point)

/-- Whether a leaf has a variable of its own among those of some leaves.  A builtin has one at the
signature point of its first use. -/
def isListed (leaves : List InterfaceLeaf) (l : InterfaceLeaf) : Bool :=
  match l.site? stage with
  | some .location => true
  | some (.builtin b) => firstUse? stage leaves b l.direction = some l.point
  | _ => false

/-- The leaves that have a variable of their own. -/
def listed (leaves : List InterfaceLeaf) : List InterfaceLeaf :=
  leaves.filter (isListed stage leaves)

/-- Every builtin is used at one signature point of a direction. -/
def UsedAtOnePoint (leaves : List InterfaceLeaf) : Prop :=
  ∀ l ∈ leaves, ∀ m ∈ leaves, ∀ b, l.site? stage = some (.builtin b) →
    m.site? stage = some (.builtin b) → l.direction = m.direction → l.point = m.point

end Listed

variable {stage : Stage} {leaves leaves' : List InterfaceLeaf} {l : InterfaceLeaf} {b : Builtin}
  {direction : Direction}

theorem firstUse?_append : firstUse? stage (leaves ++ leaves') b direction =
    (firstUse? stage leaves b direction).or (firstUse? stage leaves' b direction) := by
  rw [firstUse?, firstUse?, firstUse?, List.find?_append, Option.map_or]

theorem firstUse?_singleton : firstUse? stage [l] b direction =
    if l.site? stage = some (.builtin b) ∧ l.direction = direction then some l.point else none := by
  by_cases h : l.site? stage = some (.builtin b) ∧ l.direction = direction
  · rw [if_pos h]
    simp [firstUse?, h]
  · rw [if_neg h]
    simpa [firstUse?] using h

/-- A builtin that is used has a first use. -/
theorem isSome_firstUse? (hl : l ∈ leaves) (hsite : l.site? stage = some (.builtin b)) :
    (firstUse? stage leaves b l.direction).isSome = true := by
  rw [firstUse?, Option.isSome_map, List.find?_isSome]
  exact ⟨l, hl, by simp [hsite]⟩

/-- Later leaves do not change whether a leaf is listed. -/
theorem isListed_append (hl : l ∈ leaves) :
    isListed stage (leaves ++ leaves') l = isListed stage leaves l := by
  rw [isListed.eq_def, isListed.eq_def]
  cases hsite : l.site? stage with
  | none => rfl
  | some site =>
    cases site with
    | location | packed => rfl
    | builtin b =>
      dsimp only
      rw [firstUse?_append, Option.or_of_isSome (isSome_firstUse? hl hsite)]

theorem listed_concat : listed stage (leaves ++ [l]) =
    listed stage leaves ++ if isListed stage (leaves ++ [l]) l then [l] else [] := by
  rw [listed, List.filter_append, List.filter_singleton, Bool.cond_eq_ite]
  congr 1
  exact List.filter_congr fun m hm => isListed_append hm

theorem isListed_of_location (hsite : l.site? stage = some .location) :
    isListed stage leaves l = true := by
  rw [isListed.eq_def, hsite]

theorem isListed_of_packed (hsite : l.site? stage = some .packed) :
    isListed stage leaves l = false := by
  rw [isListed.eq_def, hsite]

/-- One more use of a builtin is listed if it is the first, or at the same point as the first. -/
theorem isListed_concat_of_builtin (hsite : l.site? stage = some (.builtin b)) :
    isListed stage (leaves ++ [l]) l =
      decide ((firstUse? stage leaves b l.direction).getD l.point = l.point) := by
  rw [isListed.eq_def, hsite]
  dsimp only
  rw [firstUse?_append, firstUse?_singleton, if_pos ⟨hsite, rfl⟩]
  cases firstUse? stage leaves b l.direction <;> simp

/-- If no builtin is used at two points, all leaves are listed that are not packed. -/
theorem listed_of_usedAtOnePoint (h : UsedAtOnePoint stage leaves)
    (hplaced : ∀ l ∈ leaves, (l.site? stage).isSome = true) :
    listed stage leaves = leaves.filter fun l => l.site? stage ≠ some .packed := by
  refine List.filter_congr fun l hl => ?_
  obtain ⟨site, hsite⟩ := Option.isSome_iff_exists.1 (hplaced l hl)
  rw [isListed.eq_def, hsite]
  cases site with
  | location => rfl
  | packed => simp
  | builtin b =>
    obtain ⟨point, hpoint⟩ := Option.isSome_iff_exists.1 (isSome_firstUse? hl hsite)
    obtain ⟨m, hfind, rfl⟩ := Option.map_eq_some_iff.1 hpoint
    have hm := List.find?_some hfind
    rw [Bool.and_eq_true, decide_eq_true_eq, decide_eq_true_eq] at hm
    have hsame := h m (List.mem_of_find?_eq_some hfind) l hl b hm.1 hsite hm.2
    simp [hpoint, hsame]

theorem linkage?_of_ne {options : Options} (hsite : l.site? stage ≠ some .location) :
    l.linkage? options stage = none := if_neg hsite

end InterfaceLeaf

/-! ## The listed leaves of a session -/

/-- The session lists what the leaves created so far stand for. -/
structure Session.Lists (s : Session) (options : Options) (stage : Stage)
    (leaves : List InterfaceLeaf) : Prop where
  ready : s.Ready
  sameOptions : s.emitter.options = options
  sameStage : s.stage = stage
  known : ∀ b direction, (s.builtins.lookup (b, direction)).map (·.2) =
    InterfaceLeaf.firstUse? stage leaves b direction
  entries : s.interface.map (·.entry) =
    (InterfaceLeaf.listed stage leaves).map (·.entry options stage)

theorem Session.Blank.lists {s : Session} {stage : Stage} (h : s.Blank stage) :
    s.Lists s.emitter.options stage [] :=
  ⟨h.ready, rfl, h.stage, by simp [h.builtins, InterfaceLeaf.firstUse?],
    by simp [h.interface, InterfaceLeaf.listed]⟩

namespace Session.Lists

variable {s : Session} {options : Options} {stage : Stage} {done : List InterfaceLeaf}
  {l : InterfaceLeaf} {b : Builtin}

/-- A session with no more than other variables of the module lists the same leaves. -/
theorem of_adds (hs : s.Lists options stage done) {e' : Emitter} {vs : List Spirv.Variable}
    (hadds : s.emitter.Adds e' vs) : Lists { s with emitter := e' } options stage done where
  ready := ⟨hadds.sound, fun key known hkey =>
    hadds.hasBuiltin_iff.2 (.inl (hs.ready.known key known hkey))⟩
  sameOptions := hadds.options.trans hs.sameOptions
  sameStage := hs.sameStage
  known := hs.known
  entries := hs.entries

/-- A leaf that is no builtin leaves the first uses of builtins as they are. -/
theorem known_concat (hs : s.Lists options stage done)
    (hsite : ∀ b, l.site? stage ≠ some (.builtin b)) (b : Builtin) (direction : Direction) :
    (s.builtins.lookup (b, direction)).map (·.2) =
      InterfaceLeaf.firstUse? stage (done ++ [l]) b direction := by
  rw [hs.known, InterfaceLeaf.firstUse?_append, InterfaceLeaf.firstUse?_singleton,
    if_neg fun h => hsite b h.1, Option.or_none]

/-- A variable is added for a leaf that is listed. -/
theorem entries_concat (hs : s.Lists options stage done) {v : InterfaceVariable}
    (hlisted : InterfaceLeaf.isListed stage (done ++ [l]) l = true)
    (hentry : v.entry = l.entry options stage) : (s.interface ++ [v]).map (·.entry) =
      (InterfaceLeaf.listed stage (done ++ [l])).map (·.entry options stage) := by
  rw [InterfaceLeaf.listed_concat, if_pos hlisted, List.map_append, List.map_append, hs.entries,
    List.map_singleton, List.map_singleton, hentry]

/-- No variable is added for a leaf that is not listed. -/
theorem entries_of_not_listed (hs : s.Lists options stage done)
    (hlisted : InterfaceLeaf.isListed stage (done ++ [l]) l = false) :
    s.interface.map (·.entry) =
      (InterfaceLeaf.listed stage (done ++ [l])).map (·.entry options stage) := by
  rw [InterfaceLeaf.listed_concat, hlisted, hs.entries]
  simp

/-- Every variable is that of a listed leaf. -/
theorem exists_leaf (hs : s.Lists options stage done) {v : InterfaceVariable}
    (hv : v ∈ s.interface) :
    ∃ l ∈ InterfaceLeaf.listed stage done, l.entry options stage = v.entry := by
  have hmem := List.mem_map_of_mem (f := InterfaceVariable.entry) hv
  rw [hs.entries] at hmem
  exact List.mem_map.1 hmem

end Session.Lists

namespace Lower

variable {s s' : Session} {options : Options} {stage : Stage} {done : List InterfaceLeaf}
  {decl : Field} {semantic : Option Semantic} {c : InterfaceContext} {b : Builtin}

/-- A builtin has a variable, of the signature point of its first use. -/
theorem lists_builtinVariable (hs : s.Lists options stage done)
    (hsite : InterfaceLeaf.site? stage ⟨c.point, decl, semantic⟩ = some (.builtin b))
    {r : VariableId × SignaturePoint} (h : (builtinVariable decl b c).runOn s = (.ok r, s')) :
    s'.interface = s.interface ∧ s'.Ready ∧ s'.emitter.options = options ∧ s'.stage = stage ∧
      r.2 = (InterfaceLeaf.firstUse? stage done b c.point.direction).getD c.point ∧
      ∀ b direction, (s'.builtins.lookup (b, direction)).map (·.2) =
        InterfaceLeaf.firstUse? stage (done ++ [⟨c.point, decl, semantic⟩]) b direction := by
  have hready := (creates_builtinVariable hs.ready (hs.sameStage ▸ hsite) h).ready
  have hknown := hs.known b c.point.direction
  obtain ⟨_, _, h₀, h⟩ := Action.runOn_bind_eq_ok_iff.1 h
  cases h₀
  split at h
  · -- the builtin is there, and stays at the point of its first use
    rename_i known hlookup
    cases h
    rw [hlookup, Option.map_some] at hknown
    refine ⟨rfl, hready, hs.sameOptions, hs.sameStage, by rw [← hknown]; rfl, fun b' direction => ?_⟩
    rw [hs.known, InterfaceLeaf.firstUse?_append, InterfaceLeaf.firstUse?_singleton, hsite]
    split
    · rename_i hsame
      obtain ⟨heq, rfl⟩ := hsame
      cases heq
      rw [show InterfaceLeaf.direction ⟨c.point, decl, semantic⟩ = c.point.direction from rfl,
        ← hknown]
      rfl
    · rw [Option.or_none]
  · -- a new variable is that of the first use
    rename_i hlookup
    obtain ⟨var, s₁, h₁, h⟩ := Action.runOn_bind_eq_ok_iff.1 h
    obtain ⟨e₁, hrun, rfl⟩ := runOn_emit_eq_ok_iff.1 h₁
    cases h
    obtain ⟨v, hadds, -⟩ := Emit.adds_builtinVariable hs.ready.sound hrun
    rw [hlookup, Option.map_none] at hknown
    refine ⟨rfl, hready, hadds.options.trans hs.sameOptions, hs.sameStage, by rw [← hknown]; rfl,
      fun b' direction => ?_⟩
    show (List.lookup (b', direction) (((b, c.point.direction), _) :: s.builtins)).map _ = _
    rw [InterfaceLeaf.firstUse?_append, InterfaceLeaf.firstUse?_singleton, hsite, List.lookup_cons]
    by_cases hkey : (b', direction) = (b, c.point.direction)
    · obtain ⟨rfl, rfl⟩ := Prod.mk.inj hkey
      rw [← hknown, if_pos ⟨rfl, rfl⟩]
      simp
    · rw [beq_eq_false_iff_ne.2 hkey, if_neg, Option.or_none]
      · exact hs.known b' direction
      · rintro ⟨heq, rfl⟩
        cases heq
        exact hkey rfl

theorem lists_createBuiltin (hs : s.Lists options stage done)
    (hsite : InterfaceLeaf.site? stage ⟨c.point, decl, semantic⟩ = some (.builtin b))
    (h : (createBuiltin decl semantic b c).runOn s = (.ok (), s')) :
    s'.Lists options stage (done ++ [⟨c.point, decl, semantic⟩]) := by
  obtain ⟨⟨var, point⟩, s₁, h₁, h⟩ := Action.runOn_bind_eq_ok_iff.1 h
  obtain ⟨hinterface, hready, hoptions, hstage, hpoint, hknown⟩ := lists_builtinVariable hs hsite h₁
  have hlisted : InterfaceLeaf.isListed stage (done ++ [⟨c.point, decl, semantic⟩]) _ = _ :=
    InterfaceLeaf.isListed_concat_of_builtin hsite
  have hlinkage : InterfaceLeaf.linkage? options stage ⟨c.point, decl, semantic⟩ = none :=
    InterfaceLeaf.linkage?_of_ne (by simp [hsite])
  dsimp only at h hpoint
  rw [InterfaceLeaf.direction, ← hpoint] at hlisted
  split at h
  · rename_i heq
    cases h
    refine ⟨⟨hready.sound, hready.known⟩, hoptions, hstage, hknown, ?_⟩
    show (s₁.interface ++ [_]).map _ = _
    rw [hinterface]
    refine hs.entries_concat (hlisted.trans (decide_eq_true heq)) ?_
    rw [InterfaceLeaf.entry, hlinkage]
    rfl
  · rename_i hne
    cases h
    refine ⟨hready, hoptions, hstage, hknown, ?_⟩
    rw [hinterface]
    exact hs.entries_of_not_listed (hlisted.trans (decide_eq_false hne))

theorem lists_createLocated (hs : s.Lists options stage done) {semantic : Semantic}
    (hsite : InterfaceLeaf.site? stage ⟨c.point, decl, some semantic⟩ = some .location)
    (h : (createLocated decl semantic c).runOn s = (.ok (), s')) :
    s'.Lists options stage (done ++ [⟨c.point, decl, some semantic⟩]) := by
  obtain ⟨⟨var, count⟩, s₁, h₁, h⟩ := Action.runOn_bind_eq_ok_iff.1 h
  obtain ⟨e₁, hrun, rfl⟩ := runOn_emit_eq_ok_iff.1 h₁
  obtain ⟨⟨v, hadds, -⟩, hcount⟩ := Emit.adds_locatedVariable hs.ready.sound hrun
  cases h
  have hemit := hs.of_adds hadds
  rw [hs.sameOptions] at hcount
  refine ⟨⟨hemit.ready.sound, hemit.ready.known⟩, hemit.sameOptions, hemit.sameStage,
    hemit.known_concat fun b => by simp [hsite],
    hemit.entries_concat (InterfaceLeaf.isListed_of_location hsite) ?_⟩
  rw [InterfaceLeaf.entry, InterfaceLeaf.linkage?, if_pos hsite, hcount]
  rfl

theorem lists_packed (hs : s.Lists options stage done) {l : InterfaceLeaf}
    (hsite : l.site? stage = some .packed) : s.Lists options stage (done ++ [l]) :=
  ⟨hs.ready, hs.sameOptions, hs.sameStage, hs.known_concat fun b => by simp [hsite],
    hs.entries_of_not_listed (InterfaceLeaf.isListed_of_packed hsite)⟩

/-- One more leaf. -/
theorem lists_createLeaf (hs : s.Lists options stage done)
    (h : (createLeaf decl semantic c).runOn s = (.ok true, s')) :
    s'.Lists options stage (done ++ [⟨c.point, decl, semantic⟩]) := by
  obtain ⟨_, _, h₀, h⟩ := Action.runOn_bind_eq_ok_iff.1 h
  cases h₀
  rw [hs.sameStage] at h
  split at h
  · -- a leaf that is reported leaves the answer false
    obtain ⟨_, s₁, -, h⟩ := Action.runOn_bind_eq_ok_iff.1 h
    cases h
  rename_i placement hplacement
  obtain ⟨_, s₁, h₁, h⟩ := Action.runOn_bind_eq_ok_iff.1 h
  obtain ⟨e₁, hrun, rfl⟩ := runOn_emit_eq_ok_iff.1 h₁
  have hdeclare := hs.of_adds ((Emit.realizes_declare hs.ready.sound placement.capability
    placement.extension).adds hrun)
  have hsite : InterfaceLeaf.site? stage ⟨c.point, decl, semantic⟩ = some placement.site :=
    InterfaceLeaf.site?_eq_some_iff.2 ⟨placement, hplacement, rfl⟩
  obtain ⟨site, capability, extension⟩ := placement
  match site, semantic, h, hsite with
  | .packed, _, h, hsite =>
    cases h
    exact lists_packed hdeclare hsite
  | .builtin b, _, h, hsite =>
    obtain ⟨_, s₂, h₂, h⟩ := Action.runOn_bind_eq_ok_iff.1 h
    cases h
    exact lists_createBuiltin hdeclare hsite h₂
  | .location, some semantic, h, hsite =>
    obtain ⟨_, s₂, h₂, h⟩ := Action.runOn_bind_eq_ok_iff.1 h
    cases h
    exact lists_createLocated hdeclare hsite h₂
  | .location, none, _, hsite =>
    -- only leaves with a semantic come to a location
    have hsemantic := InterfaceLeaf.isSome_semantic_of_site? hsite
    cases hsemantic

end Lower

namespace Session.Lowers

variable {s s' : Session} {options : Options} {stage : Stage} {done leaves : List InterfaceLeaf}

/-- All leaves of an interface. -/
theorem lists (h : s.Lowers leaves s') (hs : s.Lists options stage done) :
    s'.Lists options stage (done ++ leaves) := by
  induction h generalizing done with
  | nil => rwa [List.append_nil]
  | leaf hleaf _ ih =>
    rw [List.append_cons]
    exact ih (Lower.lists_createLeaf hs hleaf)
  | @remark _ _ _ finding position _ hreport _ ih =>
    obtain ⟨e₁, hrun, rfl⟩ := Lower.runOn_emit_eq_ok_iff.1 hreport
    exact ih (hs.of_adds ((Emit.realizes_report hs.ready.sound finding position).adds hrun))

/-- All leaves of an interface that starts with none. -/
theorem lists_of_blank (h : s.Lowers leaves s') (hs : s.Blank stage) :
    s'.Lists s.emitter.options stage leaves :=
  h.lists hs.lists

end Session.Lowers

end ShaderLowering
