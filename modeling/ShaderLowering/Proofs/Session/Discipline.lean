import ShaderLowering.Proofs.Session.Bindings
import ShaderLowering.Proofs.Session.Growth

/-!
# The discipline of decorations

Variables come from five places and are decorated later by two loops that are driven by lists and do
not look at the variables.  That the right ones are decorated is an invariant of the session: the
lists say of every variable on them what it is (`Session.Classified`).  A step that decorates takes
a variable from a list, so it only has to be said once, for every kind of step, that the lists stay
right.
-/

namespace ShaderLowering

open Spirv (VariableId VariableDecoration Builtin StorageClass)

/-! ## Single variables -/

namespace Spirv

/-- Whether the decoration links a variable to the interface of a stage. -/
def VariableDecoration.isLink : VariableDecoration → Bool
  | location _ | builtin _ => true
  | _ => false

namespace VariableDecoration

variable {d : VariableDecoration}

theorem isPlace_of_isLink (hd : d.isLink = true) : d.isPlace = true := by
  cases d with
  | location | builtin => rfl
  | index | descriptorSet | binding | patch | flat | noPerspective | centroid | sample
  | relaxedPrecision => cases hd

theorem isPlace_of_isDescriptor (hd : d.isDescriptor = true) : d.isPlace = true := by
  cases d with
  | descriptorSet | binding => rfl
  | location | builtin | index | patch | flat | noPerspective | centroid | sample
  | relaxedPrecision => cases hd

theorem isLink_of_isDescriptor (hd : d.isDescriptor = true) : d.isLink = false := by
  cases d with
  | descriptorSet | binding => rfl
  | location | builtin | index | patch | flat | noPerspective | centroid | sample
  | relaxedPrecision => cases hd

end VariableDecoration

namespace StorageClass

variable {c : StorageClass}

theorem unlisted_of_isInterface (hc : c.isInterface = true) :
    c.isDescribed = false ∧ c ≠ .pushConstant := by
  cases c with
  | input | output => exact ⟨rfl, by decide⟩
  | function | privateGlobal | uniform | uniformConstant | pushConstant | workgroup => cases hc

theorem unlisted_of_isInternal (hc : c.isInternal = true) :
    c.isDescribed = false ∧ c ≠ .pushConstant := by
  cases c with
  | function | privateGlobal | workgroup => exact ⟨rfl, by decide⟩
  | input | output | uniform | uniformConstant | pushConstant => cases hc

end StorageClass

/-- The decorations of a variable fit its storage class, and it has one place at most. -/
structure Variable.Fits (v : Variable) : Prop where
  link : ∀ d ∈ v.decorations, d.isLink = true → v.storage.isInterface = true
  apart : ∀ n b, .location n ∈ v.decorations → .builtin b ∉ v.decorations
  descriptor : ∀ d ∈ v.decorations, d.isDescriptor = true → v.storage.isDescribed = true

namespace Variable

variable {v : Variable} {b b' : Builtin}

theorem IsUnplaced.not_mem (hv : v.IsUnplaced) {d : VariableDecoration} (hd : d.isPlace = true) :
    d ∉ v.decorations := fun hmem => by
  rw [hv d hmem] at hd
  cases hd

/-- A variable without a place fits any storage class. -/
theorem IsUnplaced.fits (hv : v.IsUnplaced) : v.Fits where
  link _ hmem hd := absurd hmem (hv.not_mem (VariableDecoration.isPlace_of_isLink hd))
  apart _ _ hmem := absurd hmem (hv.not_mem rfl)
  descriptor _ hmem hd := absurd hmem (hv.not_mem (VariableDecoration.isPlace_of_isDescriptor hd))

/-- The only place of a variable for a builtin is that builtin. -/
theorem StandsFor.eq_of_mem (hv : v.StandsFor b) {d : VariableDecoration} (hmem : d ∈ v.decorations)
    (hd : d.isPlace = true) : d = .builtin b := by
  obtain ⟨ds, hdecorations, hds⟩ := hv
  rw [hdecorations] at hmem
  rcases List.mem_cons.1 hmem with rfl | hmem
  · rfl
  · rw [hds d hmem] at hd
    cases hd

theorem StandsFor.mem_iff (hv : v.StandsFor b) : .builtin b' ∈ v.decorations ↔ some b = some b' := by
  constructor
  · intro hmem
    cases hv.eq_of_mem hmem rfl
    rfl
  · rintro ⟨⟩
    obtain ⟨ds, hdecorations, -⟩ := hv
    rw [hdecorations]
    exact List.mem_cons_self

theorem StandsFor.fits (hv : v.StandsFor b) (hstorage : v.storage.isInterface = true) :
    v.Fits where
  link _ _ _ := hstorage
  apart n _ hmem := by cases hv.eq_of_mem hmem rfl
  descriptor d hmem hd := by
    cases hv.eq_of_mem hmem (VariableDecoration.isPlace_of_isDescriptor hd)
    cases hd

/-- A location may be added to an interface variable that stands for no builtin. -/
theorem Fits.locate (hv : v.Fits) (hstorage : v.storage.isInterface = true)
    (hbuiltin : ∀ b, .builtin b ∉ v.decorations) (n : Nat) : (v.gaining [.location n]).Fits where
  link _ _ _ := hstorage
  apart _ b _ hmem := by
    rcases List.mem_append.1 hmem with hmem | hmem
    · exact hbuiltin b hmem
    · cases List.mem_singleton.1 hmem
  descriptor d hmem hd := by
    rcases List.mem_append.1 hmem with hmem | hmem
    · exact hv.descriptor d hmem hd
    · cases List.mem_singleton.1 hmem
      cases hd

/-- A part of a binding may be added to a variable that is bound to descriptors. -/
theorem Fits.bind (hv : v.Fits) (hstorage : v.storage.isDescribed = true) {d : VariableDecoration}
    (hd : d.isDescriptor = true) : (v.gaining [d]).Fits where
  link d' hmem hd' := by
    rcases List.mem_append.1 hmem with hmem | hmem
    · exact hv.link d' hmem hd'
    · cases List.mem_singleton.1 hmem
      rw [VariableDecoration.isLink_of_isDescriptor hd] at hd'
      cases hd'
  apart n b hlocation hbuiltin := by
    rcases List.mem_append.1 hlocation with hlocation | hlocation
    · rcases List.mem_append.1 hbuiltin with hbuiltin | hbuiltin
      · exact hv.apart n b hlocation hbuiltin
      · cases List.mem_singleton.1 hbuiltin
        cases hd
    · cases List.mem_singleton.1 hlocation
      cases hd
  descriptor _ _ _ := hstorage

end Variable

end Spirv

theorem Direction.isInterface_storage (d : Direction) : d.storage.isInterface = true := by
  cases d <;> rfl

/-! ## The invariant -/

namespace Session

/-- The variable with a number belongs to the interface in a direction, and stands for the builtin
in question or for none. -/
def Carries (s : Session) (id : VariableId) (direction : Direction) (builtin : Option Builtin) :
    Prop :=
  ∃ v, s.var? id = some v ∧ v.storage = direction.storage ∧
    ∀ b, .builtin b ∈ v.decorations ↔ builtin = some b

/-- The variable with a number is bound to descriptors. -/
def Describes (s : Session) (id : VariableId) : Prop :=
  ∃ v, s.var? id = some v ∧ v.storage.isDescribed = true

/-- The lists of a session say what the variables on them are, and leave out none that is bound to
descriptors or pushed. -/
structure Classified (s : Session) : Prop where
  fits : ∀ id v, s.var? id = some v → v.Fits
  interface : ∀ u ∈ s.interface, s.Carries u.var u.direction u.builtin
  builtins : ∀ entry ∈ s.builtins, s.Carries entry.2.1 entry.1.2 (some entry.1.1)
  resources : ∀ r ∈ s.resources, s.Describes r.var
  nodup : (s.resources.map (·.var)).Nodup
  listed : ∀ id v, s.var? id = some v → v.storage.isDescribed = true →
    id ∈ s.resources.map (·.var)
  pushed : ∀ id v, s.var? id = some v → v.storage = .pushConstant →
    ∃ position, s.pushConstant = some (id, position)

/-- The second session has the variables of the first one, in the same storage classes and for the
same builtins. -/
def Retains (s s' : Session) : Prop :=
  ∀ id v, s.var? id = some v → ∃ v', s'.var? id = some v' ∧ v'.storage = v.storage ∧
    ∀ b, .builtin b ∈ v'.decorations ↔ .builtin b ∈ v.decorations

variable {standard packing : Prop} {s s' : Session} {id : VariableId}

theorem Carries.of_retains {direction : Direction} {builtin : Option Builtin}
    (h : s.Carries id direction builtin) (hretains : s.Retains s') :
    s'.Carries id direction builtin := by
  obtain ⟨v, hv, hstorage, hbuiltin⟩ := h
  obtain ⟨v', hv', hstorage', hbuiltin'⟩ := hretains id v hv
  exact ⟨v', hv', hstorage'.trans hstorage, fun b => (hbuiltin' b).trans (hbuiltin b)⟩

theorem Describes.of_retains (h : s.Describes id) (hretains : s.Retains s') : s'.Describes id := by
  obtain ⟨v, hv, hstorage⟩ := h
  obtain ⟨v', hv', hstorage', -⟩ := hretains id v hv
  exact ⟨v', hv', hstorage'.symm ▸ hstorage⟩

theorem retains_of_variables (h : s'.emitter.target.variables = s.emitter.target.variables) :
    s.Retains s' := fun id v hv =>
  ⟨v, by rw [var?, h]; exact hv, rfl, fun _ => .rfl⟩

/-! ## A variable more -/

theorem var?_adding (s : Session) (v : Spirv.Variable) (j : VariableId) :
    (s.adding v).var? j = if j = s.size then some v else s.var? j :=
  Spirv.Table.get?_push _ _ _

theorem lt_size_of_var? {v : Spirv.Variable} (h : s.var? id = some v) : id < s.size :=
  (List.getElem?_eq_some_iff.1 h).1

theorem Describes.lt_size (h : s.Describes id) : id < s.size := by
  obtain ⟨v, hv, -⟩ := h
  exact lt_size_of_var? hv

theorem retains_adding (s : Session) (v : Spirv.Variable) : s.Retains (s.adding v) := fun id w hw =>
  ⟨w, by rw [var?_adding, if_neg (Nat.ne_of_lt (lt_size_of_var? hw)), hw], rfl, fun _ => .rfl⟩

theorem var?_adding_self (s : Session) (v : Spirv.Variable) : (s.adding v).var? s.size = some v := by
  rw [var?_adding, if_pos rfl]

/-- What holds of the new variable and of all old ones holds of all. -/
theorem forall_var?_adding {P : VariableId → Spirv.Variable → Prop} {v : Spirv.Variable}
    (hnew : P s.size v) (hold : ∀ id w, s.var? id = some w → P id w) :
    ∀ id w, (s.adding v).var? id = some w → P id w := by
  intro id w hw
  rw [var?_adding] at hw
  split at hw
  · rename_i hid
    cases hw
    exact hid ▸ hnew
  · exact hold id w hw

section Adding

variable {v : Spirv.Variable}

/-- A variable that is neither bound to descriptors nor pushed need not be on a list. -/
theorem Classified.adding (hs : s.Classified) (hv : v.Fits)
    (hstorage : v.storage.isDescribed = false ∧ v.storage ≠ .pushConstant) :
    (s.adding v).Classified where
  fits := forall_var?_adding hv hs.fits
  interface u hu := (hs.interface u hu).of_retains (s.retains_adding v)
  builtins entry hentry := (hs.builtins entry hentry).of_retains (s.retains_adding v)
  resources r hr := (hs.resources r hr).of_retains (s.retains_adding v)
  nodup := hs.nodup
  listed := forall_var?_adding (fun h => by rw [hstorage.1] at h; cases h) hs.listed
  pushed := forall_var?_adding (fun h => absurd h hstorage.2) hs.pushed

theorem Classified.adding_resource (hs : s.Classified) {r : ResourceVariable} (hvar : r.var = s.size)
    (hstorage : v.storage.isDescribed = true) (hv : v.IsUnplaced) :
    Classified { s.adding v with resources := s.resources ++ [r] } where
  fits := forall_var?_adding hv.fits hs.fits
  interface u hu := (hs.interface u hu).of_retains (s.retains_adding v)
  builtins entry hentry := (hs.builtins entry hentry).of_retains (s.retains_adding v)
  resources := List.forall_mem_append.2
    ⟨fun r hr => (hs.resources r hr).of_retains (s.retains_adding v),
      List.forall_mem_singleton.2 ⟨v, hvar ▸ s.var?_adding_self v, hstorage⟩⟩
  nodup := by
    rw [List.map_append, List.nodup_append]
    refine ⟨hs.nodup, List.nodup_singleton _, fun id hid id' hid' => ?_⟩
    -- all variables that are listed exist, so the number of the new one is not among theirs
    obtain ⟨r', hr', rfl⟩ := List.mem_map.1 hid
    obtain rfl : id' = s.size := (List.mem_singleton.1 hid').trans hvar
    exact Nat.ne_of_lt (hs.resources r' hr').lt_size
  listed := by
    rw [List.map_append]
    exact forall_var?_adding
      (fun _ => List.mem_append_right _ (hvar ▸ List.mem_singleton_self r.var))
      fun id w hw hdescribed => List.mem_append_left _ (hs.listed id w hw hdescribed)
  pushed := forall_var?_adding (fun h => by rw [h] at hstorage; cases hstorage) hs.pushed

theorem Classified.adding_pushConstant (hs : s.Classified) {position : Source.Position}
    (hnone : s.pushConstant = none) (hstorage : v.storage = .pushConstant) (hv : v.IsUnplaced) :
    Classified { s.adding v with pushConstant := some (s.size, position) } where
  fits := forall_var?_adding hv.fits hs.fits
  interface u hu := (hs.interface u hu).of_retains (s.retains_adding v)
  builtins entry hentry := (hs.builtins entry hentry).of_retains (s.retains_adding v)
  resources r hr := (hs.resources r hr).of_retains (s.retains_adding v)
  nodup := hs.nodup
  listed := forall_var?_adding (fun h => by rw [hstorage] at h; cases h) hs.listed
  pushed := forall_var?_adding (fun _ => ⟨position, rfl⟩) fun id w hw h => by
    obtain ⟨position', hsome⟩ := hs.pushed id w hw h
    cases hnone.symm.trans hsome

end Adding

/-! ## A decoration more -/

/-- No decoration that is added later is a builtin. -/
theorem retains_decorated (s : Session) (id : VariableId) {d : VariableDecoration}
    (hd : ∀ b, d ≠ .builtin b) : s.Retains (s.decorated id [d]) := by
  intro j v hv
  refine ⟨_, (s.var?_decorated id j [d]).trans (congrArg _ hv), rfl, fun b => ?_⟩
  refine List.mem_append.trans (or_iff_left ?_)
  split
  · exact fun hmem => hd b (List.mem_singleton.1 hmem).symm
  · exact List.not_mem_nil

/-- A decoration may be added to a variable that it fits. -/
theorem Classified.decorated (hs : s.Classified) {d : VariableDecoration}
    (hd : ∀ b, d ≠ .builtin b) (hfits : ∀ v, s.var? id = some v → (v.gaining [d]).Fits) :
    (s.decorated id [d]).Classified := by
  have hretains := s.retains_decorated id hd
  have hold : ∀ j v', (s.decorated id [d]).var? j = some v' →
      ∃ v, s.var? j = some v ∧ v'.storage = v.storage := by
    intro j v' hv'
    rw [var?_decorated] at hv'
    obtain ⟨v, hv, rfl⟩ := Option.map_eq_some_iff.1 hv'
    exact ⟨v, hv, rfl⟩
  refine ⟨fun j v' hv' => ?_, fun u hu => (hs.interface u hu).of_retains hretains,
    fun entry hentry => (hs.builtins entry hentry).of_retains hretains,
    fun r hr => (hs.resources r hr).of_retains hretains, hs.nodup, fun j v' hv' hdescribed => ?_,
    fun j v' hv' hpushed => ?_⟩
  · rw [var?_decorated] at hv'
    obtain ⟨v, hv, rfl⟩ := Option.map_eq_some_iff.1 hv'
    split
    · rename_i hid
      exact hfits v (hid ▸ hv)
    · rw [v.gaining_nil]
      exact hs.fits j v hv
  · obtain ⟨v, hv, hstorage⟩ := hold j v' hv'
    exact hs.listed j v hv (hstorage ▸ hdescribed)
  · obtain ⟨v, hv, hstorage⟩ := hold j v' hv'
    exact hs.pushed j v hv (hstorage.symm.trans hpushed)

/-! ## Steps -/

/-- Sessions with the same variables and lists are classified alike. -/
theorem Classified.congr (hs : s.Classified)
    (hvariables : s'.emitter.target.variables = s.emitter.target.variables)
    (hinterface : ∀ u ∈ s'.interface, s.Carries u.var u.direction u.builtin)
    (hbuiltins : s'.builtins = s.builtins) (hresources : s'.resources = s.resources)
    (hpushConstant : s'.pushConstant = s.pushConstant) : s'.Classified := by
  have hretains : s.Retains s' := retains_of_variables hvariables
  have hvar : ∀ id, s'.var? id = s.var? id := fun id => by rw [var?, hvariables, var?]
  exact {
    fits := fun id v hv => hs.fits id v (hvar id ▸ hv)
    interface := fun u hu => (hinterface u hu).of_retains hretains
    builtins := fun entry hentry => (hs.builtins entry (hbuiltins ▸ hentry)).of_retains hretains
    resources := fun r hr => (hs.resources r (hresources ▸ hr)).of_retains hretains
    nodup := hresources ▸ hs.nodup
    listed := fun id v hv => hresources ▸ hs.listed id v (hvar id ▸ hv)
    pushed := fun id v hv => hpushConstant ▸ hs.pushed id v (hvar id ▸ hv) }

/-- **Every step keeps the lists right.** -/
theorem Step.classified (h : s.Step standard packing s') (hs : s.Classified) : s'.Classified := by
  cases h with
  | emission h => exact hs.congr h.target.sameVariables hs.interface rfl rfl rfl
  | note emitter interface builtins distances resources pushConstant =>
    exact hs.congr (emitter ▸ rfl) (interface ▸ hs.interface) builtins resources pushConstant
  | recorded | repacked => exact hs.congr rfl hs.interface rfl rfl rfl
  | internal hstorage hv => exact hs.adding hv.fits (StorageClass.unlisted_of_isInternal hstorage)
  | @packed v kind direction hpacking hstorage hv =>
    have hinterface : v.storage.isInterface = true := hstorage ▸ direction.isInterface_storage
    exact hs.adding (hv.fits hinterface) (StorageClass.unlisted_of_isInterface hinterface)
  | @builtin v b point hnew hkind hstorage hv =>
    have hinterface : v.storage.isInterface = true := hstorage ▸ point.direction.isInterface_storage
    have hadded := hs.adding (hv.fits hinterface) (StorageClass.unlisted_of_isInterface hinterface)
    have hnew : (s.adding v).Carries s.size point.direction (some b) :=
      ⟨v, s.var?_adding_self v, hstorage, fun _ => hv.mem_iff⟩
    exact { hadded with builtins := List.forall_mem_cons.2 ⟨hnew, hadded.builtins⟩ }
  | @listed u b point hbuiltin hknown =>
    have hnew : s.Carries u.var u.direction u.builtin := hbuiltin ▸ hs.builtins _ hknown
    exact hs.congr rfl (List.forall_mem_append.2
      ⟨hs.interface, List.forall_mem_singleton.2 hnew⟩) rfl rfl rfl
  | @located v u hvar hbuiltin hstorage hv =>
    have hinterface : v.storage.isInterface = true :=
      hstorage ▸ u.direction.isInterface_storage
    have hadded := hs.adding hv.fits (StorageClass.unlisted_of_isInterface hinterface)
    -- it will be decorated with its location later, and is decorated with no builtin now
    have hnew : (s.adding v).Carries u.var u.direction u.builtin :=
      ⟨v, hvar ▸ s.var?_adding_self v, hstorage, fun b =>
        ⟨fun hmem => absurd hmem (hv.not_mem rfl), fun h => by cases hbuiltin.symm.trans h⟩⟩
    exact hadded.congr rfl (List.forall_mem_append.2
      ⟨hadded.interface, List.forall_mem_singleton.2 hnew⟩) rfl rfl rfl
  | resource hvar hstorage hv => exact hs.adding_resource hvar hstorage hv
  | pushConstant hnone hstorage hv => exact hs.adding_pushConstant hnone hstorage hv
  | place hu hlocation =>
    refine hs.congr rfl (fun v hv => ?_) rfl rfl rfl
    obtain ⟨j, hj⟩ := List.mem_iff_getElem?.1 hv
    rw [List.getElem?_modify] at hj
    obtain ⟨w, hw, rfl⟩ := Option.map_eq_some_iff.1 hj
    have hold := hs.interface w (List.mem_of_getElem? hw)
    -- an entry that gets its location keeps its variable, direction and builtin
    split <;> exact hold
  | locate hu hbuiltin location =>
    -- the list says that no builtin is on the variable, so the location is its only place
    obtain ⟨v, hv, hstorage, hnone⟩ := hs.interface _ hu
    refine hs.decorated (fun _ => nofun) fun w hw => ?_
    cases hv.symm.trans hw
    refine (hs.fits _ _ hv).locate (hstorage ▸ Direction.isInterface_storage _) (fun b hmem => ?_) _
    cases hbuiltin.symm.trans ((hnone b).1 hmem)
  | bind hr hd =>
    obtain ⟨v, hv, hstorage⟩ := hs.resources _ hr
    refine hs.decorated (fun b h => by rw [h] at hd; cases hd) fun w hw => ?_
    cases hv.symm.trans hw
    exact (hs.fits _ _ hv).bind hstorage hd

theorem classified_start (stage : Stage) (options : Options) :
    (Session.start stage options).Classified where
  fits _ _ := nofun
  interface := List.forall_mem_nil _
  builtins := List.forall_mem_nil _
  resources := List.forall_mem_nil _
  nodup := List.nodup_nil
  listed _ _ := nofun
  pushed _ _ := nofun

/-- What is to hold of the decorations of all variables and of the lists of a session. -/
structure Disciplined (s : Session) : Prop where
  fits : ∀ id v, s.var? id = some v → v.Fits
  interface : ∀ u ∈ s.interface, s.Carries u.var u.direction u.builtin
  resources : ∀ id v, s.var? id = some v →
    (s.resources.map (·.var)).count id = if v.storage.isDescribed then 1 else 0
  pushConstant : ∀ id id' v v', s.var? id = some v → s.var? id' = some v' →
    v.storage = .pushConstant → v'.storage = .pushConstant → id = id'

theorem Classified.isDescribed_iff (hs : s.Classified) {v : Spirv.Variable}
    (hv : s.var? id = some v) :
    v.storage.isDescribed = true ↔ ∃ r ∈ s.resources, r.var = id := by
  refine ⟨fun h => List.mem_map.1 (hs.listed id v hv h), ?_⟩
  rintro ⟨r, hr, rfl⟩
  obtain ⟨w, hw, hstorage⟩ := hs.resources r hr
  cases hv.symm.trans hw
  exact hstorage

theorem Classified.disciplined (hs : s.Classified) : s.Disciplined where
  fits := hs.fits
  interface := hs.interface
  resources id v hv := by
    split
    · rename_i hdescribed
      exact List.count_eq_one_of_mem hs.nodup (hs.listed id v hv hdescribed)
    · rename_i hother
      exact List.count_eq_zero.2 fun hmem =>
        hother ((hs.isDescribed_iff hv).2 (List.mem_map.1 hmem))
  pushConstant id id' v v' hv hv' hpushed hpushed' := by
    obtain ⟨position, hsome⟩ := hs.pushed id v hv hpushed
    obtain ⟨position', hsome'⟩ := hs.pushed id' v' hv' hpushed'
    cases hsome.symm.trans hsome'
    rfl

theorem classified_run (stage : Stage) (options : Options) (ops : List Operation) :
    ((start stage options).run ops).Classified :=
  run_of_step (P := Classified) (fun _ _ h hs => h.classified hs) ops
    (fun _ _ (h : False) => h.elim) (classified_start stage options)

end Session

/-! ## Bindings -/

namespace Spirv.Variable

variable {v : Variable}

theorem resourceBinding?_gaining (v : Variable) (slot : ResourceBinding) :
    (v.gaining slot.decorations).resourceBinding? = some slot := by
  simp [resourceBinding?, descriptorSet?, binding?, gaining, ResourceBinding.decorations]

theorem Fits.resourceBinding?_eq_none (hv : v.Fits) (hstorage : ¬v.storage.isDescribed = true) :
    v.resourceBinding? = none := by
  have hset : v.descriptorSet? = none := by
    rw [descriptorSet?, List.findSome?_eq_none_iff]
    intro d hd
    split
    · exact absurd (hv.descriptor _ (List.mem_reverse.1 hd) rfl) hstorage
    · rfl
  rw [resourceBinding?, hset]
  rfl

end Spirv.Variable

/-- Once bindings were given out, the variables bound to descriptors have one, and no others. -/
theorem Session.Binds.isSome_resourceBinding?_iff {s s' : Session}
    {slots : List Spirv.ResourceBinding} (h : s.Binds s' slots) (hs : s.Classified)
    {id : VariableId} {v : Spirv.Variable} (hv : s'.var? id = some v) :
    v.resourceBinding?.isSome = true ↔ v.storage.isDescribed = true := by
  by_cases hlisted : ∃ r ∈ s.resources, r.var = id
  · obtain ⟨r, hr, rfl⟩ := hlisted
    obtain ⟨i, hi, hget⟩ := List.mem_iff_getElem.1 hr
    have hslot : i < slots.length := h.places.length.symm ▸ hi
    obtain ⟨w, hw, hw'⟩ := h.decorated i r slots[i]
      (List.getElem?_eq_some_iff.2 ⟨hi, hget⟩) (List.getElem?_eq_getElem hslot)
    cases hv.symm.trans hw'
    rw [w.resourceBinding?_gaining]
    exact iff_of_true rfl ((hs.isDescribed_iff hw).2 ⟨r, hr, rfl⟩)
  · rw [h.others id fun r hr hvar => hlisted ⟨r, hr, hvar⟩] at hv
    have hother : ¬v.storage.isDescribed = true := fun hstorage =>
      hlisted ((hs.isDescribed_iff hv).1 hstorage)
    rw [(hs.fits id v hv).resourceBinding?_eq_none hother]
    exact iff_of_false nofun hother

/-- **The discipline of decorations.**  After any operations, only variables of the interface have a
location or a builtin, and none has both; every variable that is listed on the interface has the
storage class of its direction and is decorated with the builtin that it is listed for, or with
none; only variables bound to descriptors have a set or a binding, and each of these is one
resource; and there is one push constant at most.  Giving out bindings then answers, and afterwards
exactly the variables bound to descriptors have a binding. -/
theorem disciplined_run (stage : Stage) (options : Options) (ops : List Operation) :
    ((Session.start stage options).run ops).Disciplined ∧
    ∃ b s', Lower.decorateBindings.runOn ((Session.start stage options).run ops) = (.ok b, s') ∧
      ∀ id v, s'.var? id = some v →
        (v.resourceBinding?.isSome = true ↔ v.storage.isDescribed = true) := by
  have hs := Session.classified_run stage options ops
  have hreachable : Session.Reachable stage options ((Session.start stage options).run ops) :=
    .run .start ops
  obtain ⟨b, s', slots, hrun, hbinds, -⟩ := Lower.binds_decorateBindings hreachable
  exact ⟨hs.disciplined, b, s', hrun, fun _ _ hv => hbinds.isSome_resourceBinding?_iff hs hv⟩

end ShaderLowering
