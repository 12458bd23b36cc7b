import ShaderLowering.Proofs.Emission.Reports
import ShaderLowering.Proofs.Emission.Simulation

/-!
# Elements of images

The element of an image that is only read is a scalar, a vector, a matrix, or a structure of scalars
and vectors of one scalar type, with no more than four components of 32 bits.  Any other element is
an error, and four single-precision numbers take its place.

The fields of a structure are gone through one by one and compared with the first, and the sum is
counted like the first.  That is a condition on the fields as a whole (`Texel.Joins`), which is the
rule (`Texel.Fits`) where storage is shared by equal scalars only; literals share it with scalars
that do not share it with each other.  Base structures are not looked at, and nothing is reported
for a structure without fields.  So the errors are those of the rule for the remaining elements
(`Emit.type_image`).
-/

namespace ShaderLowering

open Source (Ty OptionalTy Fields Field Record Scalar Resource)

section

variable {α β : Type} {f : α → Option β} {l' : List β}

/-- Where every element has an image, these are the images. -/
theorem map_of_mapM : {l : List α} → {l' : List β} → l.mapM f = some l' → l.map f = l'.map some
  | [], _, h => by
    cases h
    rfl
  | a :: rest, l', h => by
    rw [List.mapM_cons] at h
    obtain ⟨b, hb, h⟩ := Option.bind_eq_some_iff.1 h
    obtain ⟨others, hothers, h⟩ := Option.bind_eq_some_iff.1 h
    cases h
    rw [List.map_cons, List.map_cons, hb, map_of_mapM hothers]

theorem filterMap_of_mapM {l : List α} (h : l.mapM f = some l') : l.filterMap f = l' := by
  have himages := congrArg (List.filterMap id) (map_of_mapM h)
  rw [List.filterMap_map, List.filterMap_map] at himages
  exact himages.trans List.filterMap_some

theorem exists_of_mem_mapM {l : List α} (h : l.mapM f = some l') {b : β} (hb : b ∈ l') :
    ∃ a ∈ l, f a = some b := by
  have hmem := List.mem_map_of_mem (f := some) hb
  rw [← map_of_mapM h] at hmem
  exact List.mem_map.1 hmem

end

namespace Source

mutual

/-- The types of the members of a structure, those of its base structure first. -/
def Ty.memberTypes : Ty → List Ty
  | .alias _ target | .oriented _ target => target.memberTypes
  | .struct _ base fields => base.memberTypes ++ fields.toList.map (·.ty)
  | ty => [ty]

/-- The types of the members of a base structure. -/
def OptionalTy.memberTypes : OptionalTy → List Ty
  | .absent => []
  | .present ty => ty.memberTypes

end

/-- The types of the fields of a structure, without its base structure. -/
def Record.ownTypes (r : Record) : List Ty := r.fields.toList.map (·.ty)

/-- The types of the members of a structure, those of its base structure first. -/
def Record.memberTypes (r : Record) : List Ty := r.base.memberTypes ++ r.ownTypes

/-- What an element of an image consists of, if that is scalars and vectors, or a matrix.  It is
given what the members of a structure are. -/
def Ty.texels? (members : Record → List Ty) (ty : Ty) : Option (List Texel) :=
  match ty.shape with
  | .scalar s => some [⟨s, 1⟩]
  | .vector s count => some [⟨s, count⟩]
  | .matrix s rows cols => some [⟨s, rows * cols⟩]
  | .struct name base fields => (members ⟨name, base, fields⟩).mapM Texel.ofVector?
  | _ => none

end Source

namespace Texel

variable {options : Options}

/-- The number of components of several texels. -/
def total : List Texel → Nat
  | [] => 0
  | t :: ts => t.lanes + total ts

/-- How many 32-bit numbers a component takes. -/
def weight (options : Options) (t : Texel) : Nat := if t.scalar.bits options = 64 then 2 else 1

/-- The number of components of an element, as far as there are any. -/
def lanesOf (ty : Ty) : Nat :=
  match ty.shape with
  | .scalar _ => 1
  | .vector _ count => count
  | .matrix _ rows cols => rows * cols
  | .struct _ _ fields => total ((fields.toList.map (·.ty)).filterMap ofVector?)
  | _ => 0

/-- The texel that several make up, if all of them share storage with the first. -/
def join? : List Texel → Option (Option Texel)
  | [] => some none
  | t :: rest =>
    if rest.all (t.scalar.sharesStorage ·.scalar) then some (some ⟨t.scalar, total (t :: rest)⟩)
    else none

/-- Texels that share storage can be joined one by one. -/
theorem join?_merge {t t' : Texel} (h : t.scalar.sharesStorage t'.scalar = true)
    (ts : List Texel) : join? (⟨t.scalar, t.lanes + t'.lanes⟩ :: ts) = join? (t :: t' :: ts) := by
  rw [join?, join?, List.all_cons, h, Bool.true_and, total, total, total, Nat.add_assoc]

theorem join?_of_not_sharesStorage {t t' : Texel}
    (h : t.scalar.sharesStorage t'.scalar = false) (ts : List Texel) :
    join? (t :: t' :: ts) = none := by
  rw [join?, List.all_cons, h]
  rfl

/-- Fields are joined to what came before if all of them share storage with it. -/
theorem joinFields_some : (fields : List Field) → (sum : Texel) →
    sum.lanes + total ((fields.map (·.ty)).filterMap ofVector?) < Word.bound →
    ∃ r, joinFields (some sum) fields = .ok r ∧ r.toOption =
      ((fields.map (·.ty)).mapM ofVector?).bind fun ts => join? (sum :: ts)
  | [], sum, _ => ⟨_, rfl, rfl⟩
  | f :: rest, sum, hsmall => by
    rw [List.map_cons, List.mapM_cons]
    rw [List.map_cons, List.filterMap_cons] at hsmall
    rw [joinFields.eq_def]
    dsimp only
    cases hf : ofVector? f.ty with
    | none => exact ⟨_, rfl, rfl⟩
    | some t =>
      rw [hf] at hsmall
      dsimp only at hsmall ⊢
      rw [total] at hsmall
      simp only [Option.pure_def, Option.bind_eq_bind, Option.bind_some, Option.bind_assoc]
      cases hshares : sum.scalar.sharesStorage t.scalar with
      | true =>
        have hword : Word.add sum.lanes t.lanes = .ok (sum.lanes + t.lanes) :=
          Word.add_eq_ok_iff.2 ⟨rfl, by omega⟩
        -- the two become one element, which joins with the rest as both do
        obtain ⟨r, hr, hjoin⟩ := joinFields_some rest ⟨sum.scalar, sum.lanes + t.lanes⟩
          (by rw [Nat.add_assoc]; exact hsmall)
        refine ⟨r, by rw [if_pos rfl, hword]; exact hr, ?_⟩
        rw [hjoin]
        congr 1
        funext ts
        exact join?_merge hshares ts
      | false =>
        -- from here on there is nothing to join, whatever follows
        refine ⟨_, if_neg Bool.false_ne_true, ?_⟩
        simp only [join?_of_not_sharesStorage hshares]
        exact (Option.bind_fun_none _).symm

theorem joinFields_none (fields : List Field)
    (hsmall : total ((fields.map (·.ty)).filterMap ofVector?) < Word.bound) :
    ∃ r, joinFields none fields = .ok r ∧
      r.toOption = ((fields.map (·.ty)).mapM ofVector?).bind join? := by
  cases fields with
  | nil => exact ⟨_, rfl, rfl⟩
  | cons f rest =>
    rw [List.map_cons, List.mapM_cons]
    rw [List.map_cons, List.filterMap_cons] at hsmall
    rw [joinFields.eq_def]
    dsimp only
    cases hf : ofVector? f.ty with
    | none => exact ⟨_, rfl, rfl⟩
    | some t =>
      rw [hf] at hsmall
      dsimp only at hsmall ⊢
      simp only [Option.pure_def, Option.bind_eq_bind, Option.bind_some, Option.bind_assoc]
      exact joinFields_some rest t hsmall

/-- A small element is described by what it consists of. -/
theorem describedTexel_of_lanesOf {elem : Ty} (hsmall : lanesOf elem < Word.bound) :
    Written.describedTexel elem
        = .ok ((elem.texels? Record.ownTypes).bind join?).join ∧
      isUndescribed elem = ((elem.texels? Record.ownTypes).bind join?).isNone := by
  rw [Written.describedTexel, isUndescribed, Ty.texels?]
  rw [lanesOf] at hsmall
  cases hshape : elem.shape with
  | scalar s => exact ⟨rfl, rfl⟩
  | vector s count => exact ⟨rfl, rfl⟩
  | matrix s rows cols =>
    rw [hshape] at hsmall
    have hword : Word.mul rows cols = .ok (rows * cols) := Word.mul_eq_ok_iff.2 ⟨rfl, hsmall⟩
    refine ⟨?_, rfl⟩
    dsimp only
    rw [hword]
    rfl
  | struct name base fields =>
    rw [hshape] at hsmall
    obtain ⟨r, hr, hjoin⟩ := joinFields_none fields.toList hsmall
    dsimp only
    rw [hr, Record.ownTypes, ← hjoin]
    cases r with
    | ok t => exact ⟨rfl, rfl⟩
    | error f => exact ⟨rfl, rfl⟩
  | void | array | resource | «alias» | oriented => exact ⟨rfl, rfl⟩

/-- Where an element consists of texels, these have all its components. -/
theorem lanesOf_eq_total {elem : Ty} {ts : List Texel}
    (h : elem.texels? Record.ownTypes = some ts) : lanesOf elem = total ts := by
  rw [Ty.texels?] at h
  rw [lanesOf]
  split at h
  · cases h
    rfl
  · cases h
    rfl
  · cases h
    rfl
  · exact congrArg total (filterMap_of_mapM h)
  · cases h

/-- What several texels make up where they are joined. -/
def joined : List Texel → Texel
  | [] => .fallback
  | t :: rest => ⟨t.scalar, total (t :: rest)⟩

/-- Whether several texels are taken for one: all of them share storage with the first, and if
counted like the first they have no more than four components. -/
def Joins (options : Options) : List Texel → Prop
  | [] => True
  | t :: rest => (∀ t' ∈ rest, t.scalar.sharesStorage t'.scalar = true) ∧
      total (t :: rest) * t.weight options ≤ 4

/-- Whether an element is taken as it is. -/
def IsAccepted (options : Options) (elem : Ty) : Prop :=
  ∃ ts, elem.texels? Record.ownTypes = some ts ∧ Joins options ts

/-- How many 32-bit numbers the components of an element take, counted like the first one. -/
def width (options : Options) (elem : Ty) : Nat :=
  lanesOf elem * ((elem.texels? Record.ownTypes).elim 1 fun ts => (joined ts).weight options)

theorem weight_pos (options : Options) (t : Texel) : 0 < t.weight options := by
  rw [weight]
  split <;> decide

theorem lanesOf_le_width (options : Options) (elem : Ty) : lanesOf elem ≤ width options elem := by
  refine Nat.le_mul_of_pos_right _ ?_
  cases elem.texels? Record.ownTypes with
  | none => exact Nat.one_pos
  | some ts => exact weight_pos options (joined ts)

/-- Nothing is reported for an empty structure, but it has no texel of its own. -/
theorem texel_of_empty {elem : Ty} (hd : Written.describedTexel elem = .ok none)
    (hu : isUndescribed elem = false) :
    Written.texel options (some elem) = .ok .fallback ∧
      isReplaced options (some elem) = false := by
  refine ⟨by rw [Written.texel, hd]; rfl, ?_⟩
  rw [isReplaced, Option.any_some, hu, isTooWide, hd]
  rfl

theorem texel_of_undescribed {elem : Ty} (hd : Written.describedTexel elem = .ok none)
    (hu : isUndescribed elem = true) :
    Written.texel options (some elem) = .ok .fallback ∧
      isReplaced options (some elem) = true := by
  refine ⟨by rw [Written.texel, hd]; rfl, ?_⟩
  rw [isReplaced, Option.any_some, hu, Bool.true_or]

/-- The width of a described element decides. -/
theorem texel_of_described {elem : Ty} {t : Texel}
    (hd : Written.describedTexel elem = .ok (some t)) (hu : isUndescribed elem = false)
    (hword : t.lanes * t.weight options < Word.bound) :
    Written.texel options (some elem)
        = .ok (if 4 < t.lanes * t.weight options then .fallback else t) ∧
      isReplaced options (some elem) = decide (4 < t.lanes * t.weight options) := by
  have hcomponents : t.components options = .ok (t.lanes * t.weight options) :=
    Word.mul_eq_ok_iff.2 ⟨rfl, hword⟩
  constructor
  · rw [Written.texel, hd]
    show (do if 4 < (← Written.ofChecked (t.components options)) then _ else _ : Written Texel) = _
    rw [hcomponents]
    show (if 4 < t.lanes * t.weight options then _ else _ : Written Texel) = _
    split <;> rfl
  · rw [isReplaced, Option.any_some, hu, isTooWide, hd]
    dsimp only
    rw [hcomponents]
    rfl

/-- An element that can be counted is taken as it is, or replaced. -/
theorem texel_of_width {elem : Ty} (hsmall : width options elem < Word.bound) :
    (∃ ts, elem.texels? Record.ownTypes = some ts ∧ Joins options ts ∧
      Written.texel options (some elem) = .ok (joined ts) ∧
      isReplaced options (some elem) = false) ∨
    (¬IsAccepted options elem ∧ Written.texel options (some elem) = .ok .fallback ∧
      isReplaced options (some elem) = true) := by
  obtain ⟨hd, hu⟩ :=
    describedTexel_of_lanesOf (Nat.lt_of_le_of_lt (lanesOf_le_width options elem) hsmall)
  rw [IsAccepted]
  -- in the order of the checks: described at all, of one scalar, within four components
  cases hts : elem.texels? Record.ownTypes with
  | none =>
    rw [hts] at hd hu
    exact .inr ⟨nofun, texel_of_undescribed hd hu⟩
  | some ts =>
    rw [hts] at hd hu
    cases ts with
    | nil => exact .inl ⟨[], rfl, trivial, texel_of_empty hd hu⟩
    | cons t rest =>
      cases hshares : rest.all (t.scalar.sharesStorage ·.scalar) with
      | false =>
        rw [Option.bind_some, join?, hshares] at hd hu
        refine .inr ⟨?_, texel_of_undescribed hd hu⟩
        rintro ⟨_, ⟨⟩, hall, -⟩
        rw [List.all_eq_true.2 hall] at hshares
        cases hshares
      | true =>
        rw [Option.bind_some, join?, hshares] at hd hu
        have hword : total (t :: rest) * weight options t < Word.bound := by
          rw [width, hts, lanesOf_eq_total hts] at hsmall
          exact hsmall
        obtain ⟨htexel, hreplaced⟩ := @texel_of_described options elem _ hd hu hword
        by_cases hwide : 4 < total (t :: rest) * weight options t
        · refine .inr ⟨?_, htexel.trans (congrArg _ (if_pos hwide)),
            hreplaced.trans (decide_eq_true hwide)⟩
          rintro ⟨_, ⟨⟩, -, hle⟩
          exact Nat.not_lt_of_le hle hwide
        · exact .inl ⟨_, rfl, ⟨List.all_eq_true.1 hshares, Nat.le_of_not_lt hwide⟩,
            htexel.trans (congrArg _ (if_neg hwide)), hreplaced.trans (decide_eq_false hwide)⟩

/-! ## What elements are allowed -/

/-- How many 32-bit numbers the components of several texels take. -/
def load (options : Options) : List Texel → Nat
  | [] => 0
  | t :: ts => t.lanes * t.weight options + load options ts

/-- What is asked of the texels that an element consists of: there are some, any two share storage,
and they have no more than four components of 32 bits. -/
def Fits (options : Options) (ts : List Texel) : Prop :=
  ts ≠ [] ∧ (ts.Pairwise fun t t' => t.scalar.sharesStorage t'.scalar = true) ∧
    load options ts ≤ 4

instance (ts : List Texel) : Decidable (Fits options ts) := inferInstanceAs (Decidable (_ ∧ _ ∧ _))

/-- What is to hold of the element of an image: there is none, or the texels that it consists of,
those in base structures included, are as they should be. -/
def IsAllowed (options : Options) (elem : Option Ty) : Prop :=
  ∀ ty ∈ elem, ∃ ts, ty.texels? Record.memberTypes = some ts ∧ Fits options ts

theorem isAllowed_some_iff {elem : Ty} : IsAllowed options (some elem) ↔
    ∃ ts ∈ elem.texels? Record.memberTypes, Fits options ts :=
  ⟨fun h => h elem rfl, fun h _ helem => Option.some.inj helem ▸ h⟩

instance (elem : Ty) : Decidable (IsAllowed options (some elem)) :=
  decidable_of_iff ((elem.texels? Record.memberTypes).any fun ts => decide (Fits options ts)) <| by
    simp [isAllowed_some_iff, Option.any_eq_true]

/-- Settled scalars share storage only if they are equal. -/
theorem eq_of_sharesStorage {a b : Scalar} (ha : a.isLiteral = false) (hb : b.isLiteral = false)
    (h : a.sharesStorage b = true) : a = b := by
  unfold Scalar.sharesStorage at h
  rw [Bool.or_eq_true, decide_eq_true_iff] at h
  refine h.resolve_right fun hliteral => ?_
  split at hliteral
  · cases ha
  · cases hb
  · cases ha
  · cases hb
  · cases hliteral

/-- Texels of one scalar are counted like any one of them. -/
theorem load_eq_total_mul {s : Scalar} : {ts : List Texel} → (∀ t ∈ ts, t.scalar = s) →
    load options ts = total ts * (if s.bits options = 64 then 2 else 1)
  | [], _ => (Nat.zero_mul _).symm
  | t :: rest, h => by
    obtain ⟨rfl, hrest⟩ := List.forall_mem_cons.1 h
    rw [load, load_eq_total_mul hrest, total, Nat.add_mul]
    rfl

/-- For texels without literals it is enough to look at the first one. -/
theorem joins_iff_fits {ts : List Texel} (hts : ts ≠ [])
    (hliteral : ∀ t ∈ ts, t.scalar.isLiteral = false) : Joins options ts ↔ Fits options ts := by
  obtain ⟨t, rest, rfl⟩ := List.exists_cons_of_ne_nil hts
  obtain ⟨hfirst, hrest⟩ := List.forall_mem_cons.1 hliteral
  have hload : (∀ t' ∈ rest, t.scalar.sharesStorage t'.scalar = true) →
      load options (t :: rest) = total (t :: rest) * t.weight options := fun hall =>
    load_eq_total_mul (List.forall_mem_cons.2
      ⟨rfl, fun t' ht' => (eq_of_sharesStorage hfirst (hrest t' ht') (hall t' ht')).symm⟩)
  constructor
  · rintro ⟨hall, hle⟩
    refine ⟨hts, List.pairwise_cons.2 ⟨hall, ?_⟩, Nat.le_trans (Nat.le_of_eq (hload hall)) hle⟩
    -- all further texels have the scalar of the first one
    refine List.pairwise_of_forall_mem_list fun a ha b hb => ?_
    rw [← eq_of_sharesStorage hfirst (hrest a ha) (hall a ha)]
    exact hall b hb
  · rintro ⟨-, hpairwise, hle⟩
    have hall := (List.pairwise_cons.1 hpairwise).1
    exact ⟨hall, Nat.le_trans (Nat.le_of_eq (hload hall).symm) hle⟩

theorem joins_singleton_iff (t : Texel) : Joins options [t] ↔ Fits options [t] := by
  simp [Joins, Fits, total, load]

/-- Whether an element is no structure, or a structure with fields, without a base structure and
without literals. -/
def isOrdinary (elem : Ty) : Bool :=
  elem.record?.all fun r => decide (r.base = .absent) && !r.ownTypes.isEmpty &&
    r.ownTypes.all fun ty => !(ty.elementScalar?.any (·.isLiteral))

theorem elementScalar?_of_ofVector? {ty : Ty} {t : Texel} (h : ofVector? ty = some t) :
    ty.elementScalar? = some t.scalar := by
  rw [ofVector?] at h
  rw [Ty.elementScalar?]
  split at h
  · rename_i hshape
    cases h
    rw [hshape]
  · rename_i hshape
    cases h
    rw [hshape]
  · cases h

/-- Without a base structure a structure has no members but its own. -/
theorem texels?_of_isOrdinary {elem : Ty} (h : isOrdinary elem = true) :
    elem.texels? Record.memberTypes = elem.texels? Record.ownTypes := by
  rw [isOrdinary, Ty.record?] at h
  rw [Ty.texels?, Ty.texels?]
  cases hshape : elem.shape with
  | struct name base fields =>
    rw [hshape] at h
    obtain ⟨hparts, -⟩ := Bool.and_eq_true_iff.1 h
    obtain ⟨hbase, -⟩ := Bool.and_eq_true_iff.1 hparts
    obtain rfl : base = .absent := of_decide_eq_true hbase
    rfl
  | void | scalar | vector | matrix | array | resource | «alias» | oriented => rfl

/-- An ordinary element consists of one texel, or of some without literals. -/
theorem singleton_or_isLiteral_eq_false {elem : Ty} (h : isOrdinary elem = true) {ts : List Texel}
    (hts : elem.texels? Record.ownTypes = some ts) :
    (∃ t, ts = [t]) ∨ ts ≠ [] ∧ ∀ t ∈ ts, t.scalar.isLiteral = false := by
  rw [isOrdinary, Ty.record?] at h
  rw [Ty.texels?] at hts
  cases hshape : elem.shape with
  | scalar | vector | matrix =>
    rw [hshape] at hts
    exact .inl ⟨_, (Option.some.inj hts).symm⟩
  | void | array | resource | «alias» | oriented =>
    rw [hshape] at hts
    cases hts
  | struct name base fields =>
    rw [hshape] at h hts
    obtain ⟨hparts, hliteral⟩ := Bool.and_eq_true_iff.1 h
    obtain ⟨-, hfields⟩ := Bool.and_eq_true_iff.1 hparts
    refine .inr ⟨?_, fun t ht => ?_⟩
    · rintro rfl
      have hnone := List.map_eq_nil_iff.1 (map_of_mapM hts)
      rw [hnone] at hfields
      cases hfields
    · obtain ⟨ty, hty, htexel⟩ := exists_of_mem_mapM hts ht
      have hsettled := List.all_eq_true.1 hliteral ty hty
      rw [elementScalar?_of_ofVector? htexel] at hsettled
      exact (Bool.not_eq_true' _).mp hsettled

/-- For ordinary elements it is enough to look at the fields of a structure and to compare them with
the first one. -/
theorem isAccepted_iff {elem : Ty} (h : isOrdinary elem = true) :
    IsAccepted options elem ↔ IsAllowed options (some elem) := by
  rw [isAllowed_some_iff, IsAccepted, texels?_of_isOrdinary h]
  refine exists_congr fun ts => and_congr_right fun hts => ?_
  rcases singleton_or_isLiteral_eq_false h hts with ⟨t, rfl⟩ | ⟨hsome, hliteral⟩
  · exact joins_singleton_iff t
  · exact joins_iff_fits hsome hliteral

/-- The texel of an image of which the element is not replaced. -/
def chosen (elem : Option Ty) : Texel :=
  (elem.bind (·.texels? Record.ownTypes)).elim .fallback joined

/-- Whether an element is replaced, and which texel there is then. -/
theorem texel_eq {elem : Option Ty} (hsmall : ∀ ty ∈ elem, width options ty < Word.bound) :
    (isReplaced options elem = false ↔ ∀ ty ∈ elem, IsAccepted options ty) ∧
      Written.texel options elem
        = .ok (if isReplaced options elem then .fallback else chosen elem) := by
  cases elem with
  | none => exact ⟨iff_of_true rfl nofun, rfl⟩
  | some ty =>
    have haccepted : (∀ ty' ∈ some ty, IsAccepted options ty') ↔ IsAccepted options ty :=
      ⟨fun h => h ty rfl, fun h _ hty => Option.some.inj hty ▸ h⟩
    rw [haccepted]
    rcases texel_of_width (hsmall ty rfl) with
      ⟨ts, hts, hjoins, htexel, hreplaced⟩ | ⟨hrefused, htexel, hreplaced⟩
    · rw [hreplaced, htexel, chosen, Option.bind_some, hts]
      exact ⟨iff_of_true rfl ⟨ts, hts, hjoins⟩, rfl⟩
    · rw [hreplaced, htexel]
      exact ⟨iff_of_false nofun hrefused, rfl⟩

end Texel

/-! ## Images in a fresh emitter -/

/-- Whether the kind is a texture that is only read, or a subpass input. -/
def Source.Resource.isReadOnlyImage : Resource → Bool
  | .texture _ _ _ writable => !writable
  | .subpassInput _ => true
  | _ => false

/-- The type of the samples of an image. -/
def Spirv.TypeTree.sample? : Spirv.TypeTree → Option Spirv.TypeTree
  | .node _ (.image sample _ _ _ _ _ _) _ => some sample
  | _ => none

variable {options : Options} {kind : Resource}

/-- Nothing but the element of an image that is only read can be wrong with it. -/
theorem isFlawedResource_of_isReadOnlyImage (hkind : kind.isReadOnlyImage = true)
    (rule : Layout.Rule) (elem : Option Ty) :
    isFlawedResource options rule kind elem = Texel.isReplaced options elem := by
  cases kind with
  | texture dim arrayed multisampled writable =>
    cases writable with
    | true => cases hkind
    | false => exact Bool.or_false _
  | subpassInput multisampled => rfl
  | buffer | sampler | structured | byteAddress | constantBuffer | textureBuffer | inputPatch
  | outputPatch | stream => cases hkind

/-- The samples of an image are of the scalar of its texel. -/
theorem Written.sample?_of_texel (hkind : kind.isReadOnlyImage = true) {elem : OptionalTy}
    {t : Texel} (ht : texel options elem.toOption = .ok t) (rule : Layout.Rule) :
    ∃ tree, ofTy options (.resource kind elem) rule {} none = .ok tree ∧
      tree.sample? = some (ofScalar options .unlaid none t.scalar) := by
  rw [ofTy]
  cases kind with
  | texture dim arrayed multisampled writable =>
    rw [ofResource, ofTexture, ht]
    exact ⟨_, rfl, rfl⟩
  | subpassInput multisampled =>
    rw [ofResource, ofSubpassInput, ht]
    exact ⟨_, rfl, rfl⟩
  | buffer | sampler | structured | byteAddress | constantBuffer | textureBuffer | inputPatch
  | outputPatch | stream => cases hkind

namespace Emit

variable {e e' : Emitter}

/-- Where no flawed type is learned by the way, an answer comes with an error exactly if it owes
one. -/
theorem errorCount_lt_iff {α : Type} {p : Prop} {x : Emit α} {a : α}
    (hx : (ledger options fun _ => False).Owes p x e) (h : x.runOn e = (.ok a, e')) :
    e.log.errorCount < e'.log.errorCount ↔ p := by
  by_cases hp : p
  · have hlt := hx.counted a (by rw [h]) hp
    rw [h] at hlt
    exact iff_of_true hlt hp
  · obtain ⟨hlearns, hiff⟩ := hx.clean a (by rw [h]) hp
    rw [h] at hlearns hiff
    refine iff_of_false (fun hlt => ?_) hp
    obtain ⟨key, hflaw, hold, hnew⟩ := hiff.1 hlt
    exact (hlearns.introduced key hflaw hnew).elim hold id

/-- The element of an image is not emitted as a type. -/
theorem emittedIn_of_isReadOnlyImage (hkind : kind.isReadOnlyImage = true) (elem : OptionalTy)
    (rule : Layout.Rule) : elem.emittedIn options kind rule = [] := by
  cases kind with
  | texture dim arrayed multisampled writable => cases elem <;> rfl
  | subpassInput multisampled => cases elem <;> rfl
  | buffer | sampler | structured | byteAddress | constantBuffer | textureBuffer | inputPatch
  | outputPatch | stream => cases hkind

/-- What is not known is made. -/
theorem runOn_remembered {key : EmissionKey} {make : Emit Spirv.TypeId} {id : Spirv.TypeId}
    (hnew : e.known.lookup key = none) (h : (remembered key none make).runOn e = (.ok id, e')) :
    ∃ e₁, make.runOn e = (.ok id, e₁) ∧ e' = { e₁ with known := (key, id) :: e₁.known } := by
  obtain ⟨_, _, h₀, h⟩ := Action.runOn_bind_eq_ok_iff.1 h
  cases h₀
  rw [hnew] at h
  obtain ⟨id', e₁, hmake, h⟩ := Action.runOn_bind_eq_ok_iff.1 h
  cases h
  exact ⟨e₁, hmake, rfl⟩

/-- An image that is only read is emitted with an error exactly if its element is replaced. -/
theorem errorCount_type_image (hkind : kind.isReadOnlyImage = true) {elem : OptionalTy}
    {rule : Layout.Rule} {id : Spirv.TypeId}
    (h : (type (.resource kind elem) rule).runOn (.start options) = (.ok id, e')) :
    e'.log.errorCount = 0 ↔ Texel.isReplaced options elem.toOption = false := by
  rw [type, ofTy] at h
  obtain ⟨e₁, hmake, rfl⟩ := runOn_remembered rfl h
  have hnone : ∀ key ∈ elem.emittedIn options kind rule, False := by
    rw [emittedIn_of_isReadOnlyImage hkind]
    exact List.forall_mem_nil _
  have howes : (ledger options fun _ => False).Owes _ (ofResource elem kind rule)
      (.start options) := owes_ofResource elem kind rule hnone rfl
  have hiff := errorCount_lt_iff howes hmake
  rw [isFlawedResource_of_isReadOnlyImage hkind] at hiff
  rw [← Bool.not_eq_true, ← hiff]
  exact Nat.pos_iff_ne_zero.not_left.symm

/-- **Images take what their elements are.**  In a fresh emitter an image that is only read is
emitted whatever its element is, if the components can be counted.  Its samples are of the scalar of
its element, unless an error was reported, which is so exactly if the element is not accepted.  For
ordinary elements these are the ones that are not allowed. -/
theorem type_image (hkind : kind.isReadOnlyImage = true) {elem : OptionalTy}
    (hsmall : ∀ ty ∈ elem.toOption, Texel.width options ty < Word.bound) (rule : Layout.Rule) :
    ∃ id e tree, (type (.resource kind elem) rule).runOn (.start options) = (.ok id, e) ∧
      e.target.tree? id = some tree ∧
      tree.sample? = some (Written.ofScalar options .unlaid none
        (if e.log.errorCount = 0 then Texel.chosen elem.toOption else .fallback).scalar) ∧
      (e.log.errorCount = 0 ↔ ∀ ty ∈ elem.toOption, Texel.IsAccepted options ty) ∧
      ((∀ ty ∈ elem.toOption, Texel.isOrdinary ty = true) →
        (e.log.errorCount = 0 ↔ Texel.IsAllowed options elem.toOption)) := by
  obtain ⟨haccepted, htexel⟩ := Texel.texel_eq hsmall
  obtain ⟨tree, hwritten, hsample⟩ := Written.sample?_of_texel hkind htexel rule
  have hrealizes := realizes_ofTy (.resource kind elem) rule {} none (Emitter.sound_start options)
  rw [show (Emitter.start options).options = options from rfl, hwritten] at hrealizes
  obtain ⟨id, e, hrun, htree⟩ := hrealizes.exists_run
  have herrors := errorCount_type_image hkind hrun
  refine ⟨id, e, tree, hrun, htree, ?_, herrors.trans haccepted, fun hordinary => ?_⟩
  · rw [hsample]
    cases hreplaced : Texel.isReplaced options elem.toOption with
    | true => rw [if_pos rfl, if_neg (by rw [herrors, hreplaced]; exact Bool.true_eq_false.mp)]
    | false => rw [if_neg Bool.false_ne_true, if_pos (herrors.2 hreplaced)]
  · rw [herrors, haccepted]
    refine forall₂_congr fun ty hty => ?_
    exact (Texel.isAccepted_iff (hordinary ty hty)).trans Texel.isAllowed_some_iff

/-- A texture of the plane that is only read. -/
def planeTexture : Resource := .texture .two false false false

/-- A structure of two vectors. -/
def pairElement : Ty :=
  .struct "E" .absent (.cons "xy" (.vector .single 2) {} {}
    (.cons "zw" (.vector .single 2) {} {} .nil))

theorem type_image_pairElement :
    planeTexture.isReadOnlyImage = true ∧
    (∀ ty ∈ (OptionalTy.present pairElement).toOption, Texel.width {} ty < Word.bound) ∧
    Texel.isOrdinary pairElement = true ∧
    ∃ id e tree, (type (.resource planeTexture (.present pairElement)) .unlaid).runOn (.start {})
        = (.ok id, e) ∧
      e.target.tree? id = some tree ∧ e.log.errorCount = 0 ∧
      tree.sample? = some (Written.ofScalar {} .unlaid none .single) := by
  have hkind : planeTexture.isReadOnlyImage = true := rfl
  have hsmall : ∀ ty ∈ (OptionalTy.present pairElement).toOption,
      Texel.width {} ty < Word.bound := by
    rintro _ ⟨⟩
    decide +kernel
  have hordinary : Texel.isOrdinary pairElement = true := by decide +kernel
  obtain ⟨id, e, tree, hrun, htree, hsample, -, herrors⟩ := type_image hkind hsmall .unlaid
  have hnone : e.log.errorCount = 0 := by
    refine (herrors (by rintro _ ⟨⟩; exact hordinary)).2 ?_
    show Texel.IsAllowed {} (some pairElement)
    decide +kernel
  rw [if_pos hnone] at hsample
  exact ⟨hkind, hsmall, hordinary, id, e, tree, hrun, htree, hnone, hsample⟩

/-- A structure without fields. -/
def emptyElement : Ty := .struct "E" .absent .nil

/-- A structure of five components, four of them in its base structure. -/
def derivedElement : Ty :=
  .struct "E" (.present (.struct "B" .absent (.cons "b" (.vector .single 4) {} {} .nil)))
    (.cons "x" (.scalar .single) {} {} .nil)

/-- A structure of a signed and an unsigned number behind a literal. -/
def mixedElement : Ty :=
  .struct "E" .absent (.cons "x" (.scalar (.literalInt 32)) {} {}
    (.cons "y" (.scalar .int32) {} {} (.cons "z" (.scalar .uint32) {} {} .nil)))

/-- The number of errors for a texture of the plane. -/
def planeErrors (elem : Ty) : Nat :=
  ((type (.resource planeTexture (.present elem)) .unlaid).runOn (.start {})).2.log.errorCount

/-- Fields are compared with the first one only, those of a base structure are not looked at, and an
empty structure is not refused. -/
theorem not_isAllowed_acceptedElements :
    planeErrors emptyElement = 0 ∧ ¬Texel.IsAllowed {} (some emptyElement) ∧
    planeErrors derivedElement = 0 ∧ ¬Texel.IsAllowed {} (some derivedElement) ∧
    planeErrors mixedElement = 0 ∧ ¬Texel.IsAllowed {} (some mixedElement) :=
  ⟨by decide +kernel, by decide +kernel, by decide +kernel, by decide +kernel, by decide +kernel,
    by decide +kernel⟩

end Emit

end ShaderLowering
