import ShaderLowering.Proofs.Emission.Evolution
import ShaderLowering.Proofs.Emission.Extension
import ShaderLowering.Proofs.Emission.Scalars
import ShaderLowering.Proofs.Interface.Creation
import ShaderLowering.Proofs.Interface.Plan
import ShaderLowering.Proofs.Layout.TruthValues

/-!
# Leaves behind interface variables

A variable at a location stands for one leaf of a declaration: its type is that of the leaf, perhaps
over vertices, and it takes as many locations as the leaf (`Emitter.HoldsLeaf`).  The scalars in it
are those that the leaf stores on an interface (`Emitter.HoldsLeaf.holdsScalar_eq`).  Whether values
of 16 bits are declared is decided by the scalar of the leaf, which only a scalar, a vector or a
matrix has.
-/

namespace ShaderLowering

open Source (Ty Field Scalar)
open Spirv (TypeTree VariableId)

/-! ## Values of 16 bits -/

namespace Spirv

/-- The module declares what values of 16 bits on an interface ask for. -/
def Module.DeclaresNarrow (m : Module) : Prop :=
  .storageInputOutput16 ∈ m.capabilities ∧ .storage16Bit ∈ m.extensions

instance (m : Module) : Decidable m.DeclaresNarrow := inferInstanceAs (Decidable (_ ∧ _))

theorem Module.DeclaresNarrow.extends {m m' : Module} (h : m.DeclaresNarrow) (hm : m.Extends m') :
    m'.DeclaresNarrow :=
  ⟨hm.capabilities h.1, hm.extensions h.2⟩

end Spirv

namespace Written

theorem holdsScalar_overVertices {test : Spirv.Scalar → Bool} (tree : TypeTree)
    (vertices : Option Nat) :
    (overVertices tree vertices).holdsScalar test = tree.holdsScalar test := by
  cases vertices <;> rfl

end Written

/-! ## Variables of leaves -/

namespace Emitter

/-- The variable of an interface variable stands for a leaf. -/
structure HoldsLeaf (e : Emitter) (u : InterfaceVariable) (leaf : Ty) (vertices : Option Nat)
    (tree : TypeTree) : Prop where
  var : ∃ v, e.target.variables.get? u.var = some v ∧ v.storage = u.direction.storage ∧
    e.target.tree? v.ty = some (Written.overVertices tree vertices)
  written : Written.ofTy e.options leaf.onInterface .unlaid {} none = .ok tree
  locations : Layout.locations e.options leaf = .ok u.locationCount
  narrow : isNarrow e.options leaf = true → e.target.DeclaresNarrow

variable {e e' : Emitter} {u : InterfaceVariable} {leaf : Ty} {vertices : Option Nat}
  {tree : TypeTree}

theorem HoldsLeaf.extends (h : e.HoldsLeaf u leaf vertices tree) (hextends : e.Extends e') :
    e'.HoldsLeaf u leaf vertices tree where
  var := by
    obtain ⟨v, hv, hstorage, htree⟩ := h.var
    obtain ⟨_, hv', more, rfl⟩ := hextends.target.kept _ v hv
    exact ⟨v.gaining more, hv', hstorage, hextends.target.tree? htree⟩
  written := hextends.options ▸ h.written
  locations := hextends.options ▸ h.locations
  narrow hnarrow := (h.narrow (hextends.options ▸ hnarrow)).extends hextends.target

/-- Whether the type of the variable of an interface variable contains a scalar that passes a
test. -/
def holdsScalar (e : Emitter) (test : Spirv.Scalar → Bool) (u : InterfaceVariable) : Bool :=
  ((e.target.variables.get? u.var).bind fun v => e.target.tree? v.ty).any (·.holdsScalar test)

/-- The scalars in the type of a variable are those that its leaf stores on an interface. -/
theorem HoldsLeaf.holdsScalar_eq (h : e.HoldsLeaf u leaf vertices tree)
    (test : Spirv.Scalar → Bool) :
    e.holdsScalar test u = leaf.onInterface.stores e.options test .unlaid := by
  obtain ⟨v, hv, -, htree⟩ := h.var
  rw [holdsScalar, hv, Option.bind_some, htree, Option.any_some,
    Written.holdsScalar_overVertices, Written.holdsScalar_ofTy _ h.written]

/-- A location of its own leaves a variable the same leaf. -/
theorem HoldsLeaf.placedAt (h : e.HoldsLeaf u leaf vertices tree) (location : Nat) :
    e.HoldsLeaf (u.placedAt location) leaf vertices tree :=
  { h with }

end Emitter

namespace Emit

variable {e e' : Emitter} {decl : Field} {c : InterfaceContext}

/-- What a leaf of 16 bits asks for is declared. -/
theorem declaresNarrow_declareNarrow {options : Options} {ty : Ty}
    (hnarrow : isNarrow options ty = true) {u : Unit}
    (h : (declareNarrow options ty).runOn e = (.ok u, e')) : e'.target.DeclaresNarrow := by
  rw [declareNarrow, if_pos hnarrow] at h
  cases h
  exact ⟨(Spirv.Module.grows_enable _ _).capabilities (e.target.mem_require _),
    Spirv.Module.mem_enable _ _⟩

/-- The variable that is made for a declaration stands for it. -/
theorem holdsLeaf_locatedVariable (he : e.Sound) {semantic : Semantic} {r : VariableId × Nat}
    (h : (locatedVariable decl semantic c).runOn e = (.ok r, e')) {u : InterfaceVariable}
    (hvar : u.var = r.1) (hcount : u.locationCount = r.2) (hpoint : u.point = c.point) :
    ∃ tree, e'.HoldsLeaf u decl.ty c.vertices tree := by
  rw [locatedVariable_eq] at h
  obtain ⟨_, _, h₀, h⟩ := Action.runOn_bind_eq_ok_iff.1 h
  cases h₀
  -- the place, the type, what it asks for, its locations and the variable, one after the other
  obtain ⟨_, e₁, h₁, h⟩ := Action.runOn_bind_eq_ok_iff.1 h
  obtain ⟨ty, e₂, h₂, h⟩ := Action.runOn_bind_eq_ok_iff.1 h
  obtain ⟨_, e₃, h₃, h⟩ := Action.runOn_bind_eq_ok_iff.1 h
  obtain ⟨_, e₄, h₄, h⟩ := Action.runOn_bind_eq_ok_iff.1 h
  obtain ⟨count, e₅, h₅, h⟩ := Action.runOn_bind_eq_ok_iff.1 h
  obtain ⟨var, e₆, h₆, h⟩ := Action.runOn_bind_eq_ok_iff.1 h
  cases h
  obtain ⟨hlocations, rfl⟩ := Action.runOn_ofChecked_eq_ok_iff.1 h₅
  obtain ⟨he₁, hstep₁⟩ := (keeps_moveTo he _).of_run h₁
  have htype := realizes_interfaceType he₁ decl.ty.onInterface c.vertices
  obtain ⟨tree', hwritten, htree'⟩ := htype.exists_of_run h₂
  obtain ⟨tree, htree, hvertices⟩ := bind_eq_ok_iff.1 hwritten
  cases hvertices
  obtain ⟨he₂, hstep₂⟩ := htype.keeps.of_run h₂
  obtain ⟨he₃, hstep₃⟩ := (realizes_requireSampling he₂).keeps.of_run h₃
  obtain ⟨he₄, hstep₄⟩ := (realizes_declareNarrow he₃ _ _).keeps.of_run h₄
  -- after the type is written the tables only grow
  have hafter := hstep₃.trans hstep₄
  have hty := hafter.target.lt_types (htype.lt_types h₂)
  have hstep₆ := ((keeps_addVariable he₄ hty).of_run h₆).2
  have hlast := (adds_addVariable he₄ h₆).get?_size
  have hoptions : e'.options = e.options :=
    (((hstep₁.trans hstep₂).trans hafter).trans hstep₆).options
  rw [hstep₁.options] at htree
  have hvariable : ∃ v, e'.target.variables.get? u.var = some v ∧
      v.storage = u.direction.storage ∧ v.ty = ty := by
    rw [hvar, InterfaceVariable.direction, hpoint]
    cases h₆
    exact ⟨_, hlast, rfl, rfl⟩
  obtain ⟨v, hv, hstorage, rfl⟩ := hvariable
  refine ⟨tree, ⟨v, hv, hstorage, (hafter.trans hstep₆).target.tree? htree'⟩, ?_, ?_,
    fun hnarrow => ?_⟩
  · rw [hoptions]
    exact htree
  · rw [hoptions, hcount]
    exact hlocations
  · rw [hoptions] at hnarrow
    exact (declaresNarrow_declareNarrow hnarrow h₄).extends hstep₆.target

end Emit

end ShaderLowering
