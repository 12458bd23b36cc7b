import ShaderLowering.Proofs.Emission.Pointers

/-!
# Scalars in emitted types

An emitted type is built from scalars, alone, in vectors and as the samples of images.  Which ones
these are is known from the source type and the rule: a scalar, a vector or a matrix stores its own
scalar, a structure what its members store, an image the scalar of its texels, and a buffer what its
content stores under the rule for it (`Written.holdsScalar_ofTy`).  Truth values are stored as such
only where no memory layout is asked for.
-/

namespace ShaderLowering

open Source (Ty OptionalTy Fields Resource Record Scalar)
open Spirv (TypeTree)

namespace Spirv

/-- Whether a type is a scalar or vector whose scalar passes a test. -/
def TypeTree.isOf (test : Scalar → Bool) : TypeTree → Bool
  | .node _ (.scalar s) _ | .node _ (.vector _ s) _ => test s
  | _ => false

/-- Whether a type contains a scalar that passes a test, at any depth. -/
def TypeTree.holdsScalar (test : Scalar → Bool) (tree : TypeTree) : Bool := tree.any (isOf test)

end Spirv

namespace Source

/-- Whether the texels of an image with the given element are of a scalar that passes a test. -/
def storesTexel (options : Options) (test : Spirv.Scalar → Bool) (elem : Option Ty) : Bool :=
  (Written.texel options elem).toOption.any fun t => test (t.scalar.stored options .unlaid none)

mutual

/-- Whether the type stores a scalar that passes a test, where a rule is in force. -/
def Ty.stores (options : Options) (test : Spirv.Scalar → Bool) : Ty → Layout.Rule → Bool
  | .alias _ target, rule | .oriented _ target, rule => target.stores options test rule
  | .array elem _, rule => elem.stores options test rule
  | .scalar elem, rule | .vector elem _, rule | .matrix elem _ _, rule =>
    test (elem.stored options rule none)
  | .struct _ base fields, rule => base.stores options test rule || fields.store options test rule
  | .resource kind elem, rule => elem.storesIn options test kind rule
  | .void, _ => false

/-- Whether the type, if present, stores a scalar that passes a test. -/
def OptionalTy.stores (options : Options) (test : Spirv.Scalar → Bool) :
    OptionalTy → Layout.Rule → Bool
  | .absent, _ => false
  | .present ty, rule => ty.stores options test rule

/-- Whether a resource with the given element stores a scalar that passes a test. -/
def OptionalTy.storesIn (options : Options) (test : Spirv.Scalar → Bool) :
    OptionalTy → Resource → Layout.Rule → Bool
  | elem, .texture _ _ _ _, _ | elem, .buffer _, _ | elem, .subpassInput _, _ =>
    storesTexel options test elem.toOption
  | _, .sampler _, _ => false
  | _, .byteAddress _, _ => test .uint32
  | .absent, _, _ => false
  | .present elem, .structured _, rule => elem.stores options test (Emit.elementRule options rule)
  | .present elem, .stream _, rule => elem.stores options test rule
  | .present elem, .inputPatch _, _ | .present elem, .outputPatch _, _ =>
    elem.stores options test .unlaid
  | .present elem, kind, rule => elem.stores options test (contentRule options kind rule).1

/-- Whether the type of some field stores a scalar that passes a test. -/
def Fields.store (options : Options) (test : Spirv.Scalar → Bool) : Fields → Layout.Rule → Bool
  | .nil, _ => false
  | .cons _ ty _ _ rest, rule => ty.stores options test rule || rest.store options test rule

end

/-- A scalar, vector or matrix stores its own scalar and no other. -/
theorem Ty.stores_of_elementScalar? {options : Options} {test : Spirv.Scalar → Bool}
    {rule : Layout.Rule} {s : Scalar} : (ty : Ty) → ty.elementScalar? = some s →
    ty.stores options test rule = test (s.stored options rule none)
  | .alias _ target, hs | .oriented _ target, hs => stores_of_elementScalar? target hs
  | .scalar _, hs | .vector _ _, hs | .matrix _ _ _, hs => by
    cases hs
    rfl
  | .void, hs | .array _ _, hs | .struct _ _ _, hs | .resource _ _, hs => by
    cases hs

end Source

namespace Written

variable {options : Options} {test : Spirv.Scalar → Bool} {tree : TypeTree}

/-! ## Scalars, vectors and matrices -/

theorem holdsScalar_ofScalar (rule : Layout.Rule) (expected : Option Scalar) (s : Scalar) :
    (ofScalar options rule expected s).holdsScalar test = test (s.stored options rule expected) :=
  Bool.or_false _

theorem holdsScalar_ofVector {rule : Layout.Rule} {expected : Option Scalar} {s : Scalar}
    {count : Nat} (h : ofVector options rule expected s count = .ok tree) :
    tree.holdsScalar test = test (s.stored options rule expected) := by
  rw [ofVector] at h
  split at h
  · cases h
    exact holdsScalar_ofScalar rule expected s
  · obtain ⟨size, -, h⟩ := bind_eq_ok_iff.1 h
    cases h
    exact Bool.or_false _

theorem holdsScalar_ofMatrix {rule : Layout.Rule} {o : Layout.Orientation}
    {expected : Option Scalar} {s : Scalar} {rows cols : Nat}
    (h : ofMatrix options rule o expected s rows cols = .ok tree) :
    tree.holdsScalar test = test (s.stored options rule expected) := by
  rw [ofMatrix] at h
  split at h
  · obtain ⟨count, -, h⟩ := bind_eq_ok_iff.1 h
    exact holdsScalar_ofVector h
  · obtain ⟨row, hrow, h⟩ := bind_eq_ok_iff.1 h
    refine Eq.trans ?_ (holdsScalar_ofVector hrow)
    split at h
    · obtain ⟨size, -, h⟩ := bind_eq_ok_iff.1 h
      cases h
      rfl
    · obtain ⟨ds, -, h⟩ := bind_eq_ok_iff.1 h
      cases h
      rfl

/-! ## Resources -/

theorem holdsScalar_imageType {name : String} {sample : Scalar} {dim : Spirv.ImageDim}
    {arrayed multisampled inStorage : Bool} {format : Spirv.ImageFormat} :
    (imageType options name sample dim arrayed multisampled inStorage format).holdsScalar test
      = test (sample.stored options .unlaid none) :=
  holdsScalar_ofScalar .unlaid none sample

/-- An image of any kind stores the scalar of its texels. -/
theorem holdsScalar_of_texel {elem : Option Ty} {image : Texel → TypeTree}
    (himage : ∀ t : Texel, (image t).holdsScalar test = test (t.scalar.stored options .unlaid none))
    (h : (do return image (← texel options elem)) = Except.ok tree) :
    tree.holdsScalar test = Source.storesTexel options test elem := by
  obtain ⟨t, ht, h⟩ := bind_eq_ok_iff.1 h
  cases h
  rw [himage, Source.storesTexel, ht]
  rfl

theorem holdsScalar_blockOrAlias {block : TypeTree} {rule : Layout.Rule} :
    (blockOrAlias block rule).holdsScalar test = block.holdsScalar test := by
  rw [blockOrAlias]
  split <;> rfl

theorem holdsScalar_ofStructured {access : Source.StructuredAccess} {elem : Ty} {base : TypeTree}
    {rule : Layout.Rule} (h : ofStructured options access elem base rule = .ok tree) :
    tree.holdsScalar test = base.holdsScalar test := by
  rw [ofStructured] at h
  obtain ⟨extent, -, h⟩ := bind_eq_ok_iff.1 h
  obtain ⟨matrix, -, h⟩ := bind_eq_ok_iff.1 h
  cases h
  rw [holdsScalar_blockOrAlias]
  exact Bool.or_false _

theorem holdsScalar_ofByteAddress {kind : Resource} {writable : Bool} {rule : Layout.Rule} :
    (ofByteAddress kind writable rule).holdsScalar test = test .uint32 := by
  rw [ofByteAddress, holdsScalar_blockOrAlias]
  exact (Bool.or_false _).trans (Bool.or_false _)

/-! ## All types -/

mutual

/-- **The scalars of an emitted type are those that the source type stores.** -/
theorem holdsScalar_ofTy : (ty : Ty) → {rule : Layout.Rule} → {o : Layout.Orientation} →
    {tree : TypeTree} → ofTy options ty rule o none = .ok tree →
    tree.holdsScalar test = ty.stores options test rule
  | .alias _ target, _, _, _, h => by
    rw [ofTy] at h
    rw [Ty.stores]
    exact holdsScalar_ofTy target h
  | .oriented _ target, _, _, _, h => by
    rw [ofTy] at h
    rw [Ty.stores]
    exact holdsScalar_ofTy target h
  | .void, _, _, _, h => by
    rw [ofTy] at h
    cases h
    rfl
  | .scalar s, rule, _, _, h => by
    rw [ofTy] at h
    cases h
    exact holdsScalar_ofScalar rule none s
  | .vector _ _, _, _, _, h => by
    rw [ofTy] at h
    exact holdsScalar_ofVector h
  | .matrix _ _ _, _, _, _, h => by
    rw [ofTy] at h
    exact holdsScalar_ofMatrix h
  | .array elem _, _, _, _, h => by
    rw [ofTy] at h
    obtain ⟨base, hbase, h⟩ := bind_eq_ok_iff.1 h
    rw [Ty.stores]
    exact (any_ofArray (fun _ _ _ => rfl) (fun _ _ => rfl) h).trans (holdsScalar_ofTy elem hbase)
  | .struct name base fields, _, _, _, h => by
    rw [ofTy] at h
    obtain ⟨inherited, hinherited, h⟩ := bind_eq_ok_iff.1 h
    obtain ⟨own, hown, h⟩ := bind_eq_ok_iff.1 h
    rw [Ty.stores, ← any_holdsScalar_ofBase base hinherited,
      ← any_holdsScalar_ofFields fields hown, ← List.any_append]
    exact any_ofRecord (fun _ _ _ => rfl) (length_ofBase_append_ofFields name hinherited hown) h
  | .resource _ elem, _, _, _, h => by
    rw [ofTy] at h
    rw [Ty.stores]
    exact holdsScalar_ofResource elem h

theorem any_holdsScalar_ofBase : (base : OptionalTy) → {rule : Layout.Rule} →
    {trees : List TypeTree} → ofBase options base rule = .ok trees →
    trees.any (·.holdsScalar test) = base.stores options test rule
  | .absent, _, _, h => by
    cases h
    rfl
  | .present ty, _, _, h => by
    rw [ofBase] at h
    obtain ⟨tree, htree, h⟩ := bind_eq_ok_iff.1 h
    cases h
    rw [List.any_cons, List.any_nil, Bool.or_false, OptionalTy.stores]
    exact holdsScalar_ofTy ty htree

theorem any_holdsScalar_ofFields : (fields : Fields) → {rule : Layout.Rule} →
    {trees : List TypeTree} → ofFields options fields rule = .ok trees →
    trees.any (·.holdsScalar test) = fields.store options test rule
  | .nil, _, _, h => by
    cases h
    rfl
  | .cons _ ty _ _ rest, _, _, h => by
    rw [ofFields] at h
    obtain ⟨first, hfirst, h⟩ := bind_eq_ok_iff.1 h
    obtain ⟨others, hothers, h⟩ := bind_eq_ok_iff.1 h
    cases h
    rw [List.any_cons, holdsScalar_ofTy ty hfirst, any_holdsScalar_ofFields rest hothers,
      Fields.store]

theorem holdsScalar_ofResource : (elem : OptionalTy) → {kind : Resource} → {rule : Layout.Rule} →
    {tree : TypeTree} → ofResource options elem kind rule = .ok tree →
    tree.holdsScalar test = elem.storesIn options test kind rule
  | elem, .texture _ _ _ _, _, _, h | elem, .buffer _, _, _, h
  | elem, .subpassInput _, _, _, h => by
    rw [ofResource] at h
    rw [OptionalTy.storesIn]
    exact holdsScalar_of_texel (fun _ => holdsScalar_imageType) h
  | elem, .sampler _, _, _, h => by
    rw [ofResource] at h
    cases h
    rw [OptionalTy.storesIn]
    rfl
  | elem, .byteAddress _, _, _, h => by
    rw [ofResource] at h
    cases h
    rw [OptionalTy.storesIn]
    exact holdsScalar_ofByteAddress
  | .absent, .structured _, _, _, h | .absent, .constantBuffer, _, _, h
  | .absent, .textureBuffer, _, _, h | .absent, .stream _, _, _, h
  | .absent, .inputPatch _, _, _, h | .absent, .outputPatch _, _, _, h => by
    simp only [ofResource] at h
    cases h
  | .present elem, .structured _, _, _, h => by
    simp only [ofResource] at h
    obtain ⟨base, hbase, h⟩ := bind_eq_ok_iff.1 h
    rw [OptionalTy.storesIn, ← holdsScalar_ofTy elem hbase]
    exact holdsScalar_ofStructured h
  | .present elem, .stream _, _, _, h => by
    simp only [ofResource] at h
    rw [OptionalTy.storesIn]
    exact holdsScalar_ofTy elem h
  | .present elem, .inputPatch _, _, _, h | .present elem, .outputPatch _, _, _, h => by
    simp only [ofResource] at h
    obtain ⟨base, hbase, h⟩ := bind_eq_ok_iff.1 h
    cases h
    rw [OptionalTy.storesIn, ← holdsScalar_ofTy elem hbase]
    rfl
  | .present elem, .constantBuffer, _, _, h | .present elem, .textureBuffer, _, _, h => by
    simp only [ofResource] at h
    simp only [OptionalTy.storesIn]
    exact holdsScalar_ofContent elem h

theorem holdsScalar_ofContent : (ty : Ty) → {kind : Resource} → {rule : Layout.Rule} →
    {tree : TypeTree} → ofContent options ty kind rule = .ok tree →
    tree.holdsScalar test = ty.stores options test (contentRule options kind rule).1
  | .alias _ target, _, _, _, h => by
    rw [ofContent] at h
    rw [Ty.stores]
    exact holdsScalar_ofContent target h
  | .oriented _ target, _, _, _, h => by
    rw [ofContent] at h
    rw [Ty.stores]
    exact holdsScalar_ofContent target h
  | .struct name base fields, _, _, _, h => by
    rw [ofContent] at h
    obtain ⟨inherited, hinherited, h⟩ := bind_eq_ok_iff.1 h
    obtain ⟨own, hown, h⟩ := bind_eq_ok_iff.1 h
    rw [Ty.stores, ← any_holdsScalar_ofBase base hinherited,
      ← any_holdsScalar_ofFields fields hown, ← List.any_append]
    exact any_ofRecord (fun _ _ _ => rfl) (length_ofBase_append_ofFields name hinherited hown) h
  | .void, _, _, _, h | .scalar _, _, _, _, h | .vector _ _, _, _, _, h
  | .matrix _ _ _, _, _, _, h | .array _ _, _, _, _, h | .resource _ _, _, _, _, h => by
    simp only [ofContent] at h
    cases h

end

end Written

end ShaderLowering
