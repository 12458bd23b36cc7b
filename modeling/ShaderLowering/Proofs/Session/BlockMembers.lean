import ShaderLowering.Proofs.Emission.HeldResources
import ShaderLowering.Proofs.Session.Decoration
import ShaderLowering.Proofs.Session.Reachable

/-!
# Resources in constant blocks

A resource cannot be a member of a constant block.  When a block is made, the types of its fields
are looked at: a field that is a resource, or an array of resources, is refused.  Structures are not
entered, and patches and streams are not taken for resources.  So what is inside the type of the
variable is what the fields mention there (`Session.Reachable.isResourceFree_block`).
-/

namespace ShaderLowering

open Source (Ty Field Fields Block)
open Spirv (VariableId TypeTree)

namespace Session

/-- The written-out type of a variable. -/
def treeOf? (s : Session) (var : VariableId) : Option TypeTree :=
  (s.var? var).bind fun v => s.emitter.target.tree? v.ty

/-- Whether the variable has a type, and there is no image, sampler or storage buffer inside it. -/
def isResourceFree (s : Session) (var : VariableId) : Bool :=
  (s.treeOf? var).any fun tree => !tree.anyInside (·.isResource)

end Session

namespace Lower

variable {s s' : Session} {b : Block} {var : VariableId}

/-- A new variable has the type that it was made with. -/
theorem treeOf?_of_addVariable {v : Spirv.Variable} {tree : TypeTree}
    (h : (emit (.addVariable v)).runOn s = (.ok var, s'))
    (hv : s.emitter.target.tree? v.ty = some tree) : s'.treeOf? var = some tree := by
  cases h
  have hlast : (Spirv.Table.push s.emitter.target.variables v).get? s.size = some v :=
    List.getElem?_concat_length
  exact (congrArg (·.bind fun v => s.emitter.target.tree? v.ty) hlast).trans hv

/-- A block that is made has no field that is a resource or an array of resources, and its variable
has the type that is put together from the fields. -/
theorem treeOf?_of_block (hs : s.Sound) (hnew : s.blocks.lookup b.id = none)
    (h : (block b).runOn s = (.ok var, s')) :
    (∀ f ∈ b.fields.toList, f.ty.isResourceArray = false) ∧
      ∃ trees tree, s'.treeOf? var = some tree ∧
        Written.ofFields s.emitter.options b.fields (blockRule s.emitter.options b.kind).1
          = .ok trees ∧
        Written.ofRecord s.emitter.options ("type." ++ b.name) b.fields.toList trees
          (blockRule s.emitter.options b.kind).1 (blockRule s.emitter.options b.kind).2
          = .ok tree := by
  rw [block] at h
  obtain ⟨_, _, h₀, h⟩ := Action.runOn_bind_eq_ok_iff.1 h
  cases h₀
  rw [hnew] at h
  dsimp only at h
  obtain ⟨_, s₁, h₁, h⟩ := Action.runOn_bind_eq_ok_iff.1 h
  split at h
  · -- a resource among the fields ends the run
    obtain ⟨_, _, hthrow, -⟩ := Action.runOn_bind_eq_ok_iff.1 h
    cases hthrow
  · rename_i hright
    have hwrong : b.fields.toList.filter (·.ty.isResourceArray) = [] := by
      simpa using hright
    rw [hwrong] at h₁
    cases h₁
    obtain ⟨options, _, h₂, h⟩ := Action.runOn_bind_eq_ok_iff.1 h
    cases h₂
    obtain ⟨_, s₂, h₃, h⟩ := Action.runOn_bind_eq_ok_iff.1 h
    obtain ⟨ty, s₃, h₄, h⟩ := Action.runOn_bind_eq_ok_iff.1 h
    obtain ⟨hs₂, hgrows⟩ := (keeps_moveTo hs _).of_run h₃
    obtain ⟨e₃, hrun, rfl⟩ := runOn_emit_eq_ok_iff.1 h₄
    obtain ⟨tree, hwritten, htree⟩ :=
      (Emit.realizes_blockType hs₂.emitter _ _ _ _).exists_of_run hrun
    obtain ⟨trees, htrees, hrecord⟩ := bind_eq_ok_iff.1 hwritten
    obtain ⟨id, s₄, h₅, h⟩ := Action.runOn_bind_eq_ok_iff.1 h
    have hid : s₄.treeOf? id = some tree := treeOf?_of_addVariable h₅ htree
    cases h
    have hoptions : s₂.emitter.options = s.emitter.options := hgrows.emitter.options
    rw [hoptions, ← Written.ofFields_eq_mapM] at htrees
    rw [hoptions] at hrecord
    have hfields := List.filter_eq_nil_iff.1 hwrong
    exact ⟨fun f hf => Bool.eq_false_iff.2 (hfields f hf), trees, tree, hid, htrees,
      hrecord⟩

end Lower

namespace Session

variable {stage : Stage} {options : Options} {s s' : Session}

/-- **What is inside a constant block.**  When the variable of a block is made, no field is a
resource or an array of resources.  Inside its type there is an image, a sampler or a storage buffer
exactly if some field mentions a resource that is emitted as such, in a structure, a base structure
or the element of a patch, a stream or a constant buffer. -/
theorem Reachable.isResourceFree_block (h : Session.Reachable stage options s) {b : Block}
    (hnew : s.blocks.lookup b.id = none) {var : VariableId}
    (hrun : (Lower.block b).runOn s = (.ok var, s')) :
    (∀ f ∈ b.fields.toList, f.ty.isResourceArray = false) ∧
      (s'.isResourceFree var = true ↔ b.fields.mention (·.staysResource) = false) := by
  obtain ⟨hfields, trees, tree, htree, htrees, hrecord⟩ :=
    Lower.treeOf?_of_block h.sound hnew hrun
  refine ⟨hfields, ?_⟩
  rw [isResourceFree, htree, Option.any_some,
    Written.anyInside_ofRecord_fields htrees hrecord, Bool.not_eq_true']

/-- A block with a structure, and with an array of structures that have a base structure. -/
def plainBlock : Block where
  id := 1
  name := "B"
  kind := .texture
  fields := .cons "s" (.struct "S" .absent (.cons "x" (.vector .single 4) {} {} .nil)) {} {}
    (.cons "a" (.array (.struct "T"
        (.present (.struct "S" .absent (.cons "x" (.vector .single 4) {} {} .nil)))
        (.cons "y" (.scalar .int32) {} {} .nil)) (some 2)) {} {} .nil)

/-- The session after its variable was made. -/
def plainBlockSession : Session := ((Lower.block plainBlock).runOn (.start .pixel {})).2

theorem Reachable.isResourceFree_block_plain :
    Session.Reachable .pixel {} (Session.start .pixel {}) ∧
    (Session.start .pixel {}).blocks.lookup plainBlock.id = none ∧
    (Lower.block plainBlock).runOn (Session.start .pixel {}) = (.ok 0, plainBlockSession) ∧
    plainBlockSession.isResourceFree 0 = true := by
  have hstart : Session.Reachable .pixel {} (Session.start .pixel {}) := .start
  have hnew : (Session.start .pixel {}).blocks.lookup plainBlock.id = none := rfl
  have hrun : (Lower.block plainBlock).runOn (Session.start .pixel {})
      = (.ok 0, plainBlockSession) := Prod.ext (by decide +kernel) (by rw [plainBlockSession])
  have hnone : plainBlock.fields.mention (·.staysResource) = false := by decide +kernel
  exact ⟨hstart, hnew, hrun, (Reachable.isResourceFree_block hstart hnew hrun).2.2 hnone⟩

/-- A block with a texture in a structure. -/
def hiddenTexture : Block where
  id := 1
  name := "B"
  kind := .constant
  fields := .cons "s" (.struct "S" .absent
    (.cons "t" (.resource (.texture .two false false false) .absent) {} {} .nil)) {} {} .nil

/-- The fields of a structure are not looked at. -/
theorem not_isResourceFree_hiddenTexture :
    ((Lower.block hiddenTexture).runOn (start .pixel {})).1 = .ok 0 ∧
    ((Lower.block hiddenTexture).runOn (start .pixel {})).2.isResourceFree 0 = false :=
  ⟨by decide +kernel, by decide +kernel⟩

end Session

end ShaderLowering
