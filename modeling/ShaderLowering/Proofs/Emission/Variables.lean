import ShaderLowering.Distance.Arrays
import ShaderLowering.Proofs.Emission.Simulation

/-!
# Variables that an emission adds

Emitting types and reporting findings leaves the variables of the module alone; only a few actions
add one.  `Emitter.Adds` records which, and is composed along a sequence by appending.  What is
asked most of a module is whether it has a variable for a builtin (`Spirv.Module.HasBuiltin`), which
the list of added variables decides.
-/

namespace ShaderLowering

open Spirv (Builtin StorageClass TypeId TypeTree VariableId)

/-! ## Builtins of a module -/

namespace Spirv

/-- Whether a variable of a storage class stands for a builtin. -/
def Variable.Provides (v : Variable) (b : Builtin) (c : StorageClass) : Prop :=
  v.storage = c ∧ .builtin b ∈ v.decorations

/-- Whether a module has a variable for a builtin in a storage class. -/
def Module.HasBuiltin (m : Module) (b : Builtin) (c : StorageClass) : Prop :=
  ∃ v ∈ m.variables.entries, v.Provides b c

variable {m m' : Module} {vs : List Variable} {b : Builtin} {c : StorageClass}

theorem Module.hasBuiltin_of_append (h : m'.variables.entries = m.variables.entries ++ vs) :
    m'.HasBuiltin b c ↔ m.HasBuiltin b c ∨ ∃ v ∈ vs, v.Provides b c := by
  rw [HasBuiltin, HasBuiltin, h]
  simp only [List.mem_append, or_and_right, exists_or]

end Spirv

/-! ## Added variables -/

namespace Emitter

/-- The second emitter has some more variables, and is sound. -/
structure Adds (e e' : Emitter) (vs : List Spirv.Variable) : Prop where
  sound : e'.Sound
  options : e'.options = e.options
  entries : e'.target.variables.entries = e.target.variables.entries ++ vs

variable {e e' e'' : Emitter} {vs vs' : List Spirv.Variable}

theorem Adds.refl (he : e.Sound) : e.Adds e [] := ⟨he, rfl, (List.append_nil _).symm⟩

theorem Adds.trans (h : e.Adds e' vs) (h' : e'.Adds e'' vs') : e.Adds e'' (vs ++ vs') where
  sound := h'.sound
  options := h'.options.trans h.options
  entries := by rw [h'.entries, h.entries, List.append_assoc]

/-- A variable that was added is the last one. -/
theorem Adds.get?_size {v : Spirv.Variable} (h : e.Adds e' [v]) :
    e'.target.variables.get? e.target.variables.size = some v := by
  rw [Spirv.Table.get?, h.entries]
  exact List.getElem?_concat_length

theorem Adds.hasBuiltin_iff (h : e.Adds e' vs) {b : Builtin} {c : StorageClass} :
    e'.target.HasBuiltin b c ↔ e.target.HasBuiltin b c ∨ ∃ v ∈ vs, v.Provides b c :=
  Spirv.Module.hasBuiltin_of_append h.entries

end Emitter

namespace Emit

variable {α β : Type} {e e' : Emitter}

/-- An action that realizes a written value adds no variable. -/
theorem Realizes.adds {x : Emit α} {d : Written β} {R : Emitter → α → β → Prop}
    {r : Except Failure α} (hx : Realizes x e d R) (h : x.runOn e = (r, e')) : e.Adds e' [] := by
  have hsound := hx.sound
  have hgrows := hx.grows
  rw [h] at hsound hgrows
  refine ⟨hsound, hgrows.options, ?_⟩
  rw [hgrows.target.sameVariables, List.append_nil]

theorem adds_addVariable (he : e.Sound) {v : Spirv.Variable} {var : VariableId}
    (h : (addVariable v).runOn e = (.ok var, e')) : e.Adds e' [v] := by
  cases h
  exact ⟨⟨he.wellFormed, he.known⟩, rfl, rfl⟩

theorem adds_moveTo (he : e.Sound) {position : Source.Position}
    (h : (moveTo position).runOn e = (.ok (), e')) : e.Adds e' [] := by
  cases h
  exact ⟨⟨he.wellFormed, he.known⟩, rfl, (List.append_nil _).symm⟩

end Emit

/-! ## Types over vertices -/

/-- The tree of an array type over vertices, where there are several. -/
def Written.overVertices (tree : TypeTree) : Option Nat → TypeTree
  | none => tree
  | some count => plain (.array tree count)

theorem Emit.realizes_overVertices {e : Emitter} (he : e.Sound) {base : TypeId} {tree : TypeTree}
    (hbase : Emit.IsTree e base tree) (vertices : Option Nat) :
    Emit.Realizes (Emit.overVertices base vertices) e (.ok (Written.overVertices tree vertices))
      Emit.IsTree := by
  cases vertices with
  | none => exact realizes_pure he hbase
  | some count => exact realizes_fixedArray he hbase count []

end ShaderLowering
