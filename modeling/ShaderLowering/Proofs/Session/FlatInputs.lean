import ShaderLowering.Proofs.Session.Standing

/-!
# Integers among the inputs of a pixel shader

Integers cannot be interpolated, so an input of a pixel shader that contains some has to be flat.
Whether it does is judged by the scalar of its leaf, which only a scalar, a vector or a matrix has:
these are flat if they are of integers or truth values, whether this is asked for or not.  An array
is flat only if it is asked for, whatever its elements are (`Session.Reachable.flat_createInput`).
-/

namespace ShaderLowering

open Source (Ty Param Field Scalar Interpolation)
open Spirv (VariableDecoration)

/-- Whether a scalar is an integer, signed or not. -/
def Spirv.Scalar.isInteger (s : Scalar) : Bool := s.kind = .signed || s.kind = .unsigned

/-- A scalar is stored as an integer on an interface if it is one or a truth value. -/
theorem Source.Scalar.isInteger_stored (s : Scalar) (options : Options) (rule : Layout.Rule) :
    (s.onInterface.stored options rule none).isInteger = (s.isInteger || decide (s = .bool)) := by
  rw [stored, if_neg s.onInterface_ne_bool, Spirv.Scalar.isInteger, settled_none, kind,
    if_neg s.onInterface_ne_bool]
  cases s with
  | int bits signed => cases signed <;> rfl
  | minInt signed => cases signed <;> rfl
  | bool | float | minFloat | literalInt | literalFloat => rfl

/-- The scalar of a scalar, vector or matrix decides whether it contains integers. -/
theorem Source.Ty.stores_onInterface_isInteger {options : Options} {ty : Ty} {s : Scalar}
    (hs : ty.elementScalar? = some s) :
    ty.onInterface.stores options (·.isInteger) .unlaid = (s.isInteger || decide (s = .bool)) := by
  have hs' : ty.onInterface.elementScalar? = some s.onInterface := by
    rw [ty.elementScalar?_onInterface, hs, Option.map_some]
  rw [Ty.stores_of_elementScalar? _ hs', s.isInteger_stored]

/-! ## Decorations of leaves -/

/-- Whether the variable of an interface variable has a decoration. -/
def Emitter.isDecorated (e : Emitter) (u : InterfaceVariable) (d : VariableDecoration) : Bool :=
  (e.target.variables.get? u.var).any fun v => decide (d ∈ v.decorations)

/-- A decoration that is no place is on the variable of a leaf exactly if the leaf asks for it. -/
theorem Emitter.StandsFor.isDecorated_iff {e : Emitter} {u : InterfaceVariable} {l : InterfaceLeaf}
    (h : e.StandsFor u l) {d : VariableDecoration} (hd : d.isPlace = false) :
    e.isDecorated u d = true ↔ d ∈ locatedDecorations e.options l.point l.decl := by
  obtain ⟨v, hv, htraits⟩ := h.traits
  rw [isDecorated, hv, Option.any_some, decide_eq_true_eq, ← htraits, Spirv.Variable.traits,
    List.mem_filter, hd]
  simp

theorem flat_mem_interpolationDecorations {ty : Ty} {modes : Interpolation} :
    .flat ∈ interpolationDecorations ty modes ↔
      (ty.elementScalar?.any fun s => s.isInteger || s = .bool) = true ∨ modes.flat = true := by
  simp [interpolationDecorations]

/-- Only the interpolation of a pixel shader input makes a variable flat. -/
theorem flat_mem_locatedDecorations {options : Options} {decl : Field} :
    .flat ∈ locatedDecorations options .pixelIn decl ↔
      .flat ∈ interpolationDecorations decl.ty decl.attributes.interpolation := by
  simp [locatedDecorations]

/-- An input of a pixel shader is flat exactly if its leaf asks for it, or is a scalar, a vector or
a matrix with integers. -/
theorem Emitter.StandsFor.flat_iff {e : Emitter} {u : InterfaceVariable} {l : InterfaceLeaf}
    (h : e.StandsFor u l) (hpoint : l.point = .pixelIn) :
    e.isDecorated u .flat = true ↔ l.decl.attributes.interpolation.flat = true ∨
      l.decl.ty.elementScalar?.isSome = true ∧ e.holdsScalar (·.isInteger) u = true := by
  rw [h.isDecorated_iff rfl, hpoint, flat_mem_locatedDecorations,
    flat_mem_interpolationDecorations, h.holdsScalar_eq, or_comm]
  refine or_congr_right ?_
  cases hs : l.decl.ty.elementScalar? with
  | none => simp
  | some scalar => simp [Ty.stores_onInterface_isInteger hs]

/-- All leaves that a pixel shader reads are at one signature point. -/
theorem Source.Param.point_of_mem_inputLeaves {p : Param} {perPatch : Bool} {l : InterfaceLeaf}
    (hl : l ∈ p.inputLeaves .pixel perPatch) : l.point = .pixelIn := by
  rw [inputLeaves] at hl
  split at hl
  · cases hl
  · split at hl
    · cases hl
    · exact (Option.some.inj (InterfaceLeaf.point_of_mem_ofDeclaration hl)).symm

namespace Session

/-- What is to hold of the interface variables from some number on: a variable at a location is flat
if its type contains an integer. -/
def FlatFrom (s : Session) (n : Nat) : Prop :=
  ∀ u ∈ s.interface.drop n, u.isLocated = true →
    s.emitter.holdsScalar (·.isInteger) u = true → s.emitter.isDecorated u .flat = true

instance (s : Session) (n : Nat) : Decidable (s.FlatFrom n) := List.decidableBAll _ _

variable {stage : Stage} {options : Options} {s s' : Session}

/-- **Which inputs of a pixel shader are flat.**  Whatever is answered when the input variables of a
parameter are created, every new variable at a location stands for a leaf of the parameter.  It is
flat exactly if the leaf asks for it, or the leaf is a scalar, a vector or a matrix and the type of
the variable contains an integer.  So all new variables with integers are flat if every leaf asks
for it, is such a value, or contains no integer. -/
theorem Reachable.flat_createInput (h : Session.Reachable stage options s)
    (hstage : s.stage = .pixel) {p : Param} {perPatch : Bool} {r : Except Failure Bool}
    (hrun : (Lower.createInput p perPatch).runOn s = (r, s')) :
    (∀ u ∈ s'.interface.drop s.interface.length, u.isLocated = true →
      ∃ l ∈ p.inputLeaves .pixel perPatch, s'.emitter.StandsFor u l ∧
        (s'.emitter.isDecorated u .flat = true ↔ l.decl.attributes.interpolation.flat = true ∨
          l.decl.ty.elementScalar?.isSome = true ∧
            s'.emitter.holdsScalar (·.isInteger) u = true)) ∧
    ((∀ l ∈ p.inputLeaves .pixel perPatch, l.decl.attributes.interpolation.flat = true ∨
        l.decl.ty.elementScalar?.isSome = true ∨
          l.decl.ty.onInterface.stores options (·.isInteger) .unlaid = false) →
      s'.FlatFrom s.interface.length) := by
  obtain ⟨-, hdraws⟩ := (Lower.draws_createInput ⟨h.sound, hstage⟩
    fun l (hl : l ∈ p.inputLeaves .pixel perPatch) => hl).of_run hrun
  refine ⟨fun u hu hlocated => ?_, fun hleaves u hu hlocated hholds => ?_⟩
  · obtain ⟨l, hl, hstands⟩ := hdraws.exists_standsFor hu hlocated
    exact ⟨l, hl, hstands, hstands.flat_iff (Param.point_of_mem_inputLeaves hl)⟩
  · obtain ⟨l, hl, hstands⟩ := hdraws.exists_standsFor hu hlocated
    rw [hstands.flat_iff (Param.point_of_mem_inputLeaves hl)]
    rcases hleaves l hl with hasked | hvalue | hnone
    · exact .inl hasked
    · exact .inr ⟨hvalue, hholds⟩
    · -- then the type contains no integer either
      rw [hstands.holdsScalar_eq, hdraws.grows.emitter.options.trans h.options_eq, hnone] at hholds
      cases hholds

/-- A vector of truth values, numbers, and integers that are declared to be flat. -/
def mixedInput : Param where
  id := 1
  name := "a"
  ty := .struct "S" .absent (.cons "on" (.vector .bool 2) {} {}
    (.cons "weights" (.array (.scalar .single) (some 2)) {} {}
      (.cons "ids" (.array (.scalar .int32) (some 2)) { interpolation := { flat := true } } {}
        .nil)))
  attributes := { semantic := some "A" }

/-- A pixel shader that read the mixed input. -/
def mixedPixel : Session := ((Lower.createInput mixedInput false).runOn (.start .pixel {})).2

theorem Reachable.flat_createInput_mixed :
    Session.Reachable .pixel {} (Session.start .pixel {}) ∧
    (Session.start .pixel {}).stage = .pixel ∧
    (Lower.createInput mixedInput false).runOn (Session.start .pixel {})
      = (.ok true, mixedPixel) ∧
    mixedPixel.interface.map (mixedPixel.emitter.isDecorated · .flat) = [true, false, true] ∧
    mixedPixel.FlatFrom 0 := by
  have hrun : (Lower.createInput mixedInput false).runOn (Session.start .pixel {})
      = (.ok true, mixedPixel) := Prod.ext (by decide +kernel) rfl
  refine ⟨.start, rfl, hrun, by decide +kernel, ?_⟩
  exact (Reachable.flat_createInput .start rfl hrun).2 (by decide +kernel)

/-- An array of integers. -/
def integerArray : Param where
  id := 1
  name := "a"
  ty := .array (.scalar .int32) (some 2)
  attributes := { semantic := some "A" }

/-- The elements of an array are not seen. -/
theorem not_flatFrom_integerArray :
    Session.Reachable .pixel {} (start .pixel {}) ∧
    ((Lower.createInput integerArray false).runOn (start .pixel {})).1 = .ok true ∧
    ¬((Lower.createInput integerArray false).runOn (start .pixel {})).2.FlatFrom 0 :=
  ⟨.start, by decide +kernel, by decide +kernel⟩

end Session

end ShaderLowering
