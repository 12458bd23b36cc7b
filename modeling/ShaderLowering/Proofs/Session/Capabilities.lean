import ShaderLowering.Proofs.Session.Growth

/-!
# Capabilities of what was emitted

A capability is declared on the way to a type, but a type may be there already, by another rule,
from another operation or from one that failed later.  None of this matters: as long as scalars have
standard widths, every type is added to a module that declares what it asks for, and nothing is ever
taken back.
-/

namespace ShaderLowering

open Source (Ty Position)

/-- Every request leaves a module that declares what its types ask for. -/
theorem Emitter.covered_answers : (requests : List (Position × TypeRequest)) → {e : Emitter} →
    (∀ r ∈ requests, r.2.IsStandard) → e.target.Covered →
    (Emitter.answers requests e).2.target.Covered
  | [], _, _, he => he
  | (position, r) :: rest, e, hrequests, he => by
    obtain ⟨hr, hrest⟩ := List.forall_mem_cons.1 hrequests
    have hmove : Emit.Evolving True (Emit.moveTo position) := Emit.evolving_moveTo position
    have hmoved := (hmove e).step.covered trivial he
    exact covered_answers rest hrest
      ((TypeRequest.evolving_emit (fun _ => hr) _).step.covered trivial hmoved)

namespace Session

/-- No step adds a type that asks for more than is declared. -/
theorem Step.covered {packing : Prop} {s s' : Session} (h : s.Step True packing s')
    (hs : s.emitter.target.Covered) : s'.emitter.target.Covered := by
  cases h with
  | emission h => exact h.covered trivial hs
  | note emitter => exact emitter ▸ hs
  | recorded | internal | packed | repacked | builtin | listed | located | resource | pushConstant
  | place | locate | bind => exact hs.congr rfl (List.Subset.refl _)

end Session

/-- **Capabilities cover the types.**  If all scalars have standard widths, the module that requests
to an emitter or operations of a session leave declares what every entry of its type table asks for:
the capability of its width for a scalar or a vector of two or eight bytes, and for an image that of
its dimensionality and, where a storage image has a format of two channels, that of extended
formats. -/
theorem covered_of_isStandard :
    (∀ (options : Options) (requests : List (Position × TypeRequest)),
      (∀ r ∈ requests, r.2.IsStandard) →
        (Emitter.answers requests (.start options)).2.target.Covered) ∧
    ∀ (stage : Stage) (options : Options) (ops : List Operation), (∀ op ∈ ops, op.IsStandard) →
      ((Session.start stage options).run ops).emitter.target.Covered :=
  ⟨fun _ requests hrequests => Emitter.covered_answers requests hrequests (List.forall_mem_nil _),
    fun _ _ ops hops => Session.run_of_step (P := fun s => s.emitter.target.Covered)
      (fun _ _ h => h.covered) ops (fun op hop _ => hops op hop) (List.forall_mem_nil _)⟩

/-- A storage texture of one dimension with two components. -/
def storageTexture : Ty := .resource (.texture .one false false true) (.present (.vector .single 2))

/-- A structure that breaks off at a buffer without an element, after a number of eight bytes and a
storage texture. -/
def brokenStruct : Ty := .struct "s" .absent (.cons "a" (.scalar .double) {} {}
  (.cons "b" storageTexture {} {} (.cons "c" (.resource (.structured .read) .absent) {} {} .nil)))

theorem covered_of_isStandard_brokenStruct :
    (TypeRequest.type brokenStruct .unlaid none).IsStandard ∧
    (Operation.aliasType brokenStruct).IsStandard ∧
    (Emitter.answers [({}, .type brokenStruct .unlaid none)] (.start {})).2.target.Covered ∧
    ((Session.start .pixel {}).run [.aliasType brokenStruct]).emitter.target.Covered ∧
    ((Session.start .pixel {}).run [.aliasType brokenStruct]).emitter.target.capabilities =
      [.shader, .float64, .storageImageExtendedFormats, .image1D] := by
  have hrequest : (TypeRequest.type brokenStruct .unlaid none).IsStandard := by decide
  have hop : (Operation.aliasType brokenStruct).IsStandard := by decide
  refine ⟨hrequest, hop, covered_of_isStandard.1 {} _ (List.forall_mem_singleton.2 hrequest),
    covered_of_isStandard.2 .pixel {} _ (List.forall_mem_singleton.2 hop), by decide +kernel⟩

end ShaderLowering
