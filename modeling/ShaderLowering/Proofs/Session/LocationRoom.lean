import ShaderLowering.Proofs.Interface.FirstFit
import ShaderLowering.Proofs.Session.LowestLocations

/-!
# Room for automatic locations

If the explicit locations of a direction and the room of all its other variables fit into words one
behind the other, the loops that give out its locations come to their end.  They put the variables
one behind the other, and none further back than where it would be put if everything before it were
packed behind the last explicit location.
-/

namespace ShaderLowering

open FirstFit

/-- Places that variables are given in turn: each range lies behind the one before, and ends no
further behind a given place than by the room of the variables up to it. -/
structure FirstFit.Fits (place : Nat) (pending : List (InterfaceVariable × Nat))
    (starts : List Nat) : Prop where
  length : starts.length = pending.length
  ascending : (pending.zip starts).Pairwise fun q p => q.2 < p.2 ∧ q.2 + q.1.1.room ≤ p.2
  within : ∀ i v start, pending[i]? = some v → starts[i]? = some start →
    start + v.1.room ≤ place + ((pending.take (i + 1)).map (·.1.room)).sum

/-- The loops over the variables of one direction, and the session that they run in.  Let the
explicit ranges end at `explicitEnd`, or at zero if there are none, and let there be words for as
many locations behind this as the other variables need together.  Then both loops come to their end,
and what they give out is the plan.  In the order in which variables are given their places, each
range lies behind the one before, and ends no further behind the explicit ones than by the room of
the variables up to it.  In a session the variables are at these places afterwards. -/
theorem Lower.assignLocations_of_room (order : LocationOrder) (direction : Direction)
    (vs : List InterfaceVariable)
    (hroom : explicitEnd ((locatedVariables direction vs).map (·.1)) +
      ((pendingVariables order direction vs).map (·.1.room)).sum < Word.bound) :
    ∃ used findings starts,
      takeExplicit [] ((locatedVariables direction vs).map (·.1)) = .ok (used, findings) ∧
      placeAll used 0 ((pendingVariables order direction vs).map (·.1.room)) = .ok starts ∧
      LocationPlan.of order direction vs = .ok ⟨findings,
        (placings (locatedVariables direction vs) (pendingVariables order direction vs) starts).map
          fun p => (p.1.2, p.2)⟩ ∧
      Fits (explicitEnd ((locatedVariables direction vs).map (·.1)))
        (pendingVariables order direction vs) starts ∧
      ∀ stage options s, Session.Reachable stage options s → s.interface = vs →
        options.order = order →
        ∃ s', (assignLocations direction).runOn s = (.ok findings.isEmpty, s') ∧
          ∀ p ∈ (pendingVariables order direction vs).zip starts,
            s'.interface[p.1.2]? = some (p.1.1.placedAt p.2) := by
  -- first the plan: explicit ranges are set aside, and the others fit behind them
  obtain ⟨e, haside, hbefore⟩ := exists_setAside_of_explicitEnd (Nat.lt_of_le_of_lt
    (Nat.le_add_right _ _) hroom)
  obtain ⟨starts, hfill, hends⟩ := fill_of_room hbefore (Nat.zero_le _) hroom
  -- then the loop over single slots, which does not break off where the plan does not
  obtain ⟨e', used, findings, haside', htake, hcovers, hfindings⟩ :=
    (covers_nil.takeExplicit (e := {}) _).resolve_right fun h => by
      rw [haside] at h
      cases h.1
  cases haside.symm.trans haside'
  rw [List.nil_append] at hfindings
  have hlength := (fill_spec hfill).1
  rw [List.length_map] at hlength
  have hplan : LocationPlan.of order direction vs = .ok ⟨findings, _⟩ :=
    LocationPlan.of_eq_ok_iff.2 ⟨e, starts, haside, hfill, hfindings.symm, rfl⟩
  refine ⟨used, findings, starts, htake, ?_, hplan,
    ⟨hlength, ?_, fun i v start hv hstart => ?_⟩, ?_⟩
  · rw [hcovers.placeAll, hfill]
  · refine (fill_inTurn hfill).2.imp fun {q p} hle => ⟨?_, hle⟩
    have := q.1.1.room_pos
    omega
  · rw [List.map_take]
    exact hends i start v.1.room hstart (by rw [List.getElem?_map, hv]; rfl)
  · rintro stage options s hs rfl rfl
    obtain rfl := hs.options_eq
    have hserves : LocationPlan.Serves ⟨findings, _⟩ direction s.interface _ :=
      LocationPlan.serves_placings haside hfill hfindings.symm rfl
    refine ⟨_, Lower.runOn_assignLocations hs.sound hplan hserves, fun p hp => ?_⟩
    have hmem : p ∈ placings (locatedVariables direction s.interface) _ starts :=
      mem_placings_iff.2 (.inr hp)
    refine (Session.interface_settled_foldl_of_mem hserves.nodup hmem s).trans ?_
    rw [(hserves.getElem?_of_mem hmem).1, Option.map_some]

theorem Lower.assignLocations_of_room_passedGap :
    explicitEnd ((locatedVariables .input passedGap.interface).map (·.1)) +
      ((pendingVariables .declaration .input passedGap.interface).map (·.1.room)).sum <
        Word.bound ∧
    ∃ used findings starts,
      takeExplicit [] ((locatedVariables .input passedGap.interface).map (·.1)) =
        .ok (used, findings) ∧
      placeAll used 0
        ((pendingVariables .declaration .input passedGap.interface).map (·.1.room)) =
          .ok starts ∧
      Fits (explicitEnd ((locatedVariables .input passedGap.interface).map (·.1)))
        (pendingVariables .declaration .input passedGap.interface) starts ∧
      ∃ s', (assignLocations .input).runOn passedGap = (.ok findings.isEmpty, s') := by
  have hend : explicitEnd ((locatedVariables .input passedGap.interface).map (·.1)) = 2 := by
    decide +kernel
  have hrooms :
      (pendingVariables .declaration .input passedGap.interface).map (·.1.room) =
        [2, 1] := by
    decide +kernel
  have hroom : explicitEnd ((locatedVariables .input passedGap.interface).map (·.1)) +
      ((pendingVariables .declaration .input passedGap.interface).map (·.1.room)).sum <
        Word.bound := by
    rw [hend, hrooms]
    decide
  obtain ⟨used, findings, starts, htake, hplace, -, hfits, hrun⟩ :=
    assignLocations_of_room .declaration .input passedGap.interface hroom
  obtain ⟨s', hrun, -⟩ := hrun _ _ _ reachable_passedGap rfl rfl
  exact ⟨hroom, used, findings, starts, htake, hplace, hfits, s', hrun⟩

end ShaderLowering
