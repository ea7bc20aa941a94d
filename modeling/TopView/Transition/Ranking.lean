import Mathlib.Algebra.GroupWithZero.Nat
import Mathlib.Tactic.Common
import TopView.Transition.Machine

namespace topview.transition

/-- A measure of the work that is left. A step that makes work gains as much as
    its event says, and costs one. -/
structure Machine.Ranking {S E O : Type} (machine : Machine S E O) where
  Allowed : E → Prop
  gain : E → Nat
  rank : S → Nat
  step_lt {s next : S} {event : E} {emitted : List O} : Allowed event →
    machine.step s event = some (next, emitted) → rank next < rank s + gain event

/-- The events that make no work. -/
def Machine.Ranking.Works {S E O : Type} {machine : Machine S E O} (ranking : machine.Ranking)
    (event : E) : Prop := ranking.Allowed event ∧ ranking.gain event = 0

/-- No step is enabled that only works. -/
def Machine.Ranking.Quiet {S E O : Type} {machine : Machine S E O} (ranking : machine.Ranking)
    (s : S) : Prop := ∀ event, ranking.Works event → machine.step s event = none

variable {S E O : Type} {machine : Machine S E O}

/-- A run takes no more steps than there was work in the beginning and has been
    made since. -/
theorem Machine.Ranking.length_le (ranking : machine.Ranking) {events : List E} {s final : S}
    {log : List O} (hexec : machine.exec s events = some (final, log))
    (hallowed : ∀ event ∈ events, ranking.Allowed event) :
    events.length + ranking.rank final ≤ ranking.rank s + (events.map ranking.gain).sum := by
  induction events generalizing s log with
  | nil =>
    simp only [Machine.exec_nil, Option.some.injEq, Prod.mk.injEq] at hexec
    obtain ⟨rfl, _⟩ := hexec
    simp
  | cons event events ih =>
    obtain ⟨next, emitted, rest, hstep, hrest, rfl⟩ := machine.exec_cons_eq_some_iff.mp hexec
    obtain ⟨hevent, hevents⟩ := List.forall_mem_cons.mp hallowed
    have hlt := ranking.step_lt hevent hstep
    have hle := ih hrest hevents
    rw [List.length_cons, List.map_cons, List.sum_cons]
    omega

/-- Work alone leads to a state where none is left to do. -/
theorem Machine.Ranking.exists_quiet (ranking : machine.Ranking) (s : S) :
    ∃ events final log, (∀ event ∈ events, ranking.Works event) ∧
      machine.exec s events = some (final, log) ∧ ranking.Quiet final := by
  induction hrank : ranking.rank s using Nat.strongRecOn generalizing s with
  | ind rank ih =>
    by_cases hquiet : ranking.Quiet s
    · exact ⟨[], s, [], by simp, rfl, hquiet⟩
    · obtain ⟨event, hworks, hstep⟩ : ∃ event, ranking.Works event ∧ machine.step s event ≠ none := by
        by_contra hnone
        apply hquiet
        intro event hworks
        by_contra hstep
        exact hnone ⟨event, hworks, hstep⟩
      obtain ⟨⟨next, emitted⟩, hnext⟩ := Option.ne_none_iff_exists'.mp hstep
      have hlt := ranking.step_lt hworks.1 hnext
      rw [hworks.2, hrank, Nat.add_zero] at hlt
      obtain ⟨events, final, log, hevents, hexec, hfinal⟩ := ih _ hlt next rfl
      refine ⟨event :: events, final, emitted ++ log, ?_, ?_, hfinal⟩
      · exact List.forall_mem_cons.mpr ⟨hworks, hevents⟩
      · exact machine.exec_cons_eq_some_iff.mpr ⟨next, emitted, log, hnext, hexec, rfl⟩

end topview.transition
