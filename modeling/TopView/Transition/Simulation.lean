import TopView.Transition.Machine

namespace topview.transition

/-- Every step of `concrete` from related states is matched by `abstract`
    meeting the requests of its event. Both emit the same, and the states stay
    related. -/
structure Machine.Simulation {S E O T F : Type} (concrete : Machine S E O)
    (abstract : Machine T F O) where
  Related : S → T → Prop
  requests : E → List F
  matched : ∀ {s t event next emitted}, Related s t →
    concrete.step s event = some (next, emitted) →
    ∃ other, abstract.exec t (requests event) = some (other, emitted) ∧ Related next other

/-- A run of `concrete` is matched by the run of `abstract` over all requests. -/
theorem Machine.Simulation.exec {S E O T F : Type} {concrete : Machine S E O}
    {abstract : Machine T F O} (simulation : concrete.Simulation abstract) {start final : S}
    {other : T} {events : List E} {log : List O} (hstart : simulation.Related start other)
    (hexec : concrete.exec start events = some (final, log)) :
    ∃ last, abstract.exec other (events.flatMap simulation.requests) = some (last, log) ∧
      simulation.Related final last := by
  refine concrete.exec_induct (fun events s log => ∃ last,
    abstract.exec other (events.flatMap simulation.requests) = some (last, log) ∧
      simulation.Related s last) ⟨other, rfl, hstart⟩ ?_ events final log hexec
  intro events s log event next emitted _ ih hstep
  obtain ⟨last, hrun, hrelated⟩ := ih
  obtain ⟨after, hnext, hafter⟩ := simulation.matched hrelated hstep
  refine ⟨after, ?_, hafter⟩
  rw [List.flatMap_append, List.flatMap_singleton]
  exact abstract.exec_append hrun hnext

end topview.transition
