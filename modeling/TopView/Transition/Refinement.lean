import TopView.Transition.Machine

namespace topview.transition

/-- Every step of `concrete` is matched by some allowed steps of `abstract`,
    under a view of the states and a reading of what is emitted. -/
structure Machine.Refinement {S E O T F P : Type} (concrete : Machine S E O)
    (abstract : Machine T F P) where
  view : S → T
  observe : O → List P
  Allowed : F → Prop
  matched : ∀ {s event next emitted}, concrete.step s event = some (next, emitted) →
    ∃ others, (∀ other ∈ others, Allowed other) ∧
      abstract.exec (view s) others = some (view next, emitted.flatMap observe)

/-- A run of `concrete` is seen as a run of `abstract` by allowed steps. -/
theorem Machine.Refinement.exec {S E O T F P : Type} {concrete : Machine S E O}
    {abstract : Machine T F P} (refinement : concrete.Refinement abstract) {start final : S}
    {events : List E} {log : List O} (hexec : concrete.exec start events = some (final, log)) :
    ∃ others, (∀ other ∈ others, refinement.Allowed other) ∧
      abstract.exec (refinement.view start) others =
        some (refinement.view final, log.flatMap refinement.observe) := by
  refine concrete.exec_induct (fun _ s log => ∃ others,
    (∀ other ∈ others, refinement.Allowed other) ∧
      abstract.exec (refinement.view start) others =
        some (refinement.view s, log.flatMap refinement.observe)) ⟨[], by simp, rfl⟩ ?_
    events final log hexec
  rintro _ s log event next emitted _ ⟨before, hbefore, hrun⟩ hstep
  obtain ⟨after, hafter, hnext⟩ := refinement.matched hstep
  refine ⟨before ++ after, ?_, ?_⟩
  · rw [List.forall_mem_append]
    exact ⟨hbefore, hafter⟩
  · rw [List.flatMap_append]
    exact abstract.exec_append hrun hnext

end topview.transition
