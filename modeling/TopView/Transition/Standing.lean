import TopView.Transition.Machine

namespace topview.transition

/-- In a history, `opening` has been seen and `closing` has not been seen since. -/
def Standing {O : Type} (opening closing : O) (log : List O) : Prop :=
  ∃ before after, log = before ++ opening :: after ∧ closing ∉ after

theorem Standing.mem {O : Type} {opening closing : O} {log : List O}
    (hstanding : Standing opening closing log) : opening ∈ log := by
  obtain ⟨before, after, rfl, _⟩ := hstanding
  simp

/-- The last observation opens, or it does not close what has been standing. -/
theorem standing_snoc_iff {O : Type} {opening closing last : O} {log : List O} :
    Standing opening closing (log ++ [last]) ↔
      last = opening ∨ last ≠ closing ∧ Standing opening closing log := by
  constructor
  · rintro ⟨before, after, hlog, hclosing⟩
    rcases append_eq_append_cons_iff.mp hlog with ⟨right, rfl, rfl⟩ | ⟨middle, _, hlast⟩
    · rw [List.mem_append, not_or, List.mem_singleton] at hclosing
      exact .inr ⟨fun heq => hclosing.2 heq.symm, before, right, rfl, hclosing.1⟩
    · have hmem : opening ∈ [last] := by
        rw [hlast]
        simp
      exact .inl (List.mem_singleton.mp hmem).symm
  · rintro (rfl | ⟨hne, before, after, rfl, hclosing⟩)
    · exact ⟨log, [], rfl, by simp⟩
    · refine ⟨before, after ++ [last], by simp, ?_⟩
      rw [List.mem_append, not_or, List.mem_singleton]
      exact ⟨hclosing, fun heq => hne heq.symm⟩

end topview.transition
