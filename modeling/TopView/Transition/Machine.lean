import Mathlib.Data.List.Induction

namespace topview.transition

/-- A machine with one partial step per event. A step that is taken also
    returns what it emits, in order, for an outside reader. -/
structure Machine (S E O : Type) where
  step : S → E → Option (S × List O)

/-- Execute a list of events, concatenating what the steps emit. The run is
    `none` as soon as one event is not enabled. -/
def Machine.exec {S E O : Type} (machine : Machine S E O) : S → List E → Option (S × List O)
  | start, [] => some (start, [])
  | start, event :: events =>
    (machine.step start event).bind fun next =>
      (machine.exec next.1 events).map fun final => (final.1, next.2 ++ final.2)

@[simp] theorem Machine.exec_nil {S E O : Type} (machine : Machine S E O) (start : S) :
    machine.exec start [] = some (start, []) := rfl

theorem Machine.exec_cons_eq_some_iff {S E O : Type} (machine : Machine S E O)
    {start final : S} {event : E} {events : List E} {log : List O} :
    machine.exec start (event :: events) = some (final, log) ↔
      ∃ next emitted rest, machine.step start event = some (next, emitted) ∧
        machine.exec next events = some (final, rest) ∧ log = emitted ++ rest := by
  simp only [Machine.exec, Option.bind_eq_some_iff, Option.map_eq_some_iff, Prod.exists,
    Prod.mk.injEq]
  constructor
  · rintro ⟨next, emitted, hstep, last, rest, hexec, rfl, rfl⟩
    exact ⟨next, emitted, rest, hstep, hexec, rfl⟩
  · rintro ⟨next, emitted, rest, hstep, hexec, rfl⟩
    exact ⟨next, emitted, hstep, final, rest, hexec, rfl, rfl⟩

/-- A run of two consecutive event lists is a run of the first followed by a
    run of the second from the state reached. -/
theorem Machine.exec_append_eq_some_iff {S E O : Type} (machine : Machine S E O)
    {start final : S} {first second : List E} {log : List O} :
    machine.exec start (first ++ second) = some (final, log) ↔
      ∃ middle before after, machine.exec start first = some (middle, before) ∧
        machine.exec middle second = some (final, after) ∧ log = before ++ after := by
  induction first generalizing start log with
  | nil => simp
  | cons event events ih =>
    rw [List.cons_append, Machine.exec_cons_eq_some_iff]
    constructor
    · rintro ⟨next, emitted, rest, hstep, hexec, rfl⟩
      obtain ⟨middle, before, after, hfirst, hsecond, rfl⟩ := ih.mp hexec
      refine ⟨middle, emitted ++ before, after, ?_, hsecond, by simp⟩
      exact machine.exec_cons_eq_some_iff.mpr ⟨next, emitted, before, hstep, hfirst, rfl⟩
    · rintro ⟨middle, before, after, hfirst, hsecond, rfl⟩
      obtain ⟨next, emitted, rest, hstep, hexec, rfl⟩ := machine.exec_cons_eq_some_iff.mp hfirst
      exact ⟨next, emitted, rest ++ after, hstep,
        ih.mpr ⟨middle, rest, after, hexec, hsecond, rfl⟩, by simp⟩

theorem Machine.exec_append {S E O : Type} (machine : Machine S E O)
    {start middle final : S} {first second : List E} {before after : List O}
    (hfirst : machine.exec start first = some (middle, before))
    (hsecond : machine.exec middle second = some (final, after)) :
    machine.exec start (first ++ second) = some (final, before ++ after) :=
  machine.exec_append_eq_some_iff.mpr ⟨middle, before, after, hfirst, hsecond, rfl⟩

theorem Machine.exec_singleton {S E O : Type} (machine : Machine S E O)
    {start next : S} {event : E} {emitted : List O}
    (hstep : machine.step start event = some (next, emitted)) :
    machine.exec start [event] = some (next, emitted) := by
  simp [Machine.exec, hstep]

/-- Extending a run by one enabled event. -/
theorem Machine.exec_snoc {S E O : Type} (machine : Machine S E O)
    {start s next : S} {events : List E} {event : E} {log emitted : List O}
    (hexec : machine.exec start events = some (s, log))
    (hstep : machine.step s event = some (next, emitted)) :
    machine.exec start (events ++ [event]) = some (next, log ++ emitted) :=
  machine.exec_append hexec (machine.exec_singleton hstep)

/-- The last step of a nonempty run. -/
theorem Machine.exec_snoc_eq_some {S E O : Type} (machine : Machine S E O)
    {start final : S} {events : List E} {event : E} {log : List O}
    (hexec : machine.exec start (events ++ [event]) = some (final, log)) :
    ∃ s before emitted, machine.exec start events = some (s, before) ∧
      machine.step s event = some (final, emitted) ∧ log = before ++ emitted := by
  obtain ⟨s, before, after, hfirst, hlast, rfl⟩ := machine.exec_append_eq_some_iff.mp hexec
  obtain ⟨next, emitted, rest, hstep, hrest, rfl⟩ := machine.exec_cons_eq_some_iff.mp hlast
  simp only [Machine.exec_nil, Option.some.injEq, Prod.mk.injEq] at hrest
  obtain ⟨rfl, rfl⟩ := hrest
  exact ⟨s, before, emitted, hfirst, hstep, by simp⟩

/-- Induction over runs. What holds of the empty run, and is kept by every
    step taken after a run it holds of, holds of every run. The relation may
    mention the events, the state reached and everything emitted. -/
theorem Machine.exec_induct {S E O : Type} (machine : Machine S E O) {start : S}
    (Inv : List E → S → List O → Prop) (hinit : Inv [] start [])
    (hstep : ∀ events s log event next emitted, machine.exec start events = some (s, log) →
      Inv events s log → machine.step s event = some (next, emitted) →
      Inv (events ++ [event]) next (log ++ emitted)) :
    ∀ events s log, machine.exec start events = some (s, log) → Inv events s log := by
  intro events
  induction events using List.reverseRecOn with
  | nil =>
    intro s log hexec
    simp only [Machine.exec_nil, Option.some.injEq, Prod.mk.injEq] at hexec
    obtain ⟨rfl, rfl⟩ := hexec
    exact hinit
  | append_singleton events event ih =>
    intro final log hexec
    obtain ⟨s, before, emitted, hbefore, hlast, rfl⟩ := machine.exec_snoc_eq_some hexec
    exact hstep events s before event final emitted hbefore (ih s before hbefore) hlast

/-- Induction over the states of runs, for invariants that mention neither the
    events nor what was emitted. -/
theorem Machine.exec_invariant {S E O : Type} (machine : Machine S E O) {start : S}
    (Inv : S → Prop) (hinit : Inv start)
    (hstep : ∀ s event next emitted, Inv s → machine.step s event = some (next, emitted) →
      Inv next)
    {events : List E} {s : S} {log : List O}
    (hexec : machine.exec start events = some (s, log)) : Inv s :=
  machine.exec_induct (fun _ s _ => Inv s) hinit
    (fun _ s _ event next emitted _ hinv hnext => hstep s event next emitted hinv hnext)
    events s log hexec

theorem append_eq_append_cons_iff {O : Type} {emitted rest before after : List O} {seen : O} :
    emitted ++ rest = before ++ seen :: after ↔
      (∃ right, emitted = before ++ seen :: right ∧ after = right ++ rest) ∨
        ∃ middle, before = emitted ++ middle ∧ rest = middle ++ seen :: after := by
  rw [List.append_eq_append_iff]
  constructor
  · rintro (⟨middle, hbefore, hrest⟩ | ⟨middle, hemitted, hseen⟩)
    · exact .inr ⟨middle, hbefore, hrest⟩
    · cases middle with
      | nil => exact .inr ⟨[], by simpa using hemitted.symm, by simpa using hseen.symm⟩
      | cons head middle =>
        rw [List.cons_append, List.cons.injEq] at hseen
        obtain ⟨rfl, hafter⟩ := hseen
        exact .inl ⟨middle, hemitted, hafter⟩
  · rintro (⟨right, rfl, rfl⟩ | ⟨middle, hbefore, hrest⟩)
    · exact .inr ⟨seen :: right, rfl, rfl⟩
    · exact .inl ⟨middle, hbefore, hrest⟩

/-- Whatever a run emits is emitted by one of its steps. -/
theorem Machine.exec_split {S E O : Type} (machine : Machine S E O) {start final : S}
    {events : List E} {before after : List O} {seen : O}
    (hexec : machine.exec start events = some (final, before ++ seen :: after)) :
    ∃ first event second s next earlier left right,
      events = first ++ event :: second ∧ machine.exec start first = some (s, earlier) ∧
      machine.step s event = some (next, left ++ seen :: right) ∧
      machine.exec s (event :: second) = some (final, left ++ seen :: after) ∧
      before = earlier ++ left := by
  induction events generalizing start before with
  | nil => simp at hexec
  | cons event events ih =>
    obtain ⟨next, emitted, rest, hstep, hrest, hlog⟩ := machine.exec_cons_eq_some_iff.mp hexec
    rcases append_eq_append_cons_iff.mp hlog.symm with ⟨right, rfl, rfl⟩ | ⟨middle, rfl, rfl⟩
    · exact ⟨[], event, events, start, next, [], before, right, rfl, rfl, hstep, hexec, rfl⟩
    · obtain ⟨first, event', second, s, last, earlier, left, right, rfl, hfirst, hemit, hsecond,
        rfl⟩ := ih hrest
      refine ⟨event :: first, event', second, s, last, emitted ++ earlier, left, right, rfl, ?_,
        hemit, hsecond, by simp⟩
      exact machine.exec_cons_eq_some_iff.mpr ⟨next, emitted, earlier, hstep, hfirst, rfl⟩

/-- Every step of the run meets `Guard`, a relation between the state before
    the step and its event. -/
def Machine.Along {S E O : Type} (machine : Machine S E O) (Guard : S → E → Prop) :
    S → List E → Prop
  | _, [] => True
  | start, event :: events =>
    Guard start event ∧ ∀ next emitted, machine.step start event = some (next, emitted) →
      machine.Along Guard next events

theorem Machine.along_cons {S E O : Type} (machine : Machine S E O) {Guard : S → E → Prop}
    {start next : S} {event : E} {events : List E} {emitted : List O}
    (hguard : Guard start event) (hstep : machine.step start event = some (next, emitted))
    (hrest : machine.Along Guard next events) : machine.Along Guard start (event :: events) := by
  refine ⟨hguard, ?_⟩
  intro other emitted' hother
  rw [hstep, Option.some.injEq, Prod.mk.injEq] at hother
  obtain ⟨rfl, rfl⟩ := hother
  exact hrest

/-- A guard that can be tested can be tested along a run. -/
instance Machine.decidableAlong {S E O : Type} (machine : Machine S E O) (Guard : S → E → Prop)
    [∀ s event, Decidable (Guard s event)] : ∀ s events, Decidable (machine.Along Guard s events)
  | _, [] => isTrue trivial
  | s, event :: events =>
    match hstep : machine.step s event with
    | none => decidable_of_iff (Guard s event)
      ⟨fun hguard => ⟨hguard, fun _ _ hnext => by rw [hstep] at hnext; cases hnext⟩, And.left⟩
    | some (next, _) =>
      have := machine.decidableAlong Guard next events
      decidable_of_iff (Guard s event ∧ machine.Along Guard next events)
        ⟨fun halong => machine.along_cons halong.1 hstep halong.2,
          fun halong => ⟨halong.1, halong.2 next _ hstep⟩⟩

theorem Machine.along_append {S E O : Type} (machine : Machine S E O) {Guard : S → E → Prop}
    {start middle : S} {first second : List E} {log : List O}
    (halong : machine.Along Guard start (first ++ second))
    (hfirst : machine.exec start first = some (middle, log)) :
    machine.Along Guard start first ∧ machine.Along Guard middle second := by
  induction first generalizing start log with
  | nil =>
    simp only [Machine.exec_nil, Option.some.injEq, Prod.mk.injEq] at hfirst
    obtain ⟨rfl, rfl⟩ := hfirst
    exact ⟨trivial, halong⟩
  | cons event events ih =>
    obtain ⟨hguard, hrest⟩ := halong
    obtain ⟨next, emitted, rest, hstep, hexec, rfl⟩ := machine.exec_cons_eq_some_iff.mp hfirst
    obtain ⟨hfirst, hmiddle⟩ := ih (hrest next emitted hstep) hexec
    exact ⟨machine.along_cons hguard hstep hfirst, hmiddle⟩

/-- Induction over runs all of whose steps meet the guard. -/
theorem Machine.along_induct {S E O : Type} (machine : Machine S E O)
    {Guard : S → E → Prop} {start : S} (Inv : List E → S → List O → Prop)
    (hinit : Inv [] start [])
    (hstep : ∀ events s log event next emitted, Inv events s log → Guard s event →
      machine.step s event = some (next, emitted) → Inv (events ++ [event]) next (log ++ emitted))
    {events : List E} {s : S} {log : List O}
    (hexec : machine.exec start events = some (s, log))
    (halong : machine.Along Guard start events) : Inv events s log := by
  refine machine.exec_induct
    (fun events s log => machine.Along Guard start events → Inv events s log) (fun _ => hinit) ?_
    events s log hexec halong
  intro events s log event next emitted hbefore ih hnext halong
  obtain ⟨hfirst, hlast⟩ := machine.along_append halong hbefore
  exact hstep events s log event next emitted (ih hfirst) hlast.1 hnext

/-- A run of `events` takes `event` from `s` to `next` and has `later` still to
    come. -/
def Machine.Takes {S E O : Type} (machine : Machine S E O) (start : S) (events : List E)
    (s : S) (event : E) (next : S) (later : List E) : Prop :=
  ∃ first log emitted, events = first ++ event :: later ∧
    machine.exec start first = some (s, log) ∧ machine.step s event = some (next, emitted)

theorem Machine.takes_cons {S E O : Type} (machine : Machine S E O) {start middle s next : S}
    {first event : E} {events later : List E} {emitted : List O}
    (hstep : machine.step start first = some (middle, emitted))
    (htakes : machine.Takes middle events s event next later) :
    machine.Takes start (first :: events) s event next later := by
  obtain ⟨before, log, seen, rfl, hexec, hnext⟩ := htakes
  refine ⟨first :: before, emitted ++ log, seen, rfl, ?_, hnext⟩
  exact machine.exec_cons_eq_some_iff.mpr ⟨middle, emitted, log, hstep, hexec, rfl⟩

/-- What every step that a run takes is known to meet, the run meets. -/
theorem Machine.along_of_takes {S E O : Type} (machine : Machine S E O) {Guard : S → E → Prop}
    {start final : S} {events : List E} {log : List O}
    (hexec : machine.exec start events = some (final, log))
    (htakes : ∀ s event next later, machine.Takes start events s event next later →
      Guard s event) : machine.Along Guard start events := by
  induction events generalizing start log with
  | nil => trivial
  | cons event events ih =>
    obtain ⟨next, emitted, rest, hstep, hrest, _⟩ := machine.exec_cons_eq_some_iff.mp hexec
    have hfirst := htakes start event next events ⟨[], [], emitted, rfl, rfl, hstep⟩
    refine machine.along_cons hfirst hstep (ih hrest ?_)
    intro s event next later hlater
    exact htakes s event next later (machine.takes_cons hstep hlater)

theorem Machine.guard_of_takes {S E O : Type} (machine : Machine S E O) {Guard : S → E → Prop}
    {start s next : S} {event : E} {events later : List E}
    (halong : machine.Along Guard start events)
    (htakes : machine.Takes start events s event next later) : Guard s event := by
  obtain ⟨first, log, emitted, rfl, hexec, _⟩ := htakes
  exact (machine.along_append halong hexec).2.1

end topview.transition
