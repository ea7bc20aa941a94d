import TopView.Transition.Machine

namespace topview.transition

/-- A queue of at most `capacity` items, the oldest one first. -/
structure Queue (T : Type) (capacity : Nat) where
  items : List T
  length_le : items.length ≤ capacity

inductive QueueRequest (T : Type) where
  | append (items : List T)
  | drop (count : Nat)
  deriving DecidableEq, Repr

def Queue.empty (T : Type) (capacity : Nat) : Queue T capacity := ⟨[], Nat.zero_le capacity⟩

def Queue.drop {T : Type} {capacity : Nat} (self : Queue T capacity) (count : Nat) :
    Queue T capacity where
  items := self.items.drop count
  length_le := Nat.le_trans (List.drop_sublist count self.items).length_le self.length_le

/-- Appending is possible within the capacity only. Dropping more items than
    there are drops none, and what is dropped is emitted. -/
def Queue.step {T : Type} {capacity : Nat} (self : Queue T capacity) :
    QueueRequest T → Option (Queue T capacity × List T)
  | .append items =>
    if hroom : (self.items ++ items).length ≤ capacity then
      some (⟨self.items ++ items, hroom⟩, [])
    else none
  | .drop count =>
    if count ≤ self.items.length then some (self.drop count, self.items.take count)
    else some (self, [])

def queueMachine (T : Type) (capacity : Nat) : Machine (Queue T capacity) (QueueRequest T) T where
  step := Queue.step

def QueueRequest.appended {T : Type} : QueueRequest T → List T
  | .append items => items
  | .drop _ => []

theorem Queue.step_append_eq_some_iff {T : Type} {capacity : Nat} {self next : Queue T capacity}
    {items emitted : List T} :
    self.step (.append items) = some (next, emitted) ↔
      ∃ hroom : (self.items ++ items).length ≤ capacity,
        ⟨self.items ++ items, hroom⟩ = next ∧ [] = emitted := by
  simp only [Queue.step, Option.dite_none_right_eq_some, Option.some.injEq, Prod.mk.injEq]

/-- A step moves items from the request into the queue, and from the queue to
    what is emitted, in order. -/
theorem Queue.step_conserves {T : Type} {capacity : Nat} {self next : Queue T capacity}
    {request : QueueRequest T} {emitted : List T}
    (hstep : self.step request = some (next, emitted)) :
    self.items ++ request.appended = emitted ++ next.items := by
  cases request with
  | append items =>
    obtain ⟨_, rfl, rfl⟩ := Queue.step_append_eq_some_iff.mp hstep
    rfl
  | drop count =>
    rw [QueueRequest.appended, List.append_nil]
    by_cases hcount : count ≤ self.items.length
    · simp only [Queue.step, if_pos hcount, Option.some.injEq, Prod.mk.injEq] at hstep
      obtain ⟨rfl, rfl⟩ := hstep
      exact (List.take_append_drop count self.items).symm
    · simp only [Queue.step, if_neg hcount, Option.some.injEq, Prod.mk.injEq] at hstep
      obtain ⟨rfl, rfl⟩ := hstep
      rfl

/-- First in, first out. Everything ever appended has been dropped in the same
    order, up to what is still in the queue. -/
theorem Queue.exec_conserves {T : Type} {capacity : Nat} {start final : Queue T capacity}
    {requests : List (QueueRequest T)} {log : List T}
    (hexec : (queueMachine T capacity).exec start requests = some (final, log)) :
    start.items ++ requests.flatMap QueueRequest.appended = log ++ final.items := by
  refine (queueMachine T capacity).exec_induct (fun requests s log =>
    start.items ++ requests.flatMap QueueRequest.appended = log ++ s.items) (by simp) ?_
    requests final log hexec
  intro requests s log request next emitted _ ih hstep
  have hmoved := Queue.step_conserves hstep
  rw [List.flatMap_append, ← List.append_assoc, ih, List.append_assoc, List.append_assoc,
    ← hmoved]
  simp

end topview.transition
