import TopView.Session.Send
import TopView.Transition.Machine
import Mathlib.Data.List.Basic

open topview.transition

namespace topview.session

/-- The sending side of a socket. An `async_write` writes its buffer with one
    `async_write_some` after the other, and the next one is only issued when the
    completion of the previous one is handled. -/
structure Wire where
  /-- The bytes of the outstanding `async_write_some` operations, as issued. -/
  issued : List (List UInt8)
  /-- What is left of the `async_write` operations whose last `async_write_some`
      has completed and whose completion has not been handled. -/
  completed : List (List UInt8)
  deriving DecidableEq, Repr

inductive WireEvent where
  /-- `Session::Send` is called with a batch. -/
  | send (packet_list : List (List UInt8))
  /-- The socket accepts `count` bytes of the `async_write_some` issued first. -/
  | write_some (count : Nat)
  /-- A completion is handled. What is left is issued behind everything else. -/
  | go_on (index : Nat)
  deriving DecidableEq, Repr

def Wire.start : Wire := { issued := [], completed := [] }

/-- One step of the sending side. It emits the bytes that reach the socket. -/
def Wire.step (wire : Wire) : WireEvent → Option (Wire × List UInt8)
  | .send packet_list =>
    (send packet_list).map fun result => (result.elim wire fun cursor =>
      { wire with issued := wire.issued ++ [cursor.send_buffer] }, [])
  | .write_some count =>
    match wire.issued with
    | [] => none
    | op :: rest =>
      if 0 < count ∧ count ≤ op.length then
        some ({ issued := rest, completed := wire.completed ++ [op.drop count] }, op.take count)
      else none
  | .go_on index =>
    wire.completed[index]?.map fun left =>
      ({ issued := if left = [] then wire.issued else wire.issued ++ [left]
         completed := wire.completed.eraseIdx index }, [])

def wireMachine : Machine Wire WireEvent UInt8 := ⟨Wire.step⟩

/-- The batches that a run sends. -/
def batches (events : List WireEvent) : List (List (List UInt8)) :=
  events.filterMap fun event => match event with
    | .send packet_list => some packet_list
    | _ => none

/-- What is left of the operations that were cut short and not issued again. -/
def Wire.cut (wire : Wire) : List (List UInt8) :=
  wire.completed.filter fun left => !left.isEmpty

/-- An operation is cut short only while no other one is issued, and a batch is
    sent only while none is waiting to be issued again. -/
def Undisturbed (wire : Wire) : WireEvent → Prop
  | .send packet_list => packet_list ≠ [] → wire.cut = []
  | .write_some count => ∀ op rest, wire.issued = op :: rest → rest ≠ [] → count = op.length
  | .go_on _ => True

instance (wire : Wire) : ∀ event, Decidable (Undisturbed wire event)
  | .send packet_list => inferInstanceAs (Decidable (packet_list ≠ [] → wire.cut = []))
  | .write_some count =>
    match hissued : wire.issued with
    | [] => isTrue fun _ _ hcons => by rw [hissued] at hcons; cases hcons
    | first :: others => decidable_of_iff (others ≠ [] → count = first.length)
      ⟨fun hwhole op rest hcons => by
        obtain ⟨rfl, rfl⟩ := List.cons.inj (hissued.symm.trans hcons)
        exact hwhole, fun hguard => hguard first others hissued⟩
  | .go_on _ => isTrue trivial

/-- The bytes written, those cut short and those issued make up the batches in
    order, and at most one operation is cut short at a time. -/
structure Wire.Inv (events : List WireEvent) (wire : Wire) (sent : List UInt8) : Prop where
  account : (batches events).flatMap encode = sent ++ (wire.cut.flatten ++ wire.issued.flatten)
  cut_length : wire.cut.length ≤ 1
  cut_eq_nil : wire.issued ≠ [] → wire.cut = []

theorem Wire.Inv.prefix_of_batches {events : List WireEvent} {wire : Wire} {sent : List UInt8}
    (hinv : Wire.Inv events wire sent) : sent <+: (batches events).flatMap encode :=
  ⟨_, hinv.account.symm⟩

theorem Wire.cut_snoc (issued completed : List (List UInt8)) (left : List UInt8) :
    Wire.cut ⟨issued, completed ++ [left]⟩ =
      Wire.cut ⟨issued, completed⟩ ++ if left = [] then [] else [left] := by
  simp only [Wire.cut, List.filter_append, List.filter_singleton]
  cases left <;> simp

/-- Handling a completion takes what it left out of the cut operations. -/
theorem Wire.cut_perm {wire : Wire} {index : Nat} {left : List UInt8}
    (hleft : wire.completed[index]? = some left) (issued : List (List UInt8)) :
    wire.cut.Perm ((if left = [] then [] else [left]) ++
      Wire.cut ⟨issued, wire.completed.eraseIdx index⟩) := by
  obtain ⟨hindex, rfl⟩ := List.getElem?_eq_some_iff.mp hleft
  have hperm := (List.perm_cons_erase (List.getElem_mem hindex)).trans
    ((List.erase_getElem hindex).cons _)
  refine (hperm.filter fun left => !left.isEmpty).trans ?_
  rw [List.filter_cons]
  cases wire.completed[index] with
  | nil => exact .refl _
  | cons byte bytes => exact .refl _

/-- With at most one cut operation, a completion that leaves something is the
    one of that operation, and any other completion leaves it alone. -/
theorem Wire.cut_of_go_on {wire : Wire} (hcut : wire.cut.length ≤ 1) {index : Nat}
    {left : List UInt8} (hleft : wire.completed[index]? = some left)
    (issued : List (List UInt8)) :
    left = [] ∧ Wire.cut ⟨issued, wire.completed.eraseIdx index⟩ = wire.cut ∨
      left ≠ [] ∧ wire.cut = [left] ∧
        Wire.cut ⟨issued, wire.completed.eraseIdx index⟩ = [] := by
  have hperm := Wire.cut_perm hleft issued
  by_cases hempty : left = []
  · rw [if_pos hempty, List.nil_append] at hperm
    refine .inl ⟨hempty, ?_⟩
    cases hwire : wire.cut with
    | nil => exact List.nil_perm.mp (hwire ▸ hperm)
    | cons first rest =>
      rw [hwire, List.length_cons] at hcut
      obtain rfl := List.eq_nil_of_length_eq_zero (show rest.length = 0 by omega)
      exact (List.singleton_perm.mp (hwire ▸ hperm)).symm
  · rw [if_neg hempty] at hperm
    have hlength := hperm.length_eq
    rw [List.length_append, List.length_singleton] at hlength
    have hrest : Wire.cut ⟨issued, wire.completed.eraseIdx index⟩ = [] :=
      List.eq_nil_of_length_eq_zero (by omega)
    rw [hrest, List.append_nil] at hperm
    exact .inr ⟨hempty, hperm.eq_singleton, hrest⟩

theorem Wire.Inv.start : Wire.Inv [] Wire.start [] := ⟨rfl, Nat.zero_le _, fun _ => rfl⟩

theorem Wire.Inv.step {events : List WireEvent} {wire next : Wire} {sent emitted : List UInt8}
    {event : WireEvent} (hinv : Wire.Inv events wire sent) (hguard : Undisturbed wire event)
    (hstep : wire.step event = some (next, emitted)) :
    Wire.Inv (events ++ [event]) next (sent ++ emitted) := by
  have haccount := hinv.account
  cases event with
  | send packet_list =>
    have hbatches : (batches (events ++ [.send packet_list])).flatMap encode =
        (batches events).flatMap encode ++ encode packet_list := by
      simp [batches]
    rcases send_cases packet_list with ⟨_, hsend, hencode⟩ | ⟨hne, cursor, hsend, hencode⟩
    · simp only [Wire.step, hsend, Option.map_some, Option.elim_none, Option.some.injEq,
        Prod.mk.injEq] at hstep
      obtain ⟨rfl, rfl⟩ := hstep
      rw [List.append_nil]
      refine ⟨?_, hinv.cut_length, hinv.cut_eq_nil⟩
      rw [hbatches, hencode, List.append_nil, haccount]
    · simp only [Wire.step, hsend, Option.map_some, Option.elim_some, Option.some.injEq,
        Prod.mk.injEq] at hstep
      obtain ⟨rfl, rfl⟩ := hstep
      have hcut : wire.cut = [] := hguard hne
      refine ⟨?_, hinv.cut_length, fun _ => hcut⟩
      rw [hbatches, hencode, haccount]
      simp [Wire.cut] at hcut ⊢
  | write_some count =>
    have hbatches : batches (events ++ [.write_some count]) = batches events := by
      simp [batches]
    unfold Wire.step at hstep
    cases hissued : wire.issued with
    | nil => simp [hissued] at hstep
    | cons op rest =>
      have hcut := hinv.cut_eq_nil (by simp [hissued])
      simp only [hissued, Option.ite_none_right_eq_some, Option.some.injEq,
        Prod.mk.injEq] at hstep
      obtain ⟨⟨hpos, hle⟩, rfl, rfl⟩ := hstep
      have hnext := Wire.cut_snoc rest wire.completed (op.drop count)
      rw [show Wire.cut ⟨rest, wire.completed⟩ = wire.cut from rfl, hcut, List.nil_append] at hnext
      refine ⟨?_, ?_, ?_⟩
      · rw [hbatches, haccount, hcut, hnext, hissued]
        by_cases hwhole : op.drop count = []
        · rw [if_pos hwhole, List.take_of_length_le (by simpa using hwhole)]
          simp
        · rw [if_neg hwhole]
          simp only [List.flatten_nil, List.nil_append, List.flatten_cons, List.append_nil,
            List.append_assoc]
          rw [← List.append_assoc (op.take count), List.take_append_drop]
      · rw [hnext]
        split <;> simp
      · intro hne
        rw [hnext, if_pos]
        rw [hguard op rest hissued hne, List.drop_length]
  | go_on index =>
    have hbatches : batches (events ++ [.go_on index]) = batches events := by
      simp [batches]
    unfold Wire.step at hstep
    simp only [Option.map_eq_some_iff, Prod.mk.injEq] at hstep
    obtain ⟨left, hleft, rfl, rfl⟩ := hstep
    rw [List.append_nil]
    rcases Wire.cut_of_go_on hinv.cut_length hleft
      (if left = [] then wire.issued else wire.issued ++ [left]) with
      ⟨hempty, hcut⟩ | ⟨hne, hcut, hrest⟩
    · rw [if_pos hempty] at hcut ⊢
      refine ⟨?_, ?_, ?_⟩
      · rw [hbatches, haccount, hcut]
      · rw [hcut]
        exact hinv.cut_length
      · rw [hcut]
        exact hinv.cut_eq_nil
    · have hissued : wire.issued = [] := by
        by_contra hissued
        rw [hinv.cut_eq_nil hissued] at hcut
        cases hcut
      rw [if_neg hne] at hrest ⊢
      refine ⟨?_, ?_, fun _ => hrest⟩
      · rw [hbatches, haccount, hcut, hrest, hissued]
        simp
      · rw [hrest]
        exact Nat.zero_le _

/-- The bytes on the socket are at all times a prefix of the batches, one after
    the other, in every run in which no operation is cut short while another
    one is issued and no batch is sent while one waits to be issued again. -/
theorem wire_prefix_of_undisturbed {events : List WireEvent} {wire : Wire} {sent : List UInt8}
    (hexec : wireMachine.exec Wire.start events = some (wire, sent))
    (hguard : wireMachine.Along Undisturbed Wire.start events) :
    sent <+: (batches events).flatMap encode :=
  (wireMachine.along_induct Wire.Inv Wire.Inv.start
    (fun _ _ _ _ _ _ hinv hevent hstep => hinv.step hevent hstep) hexec hguard).prefix_of_batches

/-- Two successive sends. The socket takes the first buffer in two pieces. -/
def twoSends : List WireEvent :=
  [.send [[7]], .write_some 2, .go_on 0, .write_some 3, .go_on 0, .send [[8]], .write_some 5]

theorem wire_prefix_of_undisturbed_two :
    batches twoSends = [[[7]], [[8]]] ∧
      [5, 0, 2, 0, 7, 5, 0, 2, 0, 8] <+: (batches twoSends).flatMap encode :=
  ⟨rfl, @wire_prefix_of_undisturbed twoSends ⟨[], [[]]⟩ [5, 0, 2, 0, 7, 5, 0, 2, 0, 8] (by decide)
    (by decide)⟩

/-- Two batches whose bytes mix, because the first one is cut short when the
    second one has already been issued. -/
theorem wire_mixes_of_two_batches :
    ∃ wire sent, wireMachine.exec Wire.start
        [.send [[7]], .send [[8]], .write_some 2, .write_some 5, .go_on 0, .write_some 3] =
          some (wire, sent) ∧
      ¬ sent <+: (batches [.send [[7]], .send [[8]], .write_some 2, .write_some 5, .go_on 0,
        .write_some 3]).flatMap encode :=
  ⟨⟨[], [[], []]⟩, [5, 0, 5, 0, 2, 0, 8, 2, 0, 7], by decide, by decide⟩

end topview.session
