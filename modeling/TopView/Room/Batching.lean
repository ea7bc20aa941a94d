import TopView.Room.Delivery
import TopView.Session.Send

open topview.session topview.transition

namespace topview.room

/-- The players of a room as `EnterRoom` makes them, one for each session. -/
structure Roster where
  players : Players
  own : ∀ first second, players.Holds first → players.Holds second →
    first.session = second.session → first = second

/-- The bytes of all the buffers that `Send` builds for a session in a run. -/
def wire (session : Nat) (log : List (Observation (List UInt8))) : List UInt8 :=
  log.flatMap fun seen => match seen with
    | .sent player batch => if player.session = session then encode batch else []
    | _ => []

/-- Everything that has been appended has been sent. -/
structure System.Flushed {M : Type} (system : System M) : Prop where
  pending_msg : system.pending_msg = []
  players_snapshot : system.flush.players_snapshot = []

/-- A run of the room that has the players of a roster in it, whose sessions are
    alive, and that has appended the payloads and flushed them. -/
structure FlushedRun (roster : Roster) (payloads : List (List UInt8))
    (events : List (RoomEvent (List UInt8))) (system : System (List UInt8))
    (log : List (Observation (List UInt8))) : Prop where
  exec : (roomMachine (List UInt8)).exec (.start (List UInt8)) events = some (system, log)
  present : ∀ batch players_snapshot, .swapped batch players_snapshot ∈ log →
    players_snapshot.Perm roster.players.entries
  alive : ∀ player, roster.players.Holds player → player.session ∉ system.expired
  appended_eq : appended log = payloads
  flushed : system.Flushed

/-- In a flushed run each player of the roster is sent the payloads, in order. -/
theorem FlushedRun.receivedBy_eq {roster : Roster} {payloads : List (List UInt8)}
    {events : List (RoomEvent (List UInt8))} {system : System (List UInt8)}
    {log : List (Observation (List UInt8))} (hrun : FlushedRun roster payloads events system log)
    {player : Player} (hholds : roster.players.Holds player) :
    receivedBy player log = payloads := by
  have hhistory := System.history_of_exec hrun.exec
  have hpresent : ∀ round ∈ rounds log, player ∈ round.players := by
    intro round hmem
    have hswap : round.swap ∈ swaps log := by
      rw [← map_swap_rounds]
      exact List.mem_map_of_mem hmem
    have hperm := hrun.present _ _ (mem_of_mem_swaps hswap)
    have hentry : (⟨player.object_id, player⟩ : Entry) ∈ roster.players.entries :=
      Players.mem_entries_iff.mpr ⟨rfl, hholds⟩
    exact List.mem_map_of_mem (hperm.mem_iff.mpr hentry)
  obtain ⟨kept, rest, hkept, hreceived, hrest⟩ := hhistory.receivedBy_eq (hrun.alive player hholds)
    (List.nil_append _).symm (by simp) hpresent
  rw [hrest hrun.flushed.players_snapshot, List.append_nil] at hkept
  rw [hreceived, ← hkept, ← hrun.appended_eq, hhistory.account, hrun.flushed.pending_msg,
    List.append_nil]

/-- Whoever is sent to is a player of the roster. -/
theorem FlushedRun.holds_of_sent {roster : Roster} {payloads : List (List UInt8)}
    {events : List (RoomEvent (List UInt8))} {system : System (List UInt8)}
    {log : List (Observation (List UInt8))} (hrun : FlushedRun roster payloads events system log)
    {player : Player} {batch : List (List UInt8)} (hsent : .sent player batch ∈ log) :
    roster.players.Holds player := by
  obtain ⟨before, after, rfl⟩ := List.append_of_mem hsent
  have hexec := hrun.exec
  obtain ⟨first, event, second, earlier, next, seen, left, right, _, hfirst, hstep, _, rfl⟩ :=
    (roomMachine (List UInt8)).exec_split hexec
  obtain ⟨entry, later, hpc, rfl⟩ :=
    System.sending_of_sent hstep (List.mem_append_right _ List.mem_cons_self)
  obtain ⟨others, round, hrounds, _, hplayers, _⟩ :=
    (System.history_of_exec hfirst).current _ _ hpc
  have hswap : round.swap ∈ swaps seen := by
    rw [← map_swap_rounds, hrounds]
    simp
  have hmem : Observation.swapped round.batch round.players_snapshot ∈
      (seen ++ left) ++ .sent entry.2 batch :: after :=
    List.mem_append_left _ (List.mem_append_left _ (mem_of_mem_swaps hswap))
  have hperm := hrun.present _ _ hmem
  have hplayer : entry.2 ∈ round.players := by
    rw [← hplayers]
    simp
  obtain ⟨found, hfound, heq⟩ := List.mem_map.mp hplayer
  rw [← heq]
  exact (Players.mem_entries_iff.mp (hperm.mem_iff.mp hfound)).2

/-- `Send` maps the payloads of a session to their packets, however they are
    grouped. -/
theorem FlushedRun.wire_eq {roster : Roster} {payloads : List (List UInt8)}
    (hsize : ∀ payload ∈ payloads, payload.length ≤ 65531)
    {events : List (RoomEvent (List UInt8))} {system : System (List UInt8)}
    {log : List (Observation (List UInt8))} (hrun : FlushedRun roster payloads events system log)
    {player : Player} (hholds : roster.players.Holds player) :
    wire player.session log = payloads.flatMap fun payload => encode [payload] := by
  have hshort : ∀ payload ∈ payloads, payload.length < 2 ^ 16 := by
    intro payload hmem
    have := hsize payload hmem
    omega
  have hreceived := hrun.receivedBy_eq hholds
  have hwire : wire player.session log = (receivedBy player log).flatMap packetBytes := by
    rw [wire, receivedBy, List.flatMap_assoc]
    apply List.flatMap_congr
    intro seen hmem
    cases seen with
    | sent other batch =>
      have hsame : other.session = player.session ↔ other = player := by
        constructor
        · exact roster.own other player (hrun.holds_of_sent hmem) hholds
        · rintro rfl
          rfl
      simp only [hsame]
      split
      · next heq =>
        subst heq
        apply encode_eq_flatMap
        intro payload hpayload
        apply hshort payload
        rw [← hreceived]
        exact List.mem_flatMap.mpr ⟨_, hmem, by simpa using hpayload⟩
      · rfl
    | _ => rfl
  rw [hwire, hreceived]
  apply List.flatMap_congr
  intro payload hmem
  exact (encode_singleton (hshort payload hmem)).symm

/-- Batching cannot be seen on the wire. Two runs of the room that append the
    same payloads send the same bytes to a session, those of the payloads sent
    one at a time, wherever the consumer has swapped the queues. -/
theorem wire_eq_of_flushed (roster : Roster) (payloads : List (List UInt8))
    (hsize : ∀ payload ∈ payloads, payload.length ≤ 65531)
    (first second : List (RoomEvent (List UInt8)))
    (first_system second_system : System (List UInt8))
    (first_log second_log : List (Observation (List UInt8)))
    (hfirst : FlushedRun roster payloads first first_system first_log)
    (hsecond : FlushedRun roster payloads second second_system second_log)
    (player : Player) (hholds : roster.players.Holds player) :
    wire player.session first_log = wire player.session second_log ∧
      wire player.session first_log = payloads.flatMap fun payload => encode [payload] := by
  have hwire := hfirst.wire_eq hsize hholds
  exact ⟨hwire.trans (hsecond.wire_eq hsize hholds).symm, hwire⟩

/-- A single player. -/
def soloRoster : Roster where
  players := Players.empty.insert ⟨0, true, 0⟩
  own := by
    intro first second hfirst hsecond _
    have hsolo : ∀ player, (Players.empty.insert ⟨0, true, 0⟩).Holds player →
        player = ⟨0, true, 0⟩ := by
      intro player hholds
      rcases Players.holds_insert_iff.mp hholds with heq | ⟨_, hnone⟩
      · exact heq
      · cases hnone
    rw [hsolo first hfirst, hsolo second hsecond]

/-- Two payloads in two rounds. -/
def apart : List (RoomEvent (List UInt8)) :=
  [.enter_object ⟨0, true, 0⟩, .push_etc_job 0 ⟨some [65]⟩, .wait, .execute,
    .swap [⟨0, ⟨0, true, 0⟩⟩], .send, .end_round, .notify_one 0, .push_etc_job 0 ⟨some [66]⟩, .wait,
    .execute, .swap [⟨0, ⟨0, true, 0⟩⟩], .send]

/-- The same payloads in one round. -/
def together : List (RoomEvent (List UInt8)) :=
  [.enter_object ⟨0, true, 0⟩, .push_etc_job 0 ⟨some [65]⟩, .push_etc_job 1 ⟨some [66]⟩, .wait,
    .execute, .execute, .swap [⟨0, ⟨0, true, 0⟩⟩], .send]

/-- What is to be checked of a run that the single player is in. -/
def flushes (system : System (List UInt8)) (log : List (Observation (List UInt8))) : Bool :=
  ((swaps log).all fun swap => decide (swap.2.Perm soloRoster.players.entries)) &&
    system.expired.isEmpty && system.pending_msg.isEmpty && system.flush.players_snapshot.isEmpty

theorem exists_flushedRun {events : List (RoomEvent (List UInt8))} {payloads : List (List UInt8)}
    (hrun : ((roomMachine (List UInt8)).exec (.start (List UInt8)) events).map (fun result =>
      (flushes result.1 result.2, appended result.2)) = some (true, payloads)) :
    ∃ system log, FlushedRun soloRoster payloads events system log := by
  obtain ⟨⟨system, log⟩, hexec, hresult⟩ := Option.map_eq_some_iff.mp hrun
  obtain ⟨hflushes, happended⟩ := Prod.mk.inj hresult
  simp only [flushes, Bool.and_eq_true, List.all_eq_true, decide_eq_true_eq,
    List.isEmpty_iff] at hflushes
  obtain ⟨⟨⟨hswaps, hexpired⟩, hpending⟩, hsnapshot⟩ := hflushes
  refine ⟨system, log, hexec, ?_, ?_, happended, hpending, hsnapshot⟩
  · intro batch players_snapshot hmem
    exact hswaps (batch, players_snapshot) (List.mem_filterMap.mpr ⟨_, hmem, rfl⟩)
  · intro player _
    rw [hexpired]
    exact List.not_mem_nil

theorem wire_eq_of_flushed_two : ∃ first_system second_system first_log second_log,
    FlushedRun soloRoster [[65], [66]] apart first_system first_log ∧
      FlushedRun soloRoster [[65], [66]] together second_system second_log ∧
      wire 0 first_log = wire 0 second_log ∧
      wire 0 first_log = [[65], [66]].flatMap fun payload => encode [payload] := by
  obtain ⟨first_system, first_log, hfirst⟩ :=
    @exists_flushedRun apart [[65], [66]] (by decide +kernel)
  obtain ⟨second_system, second_log, hsecond⟩ :=
    @exists_flushedRun together [[65], [66]] (by decide +kernel)
  have hwire := wire_eq_of_flushed soloRoster [[65], [66]] (by decide) apart together first_system
    second_system first_log second_log hfirst hsecond ⟨0, true, 0⟩ rfl
  exact ⟨first_system, second_system, first_log, second_log, hfirst, hsecond, hwire⟩

end topview.room
