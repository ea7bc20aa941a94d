import TopView.Room.Delivery
import TopView.Server.RoomView
import TopView.Server.Sessions

open topview.packet_handler topview.room topview.session topview.transition

namespace topview.server

theorem Server.client_no_le_of_exec {parse : List UInt8 → Option (List UInt8)}
    {start server : Server} {events : List ServerEvent} {log : List ServerObservation}
    (hexec : (serverMachine parse).exec start events = some (server, log)) :
    start.client_no ≤ server.client_no := by
  refine (serverMachine parse).exec_invariant (fun server => start.client_no ≤ server.client_no)
    (Nat.le_refl _) ?_ hexec
  intro server event next emitted hle hstep
  exact Nat.le_trans hle (Server.client_no_le_of_step hstep)

/-- A player enters in a step that shows nothing else. -/
theorem entered_of_step {parse : List UInt8 → Option (List UInt8)} {server next : Server}
    {event : ServerEvent} {emitted : List ServerObservation} {player : Player}
    (hstep : server.step parse event = some (next, emitted)) (hmem : .entered player ∈ emitted) :
    emitted = [.entered player] := by
  cases Server.step_cases hstep with
  | enter_object => rw [ServerObservation.entered.inj (List.mem_singleton.mp hmem)]
  | _ => simp at hmem

/-- Whatever shows of the room is emitted by a step of the room. -/
theorem room_step_of_mem {parse : List UInt8 → Option (List UInt8)} {server next : Server}
    {event : ServerEvent} {emitted : List ServerObservation} {seen : Observation Payload}
    (hstep : server.step parse event = some (next, emitted)) (hmem : .room seen ∈ emitted) :
    ∃ event room others, server.room.step event = some (room, others) ∧ seen ∈ others := by
  cases Server.step_cases hstep with
  | push _ _ _ _ _ _ hroom => exact ⟨_, _, _, hroom, by simpa using hmem⟩
  | notify_one hroom => exact ⟨_, _, _, hroom, by simpa using hmem⟩
  | flush _ hroom => exact ⟨_, _, _, hroom, by simpa using hmem⟩
  | _ => simp at hmem

/-- The players in the room are those that have entered. -/
theorem holds_iff_entered_of_exec {parse : List UInt8 → Option (List UInt8)}
    {events : List ServerEvent} {server : Server} {log : List ServerObservation}
    (hexec : (serverMachine parse).exec .start events = some (server, log))
    (hcount : server.client_no < 2 ^ 32) (player : Player) :
    server.room.players.Holds player ↔ .entered player ∈ log := by
  refine (serverMachine parse).exec_induct (fun _ server log => server.client_no < 2 ^ 32 →
    (server.room.players.Holds player ↔ .entered player ∈ log)) ?_ ?_ events server log hexec hcount
  · intro _
    simp [Server.start, System.start, Room.new, Players.Holds, Players.empty]
  intro events server log event next emitted hexec ih hstep hcount
  have hle := Server.client_no_le_of_step hstep
  have hbefore := ih (by omega)
  have hinv := Server.inv_of_exec hexec (by omega)
  rw [List.mem_append, ← hbefore]
  have hsame : next.room.players = server.room.players → .entered player ∉ emitted →
      (next.room.players.Holds player ↔
        server.room.players.Holds player ∨ .entered player ∈ emitted) := by
    intro hplayers hnot
    rw [hplayers]
    simp [hnot]
  cases Server.step_cases hstep with
  | @enter_object index entering hmain haccept =>
    have hchain := hinv.chain
    have hlength := Server.length_le_client_no hchain
    simp only [Server.Chain, haccept] at hchain
    obtain ⟨_, _, hlast, rfl, _⟩ := hchain
    simp only [Room.enter_object, Players.holds_insert_iff, List.mem_singleton,
      ServerObservation.entered.injEq]
    constructor
    · rintro (rfl | ⟨_, hholds⟩)
      · exact .inr rfl
      · exact .inl hholds
    · rintro (hholds | rfl)
      · obtain ⟨earlier, hlt, rfl⟩ := (hinv.players player).mp hholds
        simp only [Server.entered, haccept] at hlt
        refine .inr ⟨object_id_playerOf_ne ?_ ?_ ?_, hholds⟩
        all_goals omega
      · exact .inl rfl
  | push _ _ _ _ _ _ hroom =>
    exact hsame (System.players_of_step (by simp) (by simp) hroom) (by simp)
  | notify_one hroom =>
    exact hsame (System.players_of_step (by simp) (by simp) hroom) (by simp)
  | flush hflush hroom =>
    refine hsame (System.players_of_step ?_ ?_ hroom) (by simp)
    · rintro other rfl
      cases hflush
    · rintro other rfl
      cases hflush
  | _ => exact hsame rfl (by simp)

/-- Every player in the room is that of its session. -/
theorem eq_playerOf_of_entered {parse : List UInt8 → Option (List UInt8)}
    {events : List ServerEvent} {server : Server} {log : List ServerObservation}
    (hexec : (serverMachine parse).exec .start events = some (server, log))
    (hcount : server.client_no < 2 ^ 32) {player : Player} (hentered : .entered player ∈ log) :
    player = playerOf player.session := by
  have hholds := (holds_iff_entered_of_exec hexec hcount player).mpr hentered
  obtain ⟨index, _, rfl⟩ := ((Server.inv_of_exec hexec hcount).players player).mp hholds
  rfl

/-- The run up to the entry of a player. -/
theorem exec_before_entered {parse : List UInt8 → Option (List UInt8)}
    {events : List ServerEvent} {server : Server} {before after : List ServerObservation}
    {player : Player} (hexec : (serverMachine parse).exec .start events =
      some (server, before ++ .entered player :: after)) :
    ∃ first earlier, (serverMachine parse).exec .start first = some (earlier, before) ∧
      earlier.client_no ≤ server.client_no := by
  obtain ⟨first, _, _, earlier, _, log, left, _, _, hfirst, hstep, hsecond, rfl⟩ :=
    (serverMachine parse).exec_split hexec
  have honly := entered_of_step hstep (List.mem_append_right _ List.mem_cons_self)
  have hleft : left = [] := by
    have hlength := congrArg List.length honly
    simp only [List.length_append, List.length_cons, List.length_nil] at hlength
    exact List.eq_nil_of_length_eq_zero (by omega)
  rw [hleft, List.append_nil]
  exact ⟨first, earlier, hfirst, Server.client_no_le_of_exec hsecond⟩

/-- The run up to the step of the room that emits what is seen of it. -/
theorem exec_before_room {parse : List UInt8 → Option (List UInt8)}
    {events : List ServerEvent} {server : Server} {before after : List ServerObservation}
    {seen : Observation Payload} (hexec : (serverMachine parse).exec .start events =
      some (server, before ++ .room seen :: after)) :
    ∃ first earlier log left, (serverMachine parse).exec .start first = some (earlier, log) ∧
      earlier.client_no ≤ server.client_no ∧ before = log ++ left ∧
      (∀ player, .entered player ∉ left) ∧
      ∃ event room others, earlier.room.step event = some (room, others) ∧ seen ∈ others := by
  obtain ⟨first, _, _, earlier, _, log, left, right, _, hfirst, hstep, hsecond, rfl⟩ :=
    (serverMachine parse).exec_split hexec
  have hseen : .room seen ∈ left ++ .room seen :: right :=
    List.mem_append_right _ List.mem_cons_self
  refine ⟨first, earlier, log, left, hfirst, Server.client_no_le_of_exec hsecond, rfl, ?_,
    room_step_of_mem hstep hseen⟩
  intro player hentered
  rw [entered_of_step hstep (List.mem_append_left _ hentered)] at hseen
  cases List.mem_singleton.mp hseen

/-- A snapshot holds exactly the players that have entered before it. -/
theorem mem_snapshot_iff {parse : List UInt8 → Option (List UInt8)}
    {events : List ServerEvent} {server : Server} {before after : List ServerObservation}
    {batch : List Payload} {players_snapshot : List Entry}
    (hexec : (serverMachine parse).exec .start events =
      some (server, before ++ .room (.swapped batch players_snapshot) :: after))
    (hcount : server.client_no < 2 ^ 32) (player : Player) :
    (player ∈ players_snapshot.map fun entry => entry.2) ↔ .entered player ∈ before := by
  obtain ⟨first, earlier, log, left, hfirst, hle, rfl, hnone, _, _, _, hroom, hseen⟩ :=
    exec_before_room hexec
  have hperm := System.perm_of_swapped hroom hseen
  rw [(hperm.map _).mem_iff, List.mem_append, or_iff_left (hnone player),
    ← holds_iff_entered_of_exec hfirst (by omega), List.mem_map]
  constructor
  · rintro ⟨entry, hentry, rfl⟩
    exact (Players.mem_entries_iff.mp hentry).2
  · intro hholds
    exact ⟨⟨player.object_id, player⟩, Players.mem_entries_iff.mpr ⟨rfl, hholds⟩, rfl⟩

/-- A round of a run has been started by a swap. -/
theorem exists_swapped_of_mem {log : List ServerObservation} {round : Round Payload}
    (hmem : round.swap ∈ swaps (roomLog log)) :
    ∃ before after,
      log = before ++ .room (.swapped round.batch round.players_snapshot) :: after :=
  List.append_of_mem (mem_roomLog_iff.mp (mem_of_mem_swaps hmem))

/-- Whatever is sent goes to players that have entered. -/
theorem entered_of_sent {parse : List UInt8 → Option (List UInt8)}
    {events : List ServerEvent} {server : Server} {log : List ServerObservation}
    (hexec : (serverMachine parse).exec .start events = some (server, log))
    (hcount : server.client_no < 2 ^ 32) {player : Player} {batch : List Payload}
    (hsent : .room (.sent player batch) ∈ log) : .entered player ∈ log := by
  obtain ⟨before, after, rfl⟩ := List.append_of_mem hsent
  obtain ⟨first, earlier, log, left, hfirst, hle, rfl, _, _, _, _, hroom, hseen⟩ :=
    exec_before_room hexec
  obtain ⟨entry, later, hpc, rfl⟩ := System.sending_of_sent hroom hseen
  obtain ⟨others, round, hrounds, _, hplayers, _⟩ :=
    (room_history_of_exec hfirst).current _ _ hpc
  have hswap : round.swap ∈ swaps (roomLog log) := by
    rw [← map_swap_rounds, hrounds]
    simp
  have hsnapshot : entry.2 ∈ round.players := by
    rw [← hplayers]
    simp
  obtain ⟨start, rest, rfl⟩ := exists_swapped_of_mem hswap
  have hentered := (mem_snapshot_iff hfirst (by omega) entry.2).mp hsnapshot
  simp [hentered]

/-- What was there before the first of some entries is there before each one. -/
theorem prefix_of_first {A : Type} {entry : A} {front back earlier later : List A}
    (hfirst : entry ∉ front) (hlog : front ++ entry :: back = earlier ++ entry :: later) :
    front <+: earlier := by
  rcases append_eq_append_cons_iff.mp hlog with ⟨right, hfront, _⟩ | ⟨middle, hearlier, _⟩
  · rw [hfront] at hfirst
    simp at hfirst
  · rw [hearlier]
    exact List.prefix_append _ _

/-- A round that starts in some part of a run has the players in its snapshot
    that have entered up to there. -/
theorem mem_players_iff {parse : List UInt8 → Option (List UInt8)} {events : List ServerEvent}
    {server : Server} {before part after : List ServerObservation}
    (hexec : (serverMachine parse).exec .start events = some (server, before ++ part ++ after))
    (hcount : server.client_no < 2 ^ 32) {round : Round Payload}
    (hswap : round.swap ∈ swaps (roomLog part)) (player : Player) :
    ∃ middle, middle <+: part ∧ (player ∈ round.players ↔ .entered player ∈ before ++ middle) := by
  obtain ⟨middle, rest, rfl⟩ := exists_swapped_of_mem hswap
  rw [← List.append_assoc, List.append_assoc _ (_ :: _), List.cons_append] at hexec
  exact ⟨middle, List.prefix_append _ _, mem_snapshot_iff hexec hcount player⟩

/-- The batches that have been swapped out have been pushed before. -/
theorem batches_prefix_of_exec {parse : List UInt8 → Option (List UInt8)}
    {events : List ServerEvent} {server : Server} {front earlier : List ServerObservation}
    (hexec : (serverMachine parse).exec .start events = some (server, front))
    (hfront : front <+: earlier) :
    (rounds (roomLog front)).flatMap Round.batch <+:
      (pushed (roomLog earlier)).filterMap Job.callback := by
  obtain ⟨more, rfl⟩ := hfront
  rw [roomLog_append, pushed_append, List.filterMap_append,
    (room_history_of_exec hexec).payloads_eq (room_awake_of_exec hexec), List.append_assoc]
  exact List.prefix_append _ _

/-- The rounds from some point on have a player in their snapshots. Whatever is
    sent in the earlier ones was pushed before the player entered. -/
theorem rounds_split_of_exec {parse : List UInt8 → Option (List UInt8)}
    {events : List ServerEvent} {server : Server} {log : List ServerObservation}
    (hexec : (serverMachine parse).exec .start events = some (server, log))
    (hcount : server.client_no < 2 ^ 32) (player : Player) :
    ∃ before after, rounds (roomLog log) = before ++ after ∧
      (∀ round ∈ before, player ∉ round.players) ∧ (∀ round ∈ after, player ∈ round.players) ∧
      ∀ earlier later, log = earlier ++ .entered player :: later →
        before.flatMap Round.batch <+: (pushed (roomLog earlier)).filterMap Job.callback := by
  by_cases hentered : .entered player ∈ log
  · -- the rounds before the first entry, and those behind it
    obtain ⟨front, back, rfl, hfirst⟩ := List.eq_append_cons_of_mem hentered
    have hswaps : (rounds (roomLog (front ++ .entered player :: back))).map Round.swap =
        swaps (roomLog front) ++ swaps (roomLog back) := by
      rw [map_swap_rounds, roomLog_append, swaps_append]
      rfl
    obtain ⟨before, after, hrounds, hbefore, hafter⟩ := List.map_eq_append_iff.mp hswaps
    refine ⟨before, after, hrounds, ?_, ?_, ?_⟩
    · intro round hround hplayer
      have hswap : round.swap ∈ swaps (roomLog front) := by
        rw [← hbefore]
        exact List.mem_map_of_mem hround
      obtain ⟨middle, hmiddle, hiff⟩ :=
        @mem_players_iff _ _ _ [] front _ hexec hcount round hswap player
      exact hfirst (hmiddle.subset (hiff.mp hplayer))
    · intro round hround
      have hswap : round.swap ∈ swaps (roomLog back) := by
        rw [← hafter]
        exact List.mem_map_of_mem hround
      have hwhole : front ++ .entered player :: back =
          (front ++ [.entered player]) ++ back ++ [] := by simp
      rw [hwhole] at hexec
      obtain ⟨middle, _, hiff⟩ := mem_players_iff hexec hcount hswap player
      exact hiff.mpr (by simp)
    · intro earlier later hlog
      obtain ⟨first, start, hrun, _⟩ := exec_before_entered hexec
      have hbatches : before.flatMap Round.batch =
          (rounds (roomLog front)).flatMap Round.batch := by
        rw [flatMap_batch_eq, flatMap_batch_eq, hbefore, map_swap_rounds]
      rw [hbatches]
      exact batches_prefix_of_exec hrun (prefix_of_first hfirst hlog)
  · refine ⟨rounds (roomLog log), [], (List.append_nil _).symm, ?_, by simp, ?_⟩
    · intro round hround hplayer
      have hswap : round.swap ∈ swaps (roomLog log) := by
        rw [← map_swap_rounds]
        exact List.mem_map_of_mem hround
      rw [← List.append_nil log] at hexec
      obtain ⟨middle, hmiddle, hiff⟩ :=
        @mem_players_iff _ _ _ [] log _ hexec hcount round hswap player
      exact hentered (hmiddle.subset (hiff.mp hplayer))
    · rintro earlier later rfl
      simp at hentered

end topview.server
