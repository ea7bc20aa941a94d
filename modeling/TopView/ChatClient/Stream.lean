import TopView.ChatClient.Frames

open topview.packet topview.protobuf topview.protocol topview.transition

namespace topview.chat_client

/-- The bytes that the connection of a socket has taken. -/
def taken (i : Nat) (log : List ClientObservation) : List UInt8 :=
  log.flatMap fun seen => match seen with
    | .taken index bytes => if index = i then bytes else []
    | _ => []

/-- How many messages have been written to a socket. -/
def sent (i : Nat) (log : List ClientObservation) : Nat :=
  log.countP fun seen => match seen with
    | .taken index _ => index = i
    | _ => false

/-- A connection has taken the frames of its client, all of them as long as it
    is not broken. -/
structure Streams {i : Nat} (hi : i < 2 ^ 31) (client : Client) (log : List ClientObservation) :
    Prop where
  seq : client.seqs[i]? = some (sent i log % 2 ^ 64)
  front : taken i log <+: (frames hi (sent i log)).flatMap Frame.encode
  whole : ∀ socket, client.sockets[i]? = some socket → socket.connected →
    taken i log = (frames hi (sent i log)).flatMap Frame.encode

/-- The first client whose turn in the round has not come. -/
def MainPc.position : MainPc → Nat
  | .send i => i
  | _ => 0

/-- What every run of the program maintains. -/
structure Client.Inv (client_count : Nat) (client : Client) (log : List ClientObservation) : Prop where
  starting : client.main = .connect → log = [] ∧ client.seqs = List.replicate client_count 0
  sockets : client.sockets.length ≤ client_count
  connected : client.main ≠ .connect → client.sockets.length = client_count
  chat : client.chat.unknown_fields = []
  send_buffer : client.send_buffer.length = 260
  serialized : ∀ i, .serialize_failed i ∉ log
  streams : ∀ i (hi : i < 2 ^ 31), i < client_count → Streams hi client log
  outside : ∀ i, client_count ≤ i → taken i log = []
  even : ∃ rounds, ∀ (i : Nat) (socket : Socket), client.sockets[i]? = some socket →
    socket.is_open → sent i log = rounds + if i < client.main.position then 1 else 0

theorem taken_append (i : Nat) (log emitted : List ClientObservation) :
    taken i (log ++ emitted) = taken i log ++ taken i emitted := List.flatMap_append

theorem sent_append (i : Nat) (log emitted : List ClientObservation) :
    sent i (log ++ emitted) = sent i log + sent i emitted := List.countP_append

/-- The steps of the program, with what is known when they are taken. -/
inductive Client.StepCases (client_count : Nat) (client : Client) :
    ClientEvent → Client → List ClientObservation → Prop
  | connect {socket : Socket} (hmain : client.main = .connect)
      (hlength : client.sockets.length < client_count) :
    StepCases client_count client (.connect socket)
      { client with sockets := client.sockets ++ [socket] } []
  | main {pc : MainPc} (hpc : pc ≠ .connect) (hzero : pc.position = 0)
      (hsockets : client.main = .connect → client.sockets.length = client_count)
      (hposition : client.main.position = 0 ∨ client.main.position = client_count) :
    StepCases client_count client .main { client with main := pc } []
  | skip {i : Nat} {socket : Socket} {failure : Option Nat} (hmain : client.main = .send i)
      (hsocket : client.sockets[i]? = some socket) (hopen : socket.is_open = false) :
    StepCases client_count client (.send failure) { client with main := .send (i + 1) } []
  | send {i seq : Nat} {socket next : Socket} {failure : Option Nat} {send_buffer : List UInt8}
      {bytes taken : List UInt8} {errors : List ClientObservation} (hmain : client.main = .send i)
      (hi : i < client_count)
      (hsocket : client.sockets[i]? = some socket) (hseq : client.seqs[i]? = some seq)
      (hfill : fill_send_buffer client.send_buffer { client.chat with
        impl := CChat.set_message (message i seq) } = some (send_buffer, some bytes))
      (hwrite : socket.write bytes failure = some (next, taken))
      (herrors : errors = [] ∨ errors = [.send_error i]) :
    StepCases client_count client (.send failure)
      { client with
        main := .send (i + 1)
        seqs := client.seqs.set i ((seq + 1) % 2 ^ 64)
        chat := { client.chat with impl := CChat.set_message (message i seq) }
        send_buffer := send_buffer
        sockets := client.sockets.set i next } (.taken i taken :: errors)
  | fail {i seq : Nat} {failure : Option Nat} {next : Client} {send_buffer : List UInt8}
      (hi : i < client_count) (hseq : client.seqs[i]? = some seq)
      (hfill : fill_send_buffer client.send_buffer { client.chat with
        impl := CChat.set_message (message i seq) } = some (send_buffer, none)) :
    StepCases client_count client (.send failure) next [.serialize_failed i]
  | close {i : Nat} {sockets : List Socket} (hmain : client.main = .close i)
      (hlength : sockets.length = client.sockets.length)
      (hsockets : ∀ (j : Nat) (socket : Socket), sockets[j]? = some socket →
        socket = ⟨false, false⟩ ∨ client.sockets[j]? = some socket) :
    StepCases client_count client .close { client with main := .close (i + 1), sockets := sockets } []
  | waiter (hmain : client.main ≠ .connect) :
    StepCases client_count client .waiter { client with stop := true } []

theorem Client.step_cases {client_count : Nat} {client next : Client} {event : ClientEvent}
    {emitted : List ClientObservation}
    (hstep : client.step client_count event = some (next, emitted)) :
    Client.StepCases client_count client event next emitted := by
  cases event with
  | connect socket =>
    rw [Client.step, Option.map_eq_some_iff] at hstep
    obtain ⟨_, hconnect, heq⟩ := hstep
    cases heq
    rw [Client.connect, Option.ite_none_right_eq_some, Option.some.injEq] at hconnect
    obtain ⟨⟨hmain, hlength, _⟩, rfl⟩ := hconnect
    exact .connect hmain hlength
  | main =>
    rw [Client.step, Option.map_eq_some_iff] at hstep
    obtain ⟨_, hmain, heq⟩ := hstep
    cases heq
    unfold Client.step_main at hmain
    split at hmain
    · next hpc =>
      rw [Option.ite_none_right_eq_some, Option.some.injEq] at hmain
      obtain ⟨hlength, rfl⟩ := hmain
      exact .main nofun rfl (fun _ => hlength) (.inl (by rw [hpc]; rfl))
    · next hpc =>
      split at hmain
      · cases hmain
        exact .main nofun rfl (by simp [hpc]) (.inl (by rw [hpc]; rfl))
      · cases hmain
        exact .main nofun rfl (by simp [hpc]) (.inl (by rw [hpc]; rfl))
    · next i hpc =>
      rw [Option.ite_none_right_eq_some, Option.some.injEq] at hmain
      obtain ⟨rfl, rfl⟩ := hmain
      exact .main nofun rfl (by simp [hpc]) (.inr (by rw [hpc]; rfl))
    · next i hpc =>
      rw [Option.ite_none_right_eq_some, Option.some.injEq] at hmain
      obtain ⟨_, rfl⟩ := hmain
      exact .main nofun rfl (by simp [hpc]) (.inl (by rw [hpc]; rfl))
    · cases hmain
  | send failure =>
    rw [Client.step] at hstep
    unfold Client.step_send at hstep
    split at hstep
    · next i hmain =>
      simp only [Option.bind_eq_bind, Option.bind_eq_some_iff, Option.guard_eq_some'] at hstep
      obtain ⟨_, hi, socket, hsocket, hstep⟩ := hstep
      split at hstep
      · unfold Client.send_message at hstep
        simp only [Option.bind_eq_bind, Option.bind_eq_some_iff] at hstep
        obtain ⟨seq, hseq, ⟨send_buffer, frame⟩, hfill, hstep⟩ := hstep
        cases frame with
        | none =>
          cases hstep
          exact .fail hi hseq hfill
        | some bytes =>
          obtain ⟨⟨next, taken⟩, hwrite, hstep⟩ := Option.bind_eq_some_iff.mp hstep
          cases hstep
          refine .send hmain hi hsocket hseq hfill hwrite ?_
          split
          · exact .inl rfl
          · exact .inr rfl
      · next hopen =>
        cases hstep
        exact .skip hmain hsocket (by simpa using hopen)
    · cases hstep
  | close =>
    rw [Client.step, Option.map_eq_some_iff] at hstep
    obtain ⟨_, hclose, heq⟩ := hstep
    cases heq
    unfold Client.step_close at hclose
    split at hclose
    · next i hmain =>
      simp only [Option.bind_eq_bind, Option.bind_eq_some_iff, Option.guard_eq_some'] at hclose
      obtain ⟨_, hi, socket, hsocket, hclose⟩ := hclose
      split at hclose
      · cases hclose
        refine .close hmain List.length_set ?_
        intro j other hother
        rw [List.getElem?_set] at hother
        split at hother
        · split at hother
          · cases hother
            exact .inl rfl
          · cases hother
        · exact .inr hother
      · cases hclose
        exact .close hmain rfl fun _ _ hsocket => .inr hsocket
    · cases hclose
  | waiter =>
    rw [Client.step, Option.ite_none_left_eq_some, Option.some.injEq, Prod.mk.injEq, not_or] at hstep
    obtain ⟨⟨hmain, _⟩, rfl, rfl⟩ := hstep
    exact .waiter hmain

/-- A broken connection takes nothing, and one that is not broken takes all. -/
theorem Socket.write_spec {socket next : Socket} {bytes taken : List UInt8} {failure : Option Nat}
    (hwrite : socket.write bytes failure = some (next, taken)) :
    next.is_open = socket.is_open ∧ taken <+: bytes ∧ (socket.connected = false → taken = []) ∧
      (next.connected → socket.connected ∧ taken = bytes) := by
  cases failure with
  | none =>
    rw [Socket.write, Option.ite_none_right_eq_some, Option.some.injEq, Prod.mk.injEq] at hwrite
    obtain ⟨hconnected, rfl, rfl⟩ := hwrite
    exact ⟨rfl, List.prefix_rfl, by simp [hconnected], fun _ => ⟨hconnected, rfl⟩⟩
  | some count =>
    rw [Socket.write, Option.ite_none_right_eq_some, Option.some.injEq, Prod.mk.injEq] at hwrite
    obtain ⟨⟨_, hbroken⟩, rfl, rfl⟩ := hwrite
    refine ⟨rfl, List.take_prefix _ _, ?_, by simp⟩
    intro hconnected
    obtain rfl : count = 0 := by simpa [hconnected] using hbroken
    exact List.take_zero

/-- A step that writes nothing to a socket keeps its stream. -/
theorem Streams.of_kept {i : Nat} {hi : i < 2 ^ 31} {client next : Client}
    {log emitted : List ClientObservation} (hstreams : Streams hi client log)
    (hseqs : next.seqs[i]? = client.seqs[i]?)
    (hsockets : ∀ socket, next.sockets[i]? = some socket → socket.connected →
      client.sockets[i]? = some socket)
    (htaken : taken i emitted = []) (hsent : sent i emitted = 0) :
    Streams hi next (log ++ emitted) := by
  obtain ⟨hseq, hfront, hwhole⟩ := hstreams
  constructor
  · rw [hseqs, hseq, sent_append, hsent, Nat.add_zero]
  · rwa [taken_append, sent_append, htaken, hsent, List.append_nil, Nat.add_zero]
  · intro socket hsocket hconnected
    rw [taken_append, sent_append, htaken, hsent, List.append_nil, Nat.add_zero]
    exact hwhole socket (hsockets socket hsocket hconnected) hconnected

/-- The round for a socket extends its stream by one frame. -/
theorem Streams.of_send {i : Nat} {hi : i < 2 ^ 31} {client next : Client}
    {log emitted : List ClientObservation} {socket after : Socket} {bytes : List UInt8}
    {failure : Option Nat} (hstreams : Streams hi client log)
    (hsocket : client.sockets[i]? = some socket)
    (hwrite : socket.write (frame hi (sent i log)).encode failure = some (after, bytes))
    (hseqs : next.seqs[i]? = some ((sent i log % 2 ^ 64 + 1) % 2 ^ 64))
    (hafter : next.sockets[i]? = some after) (htaken : taken i emitted = bytes)
    (hsent : sent i emitted = 1) : Streams hi next (log ++ emitted) := by
  obtain ⟨_, hfront, hwhole⟩ := hstreams
  obtain ⟨_, hbytes, hbroken, hall⟩ := Socket.write_spec hwrite
  have hframes : (frames hi (sent i (log ++ emitted))).flatMap Frame.encode =
      (frames hi (sent i log)).flatMap Frame.encode ++ (frame hi (sent i log)).encode := by
    rw [sent_append, hsent, frames_succ, List.flatMap_append, List.flatMap_singleton]
  constructor
  · rw [hseqs, sent_append, hsent, Nat.mod_add_mod]
  · rw [taken_append, htaken, hframes]
    cases hconnected : socket.connected with
    | false =>
      rw [hbroken hconnected, List.append_nil]
      exact hfront.trans (List.prefix_append _ _)
    | true =>
      rw [hwhole socket hsocket hconnected]
      exact (List.prefix_append_right_inj _).mpr hbytes
  · intro other hother hconnected
    rw [hafter] at hother
    cases hother
    obtain ⟨hsocketConnected, rfl⟩ := hall hconnected
    rw [taken_append, htaken, hframes, hwhole socket hsocket hsocketConnected]

theorem Client.inv_start (client_count : Nat) : Client.Inv client_count (.start client_count) [] where
  starting := fun _ => ⟨rfl, rfl⟩
  sockets := Nat.zero_le _
  connected := fun hmain => absurd rfl hmain
  chat := rfl
  send_buffer := List.length_replicate
  serialized := by simp
  streams := fun _ _ hlt => ⟨List.getElem?_replicate_of_lt hlt, List.nil_prefix, fun _ _ _ => rfl⟩
  outside := fun _ _ => rfl
  even := ⟨0, by simp [Client.start]⟩

/-- The end of a round is the start of the next one. -/
theorem Client.Inv.even_of_main {client_count : Nat} {client : Client} {pc : MainPc}
    {log : List ClientObservation} (hinv : Client.Inv client_count client log)
    (hzero : pc.position = 0)
    (hposition : client.main.position = 0 ∨ client.main.position = client_count) :
    ∃ rounds, ∀ (i : Nat) (socket : Socket), client.sockets[i]? = some socket → socket.is_open →
      sent i log = rounds + if i < pc.position then 1 else 0 := by
  obtain ⟨rounds, heven⟩ := hinv.even
  rw [hzero]
  rcases hposition with hstart | hend
  · refine ⟨rounds, ?_⟩
    rwa [hstart] at heven
  · refine ⟨rounds + 1, ?_⟩
    intro i socket hsocket hopen
    have hlength := (List.getElem?_eq_some_iff.mp hsocket).1
    have hle := hinv.sockets
    rw [heven i socket hsocket hopen, hend, if_pos (by omega), if_neg (Nat.not_lt_zero i)]

/-- The clients take turns. -/
theorem Client.Inv.even_of_send {client_count i : Nat} {client next : Client}
    {log emitted : List ClientObservation} (hinv : Client.Inv client_count client log)
    (hmain : client.main = .send i) (hnext : next.main = .send (i + 1))
    (hsockets : ∀ (j : Nat) (socket : Socket), next.sockets[j]? = some socket → socket.is_open →
      ∃ before : Socket, client.sockets[j]? = some before ∧ before.is_open)
    (hsent : ∀ (j : Nat) (socket : Socket), next.sockets[j]? = some socket → socket.is_open →
      sent j emitted = if j = i then 1 else 0) :
    ∃ rounds, ∀ (j : Nat) (socket : Socket), next.sockets[j]? = some socket → socket.is_open →
      sent j (log ++ emitted) = rounds + if j < next.main.position then 1 else 0 := by
  obtain ⟨rounds, heven⟩ := hinv.even
  have hposition : client.main.position = i := congrArg MainPc.position hmain
  have hlater : next.main.position = i + 1 := congrArg MainPc.position hnext
  rw [hposition] at heven
  rw [hlater]
  refine ⟨rounds, ?_⟩
  intro j socket hsocket hopen
  obtain ⟨before, hbefore, hbeforeOpen⟩ := hsockets j socket hsocket hopen
  rw [sent_append, heven j before hbefore hbeforeOpen, hsent j socket hsocket hopen]
  rcases Nat.lt_trichotomy j i with hlt | heq | hlt
  · rw [if_pos hlt, if_neg (by omega), if_pos (by omega)]
  · rw [if_neg (by omega), if_pos heq, if_pos (by omega)]
  · rw [if_neg (by omega), if_neg (by omega), if_neg (by omega)]

theorem Client.Inv.step {client_count : Nat} {client next : Client} {event : ClientEvent}
    {log emitted : List ClientObservation} (hcount : client_count < 2 ^ 31)
    (hinv : Client.Inv client_count client log)
    (hstep : client.step client_count event = some (next, emitted)) :
    Client.Inv client_count next (log ++ emitted) := by
  cases Client.step_cases hstep with
  | connect hmain hlength =>
    obtain ⟨rfl, hseqs⟩ := hinv.starting hmain
    refine ⟨fun _ => ⟨rfl, hseqs⟩, ?_, fun hne => absurd hmain hne, hinv.chat, hinv.send_buffer,
      by simp, ?_, fun _ _ => rfl, ⟨0, fun _ _ _ _ => ?_⟩⟩
    · rw [List.length_append]
      exact hlength
    · intro i hi hlt
      refine ⟨?_, List.nil_prefix, fun _ _ _ => rfl⟩
      rw [hseqs]
      exact List.getElem?_replicate_of_lt hlt
    · simp [sent, hmain, MainPc.position]
  | main hpc hzero hsockets hposition =>
    rw [List.append_nil]
    refine ⟨fun hmain => absurd hmain hpc, hinv.sockets, fun _ => ?_, hinv.chat, hinv.send_buffer,
      hinv.serialized, fun i hi hlt => ?_, hinv.outside, hinv.even_of_main hzero hposition⟩
    · by_cases hmain : client.main = .connect
      · exact hsockets hmain
      · exact hinv.connected hmain
    · obtain ⟨hseq, hfront, hwhole⟩ := hinv.streams i hi hlt
      exact ⟨hseq, hfront, hwhole⟩
  | @skip i socket _ hmain hsocket hopen =>
    refine ⟨nofun, hinv.sockets, fun _ => hinv.connected (by simp [hmain]), hinv.chat,
      hinv.send_buffer, by simpa using hinv.serialized, fun j hj hlt => ?_,
      by simpa using hinv.outside, ?_⟩
    · exact (hinv.streams j hj hlt).of_kept rfl (fun _ hsocket _ => hsocket) rfl rfl
    · apply @Client.Inv.even_of_send _ _ _ { client with main := .send (i + 1) } _ [] hinv hmain rfl
        fun j other hother hotherOpen => ⟨other, hother, hotherOpen⟩
      intro j other hother hotherOpen
      have hne : j ≠ i := by
        rintro rfl
        rw [show client.sockets[j]? = some other from hother, Option.some.injEq] at hsocket
        rw [hsocket, hopen] at hotherOpen
        cases hotherOpen
      rw [if_neg hne]
      rfl
  | @send i seq socket after failure send_buffer frame' bytes errors hmain hlt hsocket hseq hfill
      hwrite herrors =>
    have hi : i < 2 ^ 31 := Nat.lt_trans hlt hcount
    have hstreams := hinv.streams i hi hlt
    have hnumber := hstreams.seq
    rw [hseq, Option.some.injEq] at hnumber
    subst hnumber
    obtain ⟨filled, hfilled, hlength⟩ :=
      fill_send_buffer_message hi (sent i log) hinv.send_buffer hinv.chat
    rw [hfill, Option.some.injEq, Prod.mk.injEq, Option.some.injEq] at hfilled
    obtain ⟨rfl, rfl⟩ := hfilled
    have hsockets : i < client.sockets.length := (List.getElem?_eq_some_iff.mp hsocket).1
    have hnotFailed : ∀ j, .serialize_failed j ∉ .taken i bytes :: errors := by
      rcases herrors with rfl | rfl <;> simp
    have htaken (j : Nat) : taken j (.taken i bytes :: errors) = if i = j then bytes else [] := by
      rcases herrors with rfl | rfl <;> simp [taken]
    have hsent (j : Nat) : sent j (.taken i bytes :: errors) = if j = i then 1 else 0 := by
      rcases herrors with rfl | rfl <;> simp [sent, List.countP_cons, eq_comm]
    refine ⟨nofun, ?_, fun _ => ?_, hinv.chat, hlength, ?_, ?_, ?_, ?_⟩
    · rw [List.length_set]
      exact hinv.sockets
    · rw [List.length_set]
      exact hinv.connected (by simp [hmain])
    · intro j hmem
      rcases List.mem_append.mp hmem with hbefore | hnew
      · exact hinv.serialized j hbefore
      · exact hnotFailed j hnew
    · intro j hj hjlt
      by_cases hij : i = j
      · subst hij
        apply hstreams.of_send hsocket hwrite
        · exact List.getElem?_set_self (List.getElem?_eq_some_iff.mp hseq).1
        · exact List.getElem?_set_self hsockets
        · rw [htaken, if_pos rfl]
        · rw [hsent, if_pos rfl]
      · apply (hinv.streams j hj hjlt).of_kept
        · exact List.getElem?_set_ne hij
        · intro other hother _
          rwa [List.getElem?_set_ne hij] at hother
        · rw [htaken, if_neg hij]
        · rw [hsent, if_neg (Ne.symm hij)]
    · intro j hj
      rw [taken_append, hinv.outside j hj, htaken, if_neg (by omega), List.append_nil]
    · apply hinv.even_of_send hmain rfl
      · intro j other hother hopen
        by_cases hij : i = j
        · subst hij
          rw [List.getElem?_set_self hsockets] at hother
          cases hother
          exact ⟨socket, hsocket, (Socket.write_spec hwrite).1 ▸ hopen⟩
        · rw [List.getElem?_set_ne hij] at hother
          exact ⟨other, hother, hopen⟩
      · exact fun j _ _ _ => hsent j
  | @fail i seq _ _ _ hlt hseq hfill =>
    have hi : i < 2 ^ 31 := Nat.lt_trans hlt hcount
    have hnumber := (hinv.streams i hi hlt).seq
    rw [hseq, Option.some.injEq] at hnumber
    subst hnumber
    obtain ⟨_, hfilled, _⟩ := fill_send_buffer_message hi (sent i log) hinv.send_buffer hinv.chat
    rw [hfill] at hfilled
    cases hfilled
  | @close i sockets hmain hlength hsockets =>
    obtain ⟨rounds, heven⟩ := hinv.even
    have hkept (j : Nat) (socket : Socket) (hsocket : sockets[j]? = some socket)
        (hopen : socket.is_open ∨ socket.connected) : client.sockets[j]? = some socket := by
      rcases hsockets j socket hsocket with rfl | hbefore
      · simp at hopen
      · exact hbefore
    refine ⟨nofun, ?_, fun _ => ?_, hinv.chat, hinv.send_buffer, ?_, ?_, ?_, rounds, ?_⟩
    · rw [hlength]
      exact hinv.sockets
    · rw [hlength]
      exact hinv.connected (by simp [hmain])
    · rw [List.append_nil]
      exact hinv.serialized
    · intro j hj hlt
      exact (hinv.streams j hj hlt).of_kept rfl (fun socket hsocket hconnected =>
        hkept j socket hsocket (.inr hconnected)) rfl rfl
    · rw [List.append_nil]
      exact hinv.outside
    · intro j socket hsocket hopen
      rw [List.append_nil, heven j socket (hkept j socket hsocket (.inl hopen)) hopen, hmain]
      rfl
  | waiter hmain =>
    rw [List.append_nil]
    refine ⟨fun hconnect => absurd hconnect hmain, hinv.sockets, hinv.connected, hinv.chat,
      hinv.send_buffer, hinv.serialized, fun i hi hlt => ?_, hinv.outside, hinv.even⟩
    obtain ⟨hseq, hfront, hwhole⟩ := hinv.streams i hi hlt
    exact ⟨hseq, hfront, hwhole⟩

theorem Client.inv_of_exec {client_count : Nat} {events : List ClientEvent} {client : Client}
    {log : List ClientObservation} (hcount : client_count < 2 ^ 31)
    (hexec : (clientMachine client_count).exec (.start client_count) events = some (client, log)) :
    Client.Inv client_count client log :=
  (clientMachine client_count).exec_induct (fun _ client log => Client.Inv client_count client log)
    (Client.inv_start client_count) (fun _ _ _ _ _ _ _ hinv hstep => hinv.step hcount hstep)
    events client log hexec

/-- What the program has sent after a run. -/
structure Client.Sends (client_count : Nat) (client : Client) (log : List ClientObservation) :
    Prop where
  serialized : ∀ i, .serialize_failed i ∉ log
  streams : ∀ i (hi : i < 2 ^ 31), i < client_count → Streams hi client log
  /-- The sockets take turns. -/
  even : ∀ (i j : Nat) (first second : Socket), client.sockets[i]? = some first → first.is_open →
    client.sockets[j]? = some second → second.is_open → sent i log ≤ sent j log + 1
  /-- No round of the inner loop leaves the buffer. -/
  enabled : ∀ i, client.main = .send i → i < client_count →
    ∃ failure next, client.step client_count (.send failure) = some next

theorem Client.Inv.send_enabled {client_count i : Nat} {client : Client} {log : List ClientObservation}
    (hcount : client_count < 2 ^ 31) (hinv : Client.Inv client_count client log)
    (hmain : client.main = .send i) (hlt : i < client_count) :
    ∃ failure next, client.step client_count (.send failure) = some next := by
  have hi : i < 2 ^ 31 := Nat.lt_trans hlt hcount
  have hlength := hinv.connected (by simp [hmain])
  obtain ⟨socket, hsocket⟩ : ∃ socket, client.sockets[i]? = some socket :=
    ⟨_, List.getElem?_eq_getElem (by omega)⟩
  obtain ⟨filled, hfill, _⟩ :=
    fill_send_buffer_message hi (sent i log) hinv.send_buffer hinv.chat
  have hpositive : 0 < (frame hi (sent i log)).encode.length := by
    rw [Frame.length_encode, Frame.size]
    omega
  obtain ⟨failure, written, hwrite⟩ : ∃ failure written,
      socket.write (frame hi (sent i log)).encode failure = some written := by
    cases hconnected : socket.connected with
    | true => exact ⟨none, _, by rw [Socket.write, if_pos hconnected]⟩
    | false => exact ⟨some 0, _, by rw [Socket.write, if_pos ⟨hpositive, .inr rfl⟩]⟩
  have hround : client.step client_count (.send failure) =
      if socket.is_open then client.send_message i socket failure
      else some ({ client with main := .send (i + 1) }, []) := by
    simp [Client.step, Client.step_send, hmain, hlt, hsocket]
  have hmessage : ∃ next, client.send_message i socket failure = some next := by
    simp only [Client.send_message, (hinv.streams i hi hlt).seq, hfill, hwrite, Option.bind_eq_bind,
      Option.bind_some]
    exact ⟨_, rfl⟩
  refine ⟨failure, ?_⟩
  rw [hround]
  split
  · exact hmessage
  · exact ⟨_, rfl⟩

/-- Two clients, of which the second one is not let in. The connection of the
    first one breaks inside of its second message. -/
def brokenConnection : List ClientEvent :=
  [.connect ⟨true, true⟩, .connect ⟨true, false⟩, .main, .main, .send none, .send (some 0), .main,
    .main, .send (some 7)]

end topview.chat_client
