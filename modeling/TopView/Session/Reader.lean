import TopView.Session.Framing
import TopView.Transition.Machine

open topview.recv_buffer topview.packet topview.framing topview.transition

namespace topview.session

/-- Where the read handler of a session is. -/
inductive ReadPc where
  /-- `async_read_some` is outstanding. -/
  | reading
  /-- At the head of the loop in `ProcessRecv`. -/
  | looping
  /-- In an iteration, behind the handler call. -/
  | handling (dispatch : Dispatch)
  /-- `ProcessRecv` has returned, `RegisterRecv` comes next. -/
  | returned
  /-- No read is outstanding and none will be issued. -/
  | idle
  deriving DecidableEq, Repr

/-- A connection together with the position of its read handler. -/
structure Reader extends Connection where
  pc : ReadPc
  deriving DecidableEq, Repr

inductive ReadEvent where
  /-- The read completes without an error. -/
  | read (bytes : List UInt8)
  /-- The read completes with an error. -/
  | error
  | present
  | advance
  | register_recv
  deriving DecidableEq, Repr

/-- `Session::Start` has issued the first read. -/
def Reader.start : Reader := { Connection.new with pc := .reading }

/-- One step of the read handler. It emits the packets it presents. -/
def Reader.step (self : Reader) (event : ReadEvent) : Option (Reader × List Dispatch) :=
  match event, self.pc with
  | .read bytes, .reading =>
    if bytes.length ≤ self.recv_buffer.get_writable_size then
      if bytes.length = 0 then some (⟨(self.receive bytes).close, .returned⟩, [])
      else some (⟨self.receive bytes, .looping⟩, [])
    else none
  | .error, .reading => some (⟨self.close, .idle⟩, [])
  | .present, .looping =>
    (present self.recv_buffer).elim (some (⟨self.toConnection, .returned⟩, []))
      fun dispatch => some (⟨self.toConnection, .handling dispatch⟩, [dispatch])
  | .advance, .handling dispatch =>
    some (⟨{ self.toConnection with
      recv_buffer := consume self.recv_buffer dispatch.header.size }, .looping⟩, [])
  | .register_recv, .returned =>
    some (⟨self.toConnection, if self.is_open then .reading else .idle⟩, [])
  | _, _ => none

def readerMachine : Machine Reader ReadEvent Dispatch := ⟨Reader.step⟩

/-- What a step of the read handler can do. -/
inductive Reader.Step (self : Reader) : ReadEvent → Reader → List Dispatch → Prop where
  | read {bytes : List UInt8} (hpc : self.pc = .reading)
      (hfit : bytes.length ≤ self.recv_buffer.get_writable_size) (hne : bytes ≠ []) :
      Step self (.read bytes) ⟨self.receive bytes, .looping⟩ []
  | empty (hpc : self.pc = .reading) :
      Step self (.read []) ⟨(self.receive []).close, .returned⟩ []
  | error (hpc : self.pc = .reading) : Step self .error ⟨self.close, .idle⟩ []
  | stop (hpc : self.pc = .looping) (hbreak : topview.session.present self.recv_buffer = none) :
      Step self .present ⟨self.toConnection, .returned⟩ []
  | present {dispatch : Dispatch} (hpc : self.pc = .looping)
      (hpresent : topview.session.present self.recv_buffer = some dispatch) :
      Step self .present ⟨self.toConnection, .handling dispatch⟩ [dispatch]
  | advance {dispatch : Dispatch} (hpc : self.pc = .handling dispatch) :
      Step self .advance ⟨{ self.toConnection with
        recv_buffer := consume self.recv_buffer dispatch.header.size }, .looping⟩ []
  | register_recv (hpc : self.pc = .returned) :
      Step self .register_recv ⟨self.toConnection, if self.is_open then .reading else .idle⟩ []

theorem Reader.step_cases {self next : Reader} {event : ReadEvent} {emitted : List Dispatch}
    (hstep : self.step event = some (next, emitted)) : self.Step event next emitted := by
  unfold Reader.step at hstep
  split at hstep
  · next bytes hpc =>
    rw [Option.ite_none_right_eq_some] at hstep
    obtain ⟨hfit, hstep⟩ := hstep
    split at hstep
    · next hlength =>
      obtain rfl := List.eq_nil_of_length_eq_zero hlength
      cases hstep
      exact .empty hpc
    · next hlength =>
      cases hstep
      exact .read hpc hfit (by simpa using hlength)
  · next hpc =>
    cases hstep
    exact .error hpc
  · next hpc =>
    cases hpresent : topview.session.present self.recv_buffer with
    | none =>
      rw [hpresent, Option.elim_none] at hstep
      cases hstep
      exact .stop hpc hpresent
    | some dispatch =>
      rw [hpresent, Option.elim_some] at hstep
      cases hstep
      exact .present hpc hpresent
  · next dispatch hpc =>
    cases hstep
    exact .advance hpc
  · next hpc =>
    cases hstep
    exact .register_recv hpc
  · cases hstep

/-- A read handler keeps its buffer valid, whatever has become of the buffer in
    the meantime, and presents no more than a buffer holds. -/
theorem Reader.valid_of_step {self next : Reader} {event : ReadEvent} {presented : List Dispatch}
    (hvalid : self.recv_buffer.Valid) (hstep : self.step event = some (next, presented)) :
    next.recv_buffer.Valid ∧ ∀ dispatch ∈ presented, dispatch.body.length ≤ 40956 := by
  cases Reader.step_cases hstep with
  | @read bytes _ hfit _ =>
    have hwrite := hvalid.get_writable_size_eq
    exact ⟨(@RecvBuffer.Valid.store_spec _ hvalid bytes (by omega)).1, by simp⟩
  | empty =>
    have hwrite := hvalid.write_le_size
    exact ⟨(@RecvBuffer.Valid.store_spec _ hvalid [] (by simpa using hwrite)).1, by simp⟩
  | error => exact ⟨hvalid, by simp⟩
  | stop => exact ⟨hvalid, by simp⟩
  | present _ hpresent =>
    refine ⟨hvalid, ?_⟩
    intro dispatch hmem
    rw [List.mem_singleton.mp hmem]
    exact length_body_le_of_present hvalid hpresent
  | @advance dispatch _ => exact ⟨consume_valid hvalid dispatch.header.size, by simp⟩
  | register_recv => exact ⟨hvalid, by simp⟩

/-- The bytes that the reads of a run have stored. -/
def delivered (events : List ReadEvent) : List UInt8 :=
  events.flatMap fun event => match event with
    | .read bytes => bytes
    | _ => []

@[simp] theorem delivered_nil : delivered [] = [] := rfl

@[simp] theorem delivered_append (first second : List ReadEvent) :
    delivered (first ++ second) = delivered first ++ delivered second := List.flatMap_append

@[simp] theorem delivered_read (bytes : List UInt8) (events : List ReadEvent) :
    delivered (.read bytes :: events) = bytes ++ delivered events := rfl

/-- The presented packet that has not been consumed yet. -/
def Reader.pending (self : Reader) : List Dispatch :=
  match self.pc with
  | .handling dispatch => [dispatch]
  | _ => []

/-- The packets of positive size, those that move the read position. -/
def positivePackets (dispatched : List Dispatch) : List Packet :=
  (dispatched.map Dispatch.toPacket).filter fun packet => 0 < packet.header.size

/-- What a run of the read handler maintains. The unread bytes are what the
    consumed packets leave over of everything delivered, and each presented
    packet was found at the front of what was unread at the time. -/
structure Reader.Inv (events : List ReadEvent) (reader : Reader) (log : List Dispatch) : Prop where
  valid : reader.recv_buffer.Valid
  read_pos : reader.recv_buffer.read_pos = 0
  handling : ∀ dispatch ∈ reader.pending, present reader.recv_buffer = some dispatch
  incomplete : reader.pc ≠ .looping → reader.pending = [] →
    nextPacket 40960 reader.recv_buffer.unread = none
  reaches : ∃ consumed, log = consumed ++ reader.pending ∧
    (packetSplitter 40960).Reaches (delivered events) (positivePackets consumed)
      reader.recv_buffer.unread
  presented : ∀ dispatch ∈ log, dispatch.recv_buffer.Valid ∧
    present dispatch.recv_buffer = some dispatch ∧
    ∃ packets more, (packetSplitter 40960).Reaches (delivered events) packets
      (dispatch.recv_buffer.unread ++ more)

theorem Reader.inv_start : Reader.Inv [] Reader.start [] where
  valid := RecvBuffer.valid_new
  read_pos := rfl
  handling := by simp [Reader.pending, Reader.start]
  incomplete := fun _ _ => Connection.atRest_new.incomplete
  reaches := ⟨[], rfl, RecvBuffer.unread_new ▸ .refl _⟩
  presented := by simp

theorem positivePackets_snoc_of_pos {dispatched : List Dispatch} {dispatch : Dispatch}
    (hpos : 0 < dispatch.header.size) :
    positivePackets (dispatched ++ [dispatch]) =
      positivePackets dispatched ++ [dispatch.toPacket] := by
  simp [positivePackets, Dispatch.toPacket, hpos]

theorem positivePackets_snoc_of_zero {dispatched : List Dispatch} {dispatch : Dispatch}
    (hzero : dispatch.header.size = 0) :
    positivePackets (dispatched ++ [dispatch]) = positivePackets dispatched := by
  simp [positivePackets, Dispatch.toPacket, hzero]

/-- The invariant survives a step that neither delivers nor emits anything
    and keeps the unread bytes and the consumed packets as they were. -/
private theorem Reader.Inv.of_same {events : List ReadEvent} {self next : Reader}
    {log : List Dispatch} {event : ReadEvent} (hinv : Reader.Inv events self log)
    (hvalid : next.recv_buffer.Valid) (hread : next.recv_buffer.read_pos = 0)
    (hunread : next.recv_buffer.unread = self.recv_buffer.unread)
    (hdelivered : delivered [event] = [])
    (hpending : self.pending = []) (hnext : next.pending = [])
    (hincomplete : nextPacket 40960 self.recv_buffer.unread = none) :
    Reader.Inv (events ++ [event]) next (log ++ []) := by
  obtain ⟨consumed, hlog, hreach⟩ := hinv.reaches
  refine ⟨hvalid, hread, by simp [hnext], fun _ _ => by rw [hunread]; exact hincomplete, ?_, ?_⟩
  · refine ⟨consumed, ?_, ?_⟩
    · rw [hlog, hpending, hnext, List.append_nil]
    · rw [delivered_append, hdelivered, List.append_nil, hunread]
      exact hreach
  · rw [delivered_append, hdelivered, List.append_nil, List.append_nil]
    exact hinv.presented

theorem Reader.Inv.step {events : List ReadEvent} {self next : Reader} {log emitted : List Dispatch}
    {event : ReadEvent} (hinv : Reader.Inv events self log)
    (hstep : self.step event = some (next, emitted)) :
    Reader.Inv (events ++ [event]) next (log ++ emitted) := by
  obtain ⟨consumed, hlog, hreach⟩ := hinv.reaches
  cases Reader.step_cases hstep with
  | @read bytes hpc hfit hne =>
    have hpending : self.pending = [] := by simp [Reader.pending, hpc]
    have hwrite := hinv.valid.get_writable_size_eq
    obtain ⟨hvalid, hread, _, hunread⟩ :=
      @RecvBuffer.Valid.store_spec self.recv_buffer hinv.valid bytes (by omega)
    have hdelivered : delivered (events ++ [.read bytes]) = delivered events ++ bytes := by simp
    rw [List.append_nil]
    refine ⟨hvalid, hread.trans hinv.read_pos, by simp [Reader.pending], by simp, ?_, ?_⟩
    · refine ⟨consumed, by rw [hlog, hpending]; rfl, ?_⟩
      rw [hdelivered]
      exact hunread ▸ hreach.append bytes
    · intro dispatch hmem
      obtain ⟨hdispatch, hpresent, packets, more, hpackets⟩ := hinv.presented dispatch hmem
      refine ⟨hdispatch, hpresent, packets, more ++ bytes, ?_⟩
      rw [hdelivered, ← List.append_assoc]
      exact hpackets.append bytes
  | empty hpc =>
    have hpending : self.pending = [] := by simp [Reader.pending, hpc]
    have hwrite := hinv.valid.write_le_size
    obtain ⟨hvalid, hread, _, hunread⟩ :=
      @RecvBuffer.Valid.store_spec self.recv_buffer hinv.valid [] (by simpa using hwrite)
    exact hinv.of_same hvalid (hread.trans hinv.read_pos)
      (hunread.trans (List.append_nil _)) rfl hpending rfl
      (hinv.incomplete (by simp [hpc]) hpending)
  | error hpc =>
    have hpending : self.pending = [] := by simp [Reader.pending, hpc]
    exact hinv.of_same hinv.valid hinv.read_pos rfl rfl hpending rfl
      (hinv.incomplete (by simp [hpc]) hpending)
  | stop hpc hbreak =>
    have hpending : self.pending = [] := by simp [Reader.pending, hpc]
    exact hinv.of_same hinv.valid hinv.read_pos rfl rfl hpending rfl
      (next_eq_none_of_present hinv.valid hbreak)
  | @present dispatch hpc hpresent =>
    have hpending : self.pending = [] := by simp [Reader.pending, hpc]
    have hdelivered : delivered (events ++ [.present]) = delivered events := by
      simp [delivered]
    rw [hpending, List.append_nil] at hlog
    refine ⟨hinv.valid, hinv.read_pos, ?_, ?_, ?_, ?_⟩
    · intro other hmem
      rw [List.mem_singleton.mp hmem]
      exact hpresent
    · intro _ hnone
      cases hnone
    · refine ⟨consumed, by rw [hlog]; rfl, ?_⟩
      rw [hdelivered]
      exact hreach
    · intro other hmem
      rw [hdelivered]
      rcases List.mem_append.mp hmem with hbefore | hnew
      · exact hinv.presented other hbefore
      · obtain rfl := List.mem_singleton.mp hnew
        obtain ⟨_, _, rfl⟩ := (present_eq_some_iff hinv.valid).mp hpresent
        exact ⟨hinv.valid, hpresent, _, [], by rw [List.append_nil]; exact hreach⟩
  | @advance dispatch hpc =>
    have hpending : self.pending = [dispatch] := by simp [Reader.pending, hpc]
    have hdelivered : delivered (events ++ [.advance]) = delivered events := by
      simp [delivered]
    have hpresent := hinv.handling dispatch (by simp [hpending])
    obtain ⟨hvalid, hread, hunread, hnext⟩ :=
      iteration_spec hinv.valid (iteration_eq_some_iff.mpr ⟨hpresent, rfl⟩)
    rw [List.append_nil]
    refine ⟨hvalid, hread, by simp [Reader.pending], by simp, ?_, ?_⟩
    · refine ⟨consumed ++ [dispatch], by rw [hlog, hpending]; simp [Reader.pending], ?_⟩
      rw [hdelivered]
      rcases Nat.eq_zero_or_pos dispatch.header.size with hzero | hpos
      · rw [positivePackets_snoc_of_zero hzero]
        rw [hzero, List.drop_zero] at hunread
        simp only [hzero, hunread]
        exact hreach
      · rw [positivePackets_snoc_of_pos hpos]
        exact hreach.snoc (hnext hpos)
    · rw [hdelivered]
      exact hinv.presented
  | register_recv hpc =>
    have hpending : self.pending = [] := by simp [Reader.pending, hpc]
    refine hinv.of_same hinv.valid hinv.read_pos rfl rfl hpending ?_
      (hinv.incomplete (by simp [hpc]) hpending)
    cases hopen : self.is_open <;> simp [Reader.pending]

/-- The invariant of every run of the read handler. -/
theorem Reader.inv_of_exec {events : List ReadEvent} {self : Reader} {log : List Dispatch}
    (hexec : readerMachine.exec Reader.start events = some (self, log)) :
    Reader.Inv events self log :=
  readerMachine.exec_induct Reader.Inv Reader.inv_start
    (fun _ _ _ _ _ _ _ hinv hstep => hinv.step hstep) events self log hexec

/-- On a stream of frames every presented packet has positive size. -/
theorem Reader.Inv.positivePackets_eq {events : List ReadEvent} {reader : Reader}
    {log : List Dispatch} (hinv : Reader.Inv events reader log) {limit : Nat}
    (hlimit : limit < 2 ^ 16) {frames : List (Frame limit)}
    (hfront : delivered events <+: frames.flatMap Frame.encode) :
    positivePackets log = log.map Dispatch.toPacket := by
  apply List.filter_eq_self.mpr
  intro packet hmem
  obtain ⟨dispatch, hdispatch, rfl⟩ := List.mem_map.mp hmem
  obtain ⟨hvalid, hpresent, packets, more, hreach⟩ := hinv.presented dispatch hdispatch
  obtain ⟨hheader, _, heq⟩ := (present_eq_some_iff hvalid).mp hpresent
  obtain ⟨_, later, _, _, _, hlater⟩ := reaches_of_front hlimit hreach hfront
  have hunread := (List.prefix_append dispatch.recv_buffer.unread more).trans hlater
  obtain ⟨frame, _, _, hread⟩ := read_of_front hlimit hunread hheader
  have hsize : dispatch.header.size = frame.size := by
    rw [heq, hread]
  simp only [Dispatch.toPacket, decide_eq_true_eq, hsize, Frame.size]
  omega

/-- The presented packets of positive size are the first ones of what has been
    delivered, also when the last one has not been consumed yet. -/
theorem Reader.Inv.reaches_presented {events : List ReadEvent} {reader : Reader}
    {log : List Dispatch} (hinv : Reader.Inv events reader log) :
    ∃ rest, (packetSplitter 40960).Reaches (delivered events) (positivePackets log) rest := by
  obtain ⟨consumed, hlog, hreach⟩ := hinv.reaches
  cases hpc : reader.pc with
  | handling dispatch =>
    have hpending : reader.pending = [dispatch] := by simp [Reader.pending, hpc]
    rw [hlog, hpending]
    have hpresent := hinv.handling dispatch (by simp [hpending])
    obtain ⟨_, _, _, hnext⟩ :=
      iteration_spec hinv.valid (iteration_eq_some_iff.mpr ⟨hpresent, rfl⟩)
    rcases Nat.eq_zero_or_pos dispatch.header.size with hzero | hpos
    · rw [positivePackets_snoc_of_zero hzero]
      exact ⟨_, hreach⟩
    · rw [positivePackets_snoc_of_pos hpos]
      exact ⟨_, hreach.snoc (hnext hpos)⟩
  | _ =>
    have hpending : reader.pending = [] := by simp [Reader.pending, hpc]
    rw [hlog, hpending, List.append_nil]
    exact ⟨_, hreach⟩

/-- On a stream of frames the presented packets are the first frames. -/
theorem Reader.Inv.presented_of_front {events : List ReadEvent} {reader : Reader}
    {log : List Dispatch} (hinv : Reader.Inv events reader log) {limit : Nat}
    (hlimit : limit < 2 ^ 16) {frames : List (Frame limit)}
    (hfront : delivered events <+: frames.flatMap Frame.encode) :
    ∃ whole later, frames = whole ++ later ∧
      log.map Dispatch.toPacket = whole.map Frame.toPacket := by
  obtain ⟨rest, hreach⟩ := hinv.reaches_presented
  rw [hinv.positivePackets_eq hlimit hfront] at hreach
  obtain ⟨whole, later, hframes, hpackets, _, _⟩ := reaches_of_front hlimit hreach hfront
  exact ⟨whole, later, hframes, hpackets⟩

/-- The socket is closed, and no read is outstanding. -/
def Reader.Ended (self : Reader) : Prop :=
  self.is_open = false ∧ (self.pc = .returned ∨ self.pc = .idle)

/-- The completion of a read runs `Session::Close`: the read has failed, or
    `ProcessRecv` is called for no bytes. -/
def ReadEvent.RunsClose : ReadEvent → Prop
  | .error => True
  | .read bytes => bytes = []
  | _ => False

theorem Reader.ended_of_runsClose {self next : Reader} {event : ReadEvent}
    {presented : List Dispatch} (hclose : event.RunsClose)
    (hstep : self.step event = some (next, presented)) : next.Ended ∧ presented = [] := by
  cases Reader.step_cases hstep with
  | read _ _ hne => exact absurd hclose hne
  | empty => exact ⟨⟨rfl, .inl rfl⟩, rfl⟩
  | error => exact ⟨⟨rfl, .inr rfl⟩, rfl⟩
  | _ => exact hclose.elim

/-- After its socket has been closed a read handler issues no read and presents
    nothing. -/
theorem Reader.Ended.step {self next : Reader} {event : ReadEvent} {presented : List Dispatch}
    (hended : self.Ended) (hstep : self.step event = some (next, presented)) :
    next.Ended ∧ presented = [] := by
  obtain ⟨hclosed, hpcs⟩ := hended
  cases Reader.step_cases hstep with
  | register_recv =>
    refine ⟨⟨hclosed, ?_⟩, rfl⟩
    simp only [hclosed]
    exact .inr rfl
  | read hpc => simp [hpc] at hpcs
  | empty hpc => simp [hpc] at hpcs
  | error hpc => simp [hpc] at hpcs
  | stop hpc => simp [hpc] at hpcs
  | present hpc => simp [hpc] at hpcs
  | advance hpc => simp [hpc] at hpcs

theorem Reader.Ended.exec {self next : Reader} {events : List ReadEvent} {log : List Dispatch}
    (hended : self.Ended) (hexec : readerMachine.exec self events = some (next, log)) :
    next.Ended ∧ log = [] := by
  refine readerMachine.exec_induct (fun _ reader log => reader.Ended ∧ log = []) ⟨hended, rfl⟩ ?_
    events next log hexec
  rintro _ reader _ event next presented _ ⟨hreader, rfl⟩ hstep
  exact hreader.step hstep

/-- A read handler closes its socket only when no read is outstanding. -/
theorem Reader.ended_of_exec {self : Reader} {events : List ReadEvent} {log : List Dispatch}
    (hexec : readerMachine.exec Reader.start events = some (self, log))
    (hclosed : self.is_open = false) : self.Ended := by
  have hopen : self.is_open = true ∨ self.Ended := by
    refine readerMachine.exec_invariant (fun reader => reader.is_open = true ∨ reader.Ended)
      (.inl rfl) ?_ hexec
    intro reader event next presented hreader hstep
    rcases hreader with hreader | hended
    · cases Reader.step_cases hstep with
      | empty => exact .inr ⟨rfl, .inl rfl⟩
      | error => exact .inr ⟨rfl, .inr rfl⟩
      | _ => exact .inl hreader
    · exact .inr (hended.step hstep).1
  rw [hclosed] at hopen
  exact hopen.resolve_left Bool.false_ne_true

end topview.session
