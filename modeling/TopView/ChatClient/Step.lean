import TopView.Protocol.ChatText
import TopView.Session.Send
import TopView.Transition.Machine

open topview.packet topview.protobuf topview.protocol topview.session topview.transition topview.wire

namespace topview.chat_client

/-- The bytes of a text whose characters are all ASCII. -/
def ascii (text : String) : List UInt8 := text.toList.map fun letter => UInt8.ofNat letter.toNat

/-- `std::to_string` of a number that is not negative. -/
def to_string (value : Nat) : List UInt8 := ascii value.repr

/-- The text that `message` is filled with. -/
def message (i seq : Nat) : List UInt8 :=
  ascii "hello from client " ++ (to_string i ++ (ascii " seq " ++ to_string seq))

/-- `kMaxBodySize`. -/
def max_body_size : Nat := 256

/-- `header.id`. -/
def header_id : Nat := 1

/-- One of the sockets of the program. -/
structure Socket where
  is_open : Bool
  /-- Whether the connection takes what is written. -/
  connected : Bool
  deriving DecidableEq, Repr

/-- Where `main` stands. -/
inductive MainPc where
  /-- The loop that connects the sockets. -/
  | connect
  /-- The condition of the outer loop. -/
  | test
  /-- The inner loop, before the round for a socket. -/
  | send (i : Nat)
  /-- The loop that closes the sockets. -/
  | close (i : Nat)
  | done
  deriving DecidableEq, Repr

/-- The variables of `main`. -/
structure Client where
  main : MainPc
  stop : Bool
  sockets : List Socket
  seqs : List Nat
  chat : Message CChat
  send_buffer : List UInt8

inductive ClientEvent where
  /-- `connect` returns, and leaves a socket like this. -/
  | connect (socket : Socket)
  /-- A step of `main` from one loop to the next. -/
  | main
  /-- A round of the inner loop. When `write` fails, it does so after a number of
      bytes. -/
  | send (failure : Option Nat)
  /-- A round of the loop that closes the sockets. -/
  | close
  /-- The other thread has read a line. -/
  | waiter
  deriving DecidableEq, Repr

inductive ClientObservation where
  /-- The connection of a socket takes bytes. -/
  | taken (i : Nat) (bytes : List UInt8)
  /-- `SerializeToArray` returns `false`. -/
  | serialize_failed (i : Nat)
  /-- `write` returns an error. -/
  | send_error (i : Nat)
  deriving DecidableEq, Repr

/-- The state in front of the loops, with a socket for each of `clientCount`
    clients to come. -/
def Client.start (client_count : Nat) : Client where
  main := .connect
  stop := false
  sockets := []
  seqs := List.replicate client_count 0
  chat := CChat.clear
  send_buffer := List.replicate (sizeof_packet_header + max_body_size) 0

/-- `connect`. It opens the socket first. -/
def Client.connect (client_count : Nat) (client : Client) (socket : Socket) : Option Client :=
  if client.main = .connect ∧ client.sockets.length < client_count ∧
      (socket.connected → socket.is_open) then
    some { client with sockets := client.sockets ++ [socket] }
  else none

/-- The steps between the loops. -/
def Client.step_main (client_count : Nat) (client : Client) : Option Client :=
  match client.main with
  | .connect =>
    if client.sockets.length = client_count then some { client with main := .test } else none
  | .test =>
    if client.stop then some { client with main := .close 0 }
    else some { client with main := .send 0 }
  | .send i => if i = client_count then some { client with main := .test } else none
  | .close i => if i = client_count then some { client with main := .done } else none
  | .done => none

/-- `boost::asio::write`. A connection on which it has failed is broken and takes
    nothing more. -/
def Socket.write (socket : Socket) (bytes : List UInt8) :
    Option Nat → Option (Socket × List UInt8)
  | none => if socket.connected then some (socket, bytes) else none
  | some count =>
    if count < bytes.length ∧ (socket.connected ∨ count = 0) then
      some ({ socket with connected := false }, bytes.take count)
    else none

/-- `resize` to at least `size` bytes. -/
def grow (buffer : List UInt8) (size : Nat) : List UInt8 :=
  if buffer.length < size then buffer ++ List.replicate (size - buffer.length) 0 else buffer

/-- The header and the body in the buffer. `none` is a write outside of it. The
    message is left out when it is not serialized. -/
def fill_send_buffer (buffer : List UInt8) (chat : Message CChat) :
    Option (List UInt8 × Option (List UInt8)) := do
  let body_size := byte_size_long CChat.layout chat % 2 ^ 32
  let total_size := (sizeof_packet_header + body_size) % 2 ^ 32
  let cursor : SendCursor := { send_buffer := grow buffer total_size, write_pos := 0 }
  let cursor ← cursor.write (uint16Bytes (toUInt16 total_size) ++ uint16Bytes header_id)
  match serialize_to_array CChat.layout chat body_size with
  | .error _ => none
  | .ok none => some (cursor.send_buffer, none)
  | .ok (some bytes) => do
    let cursor ← cursor.write bytes
    if total_size ≤ cursor.send_buffer.length then
      some (cursor.send_buffer, some (cursor.send_buffer.take total_size))
    else none

/-- What a round of the inner loop does with an open socket. -/
def Client.send_message (client : Client) (i : Nat) (socket : Socket) (failure : Option Nat) :
    Option (Client × List ClientObservation) := do
  let seq ← client.seqs[i]?
  let chat := { client.chat with impl := CChat.set_message (message i seq) }
  let (send_buffer, frame) ← fill_send_buffer client.send_buffer chat
  let next := { client with
    main := .send (i + 1)
    seqs := client.seqs.set i ((seq + 1) % 2 ^ 64)
    chat := chat
    send_buffer := send_buffer }
  match frame with
  | none => some (next, [.serialize_failed i])
  | some bytes => do
    let (socket, taken) ← socket.write bytes failure
    some ({ next with sockets := client.sockets.set i socket },
      .taken i taken :: if failure = none then [] else [.send_error i])

/-- A round of the inner loop. -/
def Client.step_send (client_count : Nat) (client : Client) (failure : Option Nat) :
    Option (Client × List ClientObservation) := do
  let .send i := client.main | none
  guard (i < client_count)
  let socket ← client.sockets[i]?
  if socket.is_open then client.send_message i socket failure
  else some ({ client with main := .send (i + 1) }, [])

/-- A round of the loop that closes the sockets. -/
def Client.step_close (client_count : Nat) (client : Client) : Option Client := do
  let .close i := client.main | none
  guard (i < client_count)
  let socket ← client.sockets[i]?
  let next := { client with main := .close (i + 1) }
  if socket.is_open then
    some { next with sockets := client.sockets.set i { is_open := false, connected := false } }
  else some next

def Client.step (client_count : Nat) (client : Client) :
    ClientEvent → Option (Client × List ClientObservation)
  | .connect socket => (client.connect client_count socket).map fun next => (next, [])
  | .main => (client.step_main client_count).map fun next => (next, [])
  | .send failure => client.step_send client_count failure
  | .close => (client.step_close client_count).map fun next => (next, [])
  | .waiter =>
    if client.main = .connect ∨ client.main = .done then none
    else some ({ client with stop := true }, [])

/-- The program, with the sockets and the thread that waits for a line. -/
def clientMachine (client_count : Nat) : Machine Client ClientEvent ClientObservation where
  step := Client.step client_count

end topview.chat_client
