import TopView.Transition.Machine
import TopView.Transition.Standing
import TopView.Transition.Heap
import TopView.Framing.Splitter
import TopView.RecvBuffer
import TopView.Transition.Simulation
import TopView.Transition.Queue
import TopView.Transition.Ranking
import TopView.RecvBuffer.Fifo
import TopView.Packet
import TopView.Session.ProcessRecv
import TopView.Session.Termination
import TopView.Session.Framing
import TopView.Session.Reader
import TopView.PacketHandler
import TopView.Session.Reach
import TopView.Session.Capacity
import TopView.Session.HandlerRange
import TopView.Session.Send
import TopView.Session.Wire
import TopView.Room.Flush
import TopView.Room.Rounds
import TopView.Room.TotalOrder
import TopView.Room.WakeUp
import TopView.ChatHandler
import TopView.Server.RoomView
import TopView.Server.Sessions
import TopView.Room.Delivery
import TopView.Server.Snapshots
import TopView.Server.Relay
import TopView.Server.PayloadSize
import TopView.Server.Closing
import TopView.Room.Registry
import TopView.Server.LifeCycle
import TopView.Room.Batching
import TopView.Session.BufferInvariant
import TopView.Session.Transparency
import TopView.Session.Compaction
import TopView.PacketHandler.MakeSendBuffer
import TopView.ChatClient.Step
import TopView.ChatClient.Frames
import TopView.ChatClient.Stream
import TopView.DummyClient.ServerSession
import TopView.DummyClient.SessionManager
import TopView.SessionManager.Step
import TopView.SessionManager.Ids
import TopView.SessionManager.Table
import TopView.SessionManager.Visits
import TopView.SessionManager.Identity
import TopView.Wire.Fields
import TopView.Protobuf.Reading
import TopView.Protobuf.Stream
import TopView.Protobuf.FieldParser
import TopView.Protobuf.Acceptance
import TopView.Protobuf.Message
import TopView.Protobuf.Utf8
import TopView.Protobuf.Cases
import TopView.Protocol.ChatParse
import TopView.Protobuf.Writing
import TopView.Protobuf.Generated
import TopView.Protocol.ChatSerialize
import TopView.Protocol.ChatText
import TopView.Server.Conversation
import TopView.Room.Drain
import TopView.Server.LoadTest
import TopView.Server.Progress
import TopView.Server.DummyLoad
import TopView.Wire.Varint
import TopView.Wire.Utf8
import TopView.Server.Sockets
