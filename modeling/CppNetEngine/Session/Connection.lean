import CppNetEngine.Receive.Receiver
import CppNetEngine.Send.Packet
import CppNetEngine.Send.Sender

/-!
# A connection

Both ends of a connection: threads that make packets of messages and send them through the `Sender`
of a session, the bytes on their way, and the `Receiver` of the session at the other end. Of the
network only what TCP promises is assumed: what arrives is what was given to `WSASend`, in this
order and cut anywhere.
-/

namespace CppNetEngine

structure Connection where
  sender : Sender NetSendBuffer
  /-- The completions of `WSARecv` at the other end. -/
  completions : List (List UInt8)
  receiver : Receiver

namespace Connection

/-- The bytes that were given to `WSASend`, of all `WSABUF`s. -/
def stream (c : Connection) : List (Option UInt8) :=
  (c.sender.submitted.map NetSendBuffer.wsaBuf).flatten

inductive Action
  /-- `Send` with what `MakeSendBuffer` returns. -/
  | sendPacket (packet : Message) (packetId : UInt32)
  /-- The completion of the `k`-th `WSASend` in flight. -/
  | process (k numOfBytes : Nat)
  | next (wsaSend : WsaResult)

/-- What a thread of the sending end does. -/
def senderAct (a : Sender.Act NetSendBuffer) (c : Connection) (pc : Sender.Pc NetSendBuffer) :
    Option (Connection × Sender.Pc NetSendBuffer) :=
  (Sender.act a c.sender pc).map fun r => ({ c with sender := r.1 }, r.2)

def act : Action → Connection → Sender.Pc NetSendBuffer →
    Option (Connection × Sender.Pc NetSendBuffer)
  | .sendPacket packet packetId, c, pc =>
    match PacketHandler.makeSendBuffer packet packetId with
    | .sendBuffer b => c.senderAct (.send b) pc
    -- it does not return
    | .crash | .nullRead => none
  | .process k numOfBytes, c, pc => c.senderAct (.process k numOfBytes) pc
  | .next wsaSend, c, pc => c.senderAct (.next wsaSend) pc

/-- A `WSARecv` in flight completes with the bytes that come next. -/
def receive (data : List UInt8) (c : Connection) : Option Connection :=
  if c.receiver.wsabufs.isSome ∧ data.map some <+: c.stream.drop c.completions.flatten.length then
    (c.receiver.receive data).map fun receiver =>
      { c with completions := c.completions ++ [data], receiver := receiver }
  else none

abbrev State (τ : Type) := Threads τ (Sender.Pc NetSendBuffer) Connection

/-- Threads that send, while bytes arrive at the other end. -/
def machine (τ : Type) [DecidableEq τ] :
    Machine (State τ) (ThreadAction τ Action (List UInt8)) :=
  Threads.machine (fun _ => act) receive fun s =>
    (∃ maxCount, s.shared = ⟨.new NetSendBuffer maxCount, [], .start⟩) ∧ ∀ t, s.locals t = .idle

end Connection

end CppNetEngine
