import CppNetEngine.Receive.Framing
import CppNetEngine.Session.State

/-!
# The receiver of a session

`Receiver` of `Receiver.h`/`Receiver.cpp`: `Register` posts a `WSARecv` into the free part of the
ring buffer, as one or two `WSABUF`s, and `Process` handles its completion. What the receiver does
to its session is kept beside it: the `WSARecv` in flight, the state word (disconnected or not)
and the callbacks made. The kernel fills the posted `WSABUF`s in order (`scatter`).
-/

namespace CppNetEngine

/-- `WSABUF`: an offset in `mpBuffer` and a length. -/
structure WsaBuf where
  buf : Nat
  len : Nat
  deriving DecidableEq

/-- A receiver and its session. -/
structure Receiver where
  /-- `mpOwner` is not null. -/
  mpOwner : Bool
  mNetReceiveBuffer : NetReceiveBuffer
  isDisconnected : Bool
  /-- The `WSARecv` in flight. -/
  wsabufs : Option (List WsaBuf)
  onRecvPacket : List (List (Option UInt8))
  onDisconnecting : List DisconnectReason
  onError : List Nat

namespace Receiver

/-- The constructor, then `SetOwner` by a connected session. -/
def new : Receiver :=
  { mpOwner := true
    mNetReceiveBuffer := .new NetReceiveBuffer.defaultBufferSize NetReceiveBuffer.defaultBufferSize_pos
    isDisconnected := false
    wsabufs := none
    onRecvPacket := []
    onDisconnecting := []
    onError := [] }

def clear (s : Receiver) : Receiver :=
  { s with mpOwner := false, mNetReceiveBuffer := s.mNetReceiveBuffer.clear }

/-- `Session::Disconnect`. -/
def disconnect (s : Receiver) (reason : DisconnectReason) : Receiver :=
  if s.isDisconnected then s
  else { s with isDisconnected := true, onDisconnecting := s.onDisconnecting ++ [reason] }

/-- The `WSABUF`s `Register` builds. -/
def registerBufs (b : NetReceiveBuffer) : List WsaBuf :=
  let freeSize := b.getFreeSize
  let linearSize := b.getLinearWriteSize
  let remainSize := freeSize - linearSize
  if remainSize ≠ 0 then [⟨b.mWritePos, linearSize⟩, ⟨0, remainSize⟩]
  else [⟨b.mWritePos, linearSize⟩]

def register (s : Receiver) (wsaReceive : WsaResult) : Receiver :=
  if s.mpOwner = false ∨ s.isDisconnected = true then s.clear
  else if s.mNetReceiveBuffer.getFreeSize = 0 then (s.disconnect .kicked).clear
  else
    match wsaReceive with
    | .error errorCode =>
      ({ s with onError := s.onError ++ [errorCode] }.disconnect .socketError).clear
    | _ => { s with wsabufs := some (registerBufs s.mNetReceiveBuffer) }

/-- `Process`; no result stands for a read of bytes nobody wrote. -/
def process (s : Receiver) (wsaReceive : WsaResult) (numOfBytes : Nat) : Option Receiver :=
  if s.mpOwner = false ∨ s.isDisconnected = true then some s.clear
  else if numOfBytes = 0 then some (s.disconnect .kicked).clear
  else
    let b := s.mNetReceiveBuffer.moveWritePos numOfBytes
    let dataSize := b.getUseSize
    let received := PacketSession.onReceive b.getReadPtr numOfBytes
    let s := { s with mNetReceiveBuffer := b, onRecvPacket := s.onRecvPacket ++ received.1 }
    match received.2 with
    | .indeterminate => none
    | .malformed => some (s.disconnect .kicked).clear
    | .processed processLen =>
      if dataSize < processLen then some (s.disconnect .kicked).clear
      else some ({ s with mNetReceiveBuffer := b.moveReadPos processLen }.register wsaReceive)

/-! ## What the callbacks see -/

@[simp] theorem clear_onRecvPacket (s : Receiver) : s.clear.onRecvPacket = s.onRecvPacket := rfl

@[simp] theorem disconnect_onRecvPacket (s : Receiver) (reason : DisconnectReason) :
    (s.disconnect reason).onRecvPacket = s.onRecvPacket := by
  unfold disconnect
  split <;> rfl

@[simp] theorem register_onRecvPacket (s : Receiver) (wsaReceive : WsaResult) :
    (s.register wsaReceive).onRecvPacket = s.onRecvPacket := by
  unfold register
  split
  · rfl
  · split
    · simp
    · cases wsaReceive <;> simp

theorem process_delivers {s s' : Receiver} {wsaReceive : WsaResult} {numOfBytes : Nat}
    (ho : s.mpOwner = true) (hc : s.isDisconnected = false) (hn : numOfBytes ≠ 0)
    (h : s.process wsaReceive numOfBytes = some s') :
    s'.onRecvPacket = s.onRecvPacket ++ (PacketSession.onReceive
      (s.mNetReceiveBuffer.moveWritePos numOfBytes).getReadPtr numOfBytes).1 := by
  unfold process at h
  rw [if_neg (by simp [ho, hc]), if_neg hn] at h
  dsimp only at h
  split at h
  · cases h
  · cases h
    simp
  · split at h
    · cases h
      simp
    · cases h
      simp

theorem register_full {s : Receiver} {wsaReceive : WsaResult} (ho : s.mpOwner = true)
    (hc : s.isDisconnected = false) (h : s.mNetReceiveBuffer.getFreeSize = 0) :
    s.register wsaReceive = (s.disconnect .kicked).clear := by
  unfold register
  rw [if_neg (by simp [ho, hc]), if_pos h]

/-- What `OnReceive` returned is consumed, and the next `WSARecv` posted. -/
theorem process_processed {s : Receiver} {wsaReceive : WsaResult} {numOfBytes processLen : Nat}
    {packets : List (List (Option UInt8))} (ho : s.mpOwner = true)
    (hc : s.isDisconnected = false) (hn : numOfBytes ≠ 0)
    (h : PacketSession.onReceive (s.mNetReceiveBuffer.moveWritePos numOfBytes).getReadPtr
      numOfBytes = (packets, .processed processLen))
    (hle : processLen ≤ (s.mNetReceiveBuffer.moveWritePos numOfBytes).getUseSize) :
    s.process wsaReceive numOfBytes = some ({ s with
      mNetReceiveBuffer := (s.mNetReceiveBuffer.moveWritePos numOfBytes).moveReadPos processLen
      onRecvPacket := s.onRecvPacket ++ packets }.register wsaReceive) := by
  unfold process
  rw [if_neg (by simp [ho, hc]), if_neg hn]
  simp only [h]
  exact if_neg (Nat.not_lt.2 hle)

/-- Whatever the state, `Process` appends to the packets handed over, and what it appends has no
more bytes than the completion. -/
theorem process_onRecvPacket {s s' : Receiver} {wsaReceive : WsaResult} {numOfBytes : Nat}
    (h : s.process wsaReceive numOfBytes = some s') :
    ∃ d, s'.onRecvPacket = s.onRecvPacket ++ d ∧ d.flatten.length ≤ numOfBytes := by
  by_cases ho : s.mpOwner = false ∨ s.isDisconnected = true
  · unfold process at h
    rw [if_pos ho] at h
    cases h
    exact ⟨[], by simp, by simp⟩
  · by_cases hn : numOfBytes = 0
    · unfold process at h
      rw [if_neg ho, if_pos hn] at h
      cases h
      exact ⟨[], by simp, by simp⟩
    · simp only [not_or, Bool.not_eq_false, Bool.not_eq_true] at ho
      exact ⟨_, process_delivers ho.1 ho.2 hn h, PacketSession.onReceiveLoop_length _ numOfBytes 0⟩

/-! ## Completions -/

/-- The kernel places received bytes in order into the posted `WSABUF`s. -/
def scatter (p : Memory) : List WsaBuf → List UInt8 → Memory
  | [], _ => p
  | w :: ws, data => scatter (p.store w.buf (data.take w.len)) ws (data.drop w.len)

/-- The `WSARecv` in flight completes with the bytes `data`. -/
def arrive (s : Receiver) (data : List UInt8) : Receiver :=
  let b := s.mNetReceiveBuffer
  { s with
    mNetReceiveBuffer := { b with mpBuffer := scatter b.mpBuffer (s.wsabufs.getD []) data }
    wsabufs := none }

/-- A completion and its `Process`; the next `WSARecv` is accepted. -/
def receive (s : Receiver) (data : List UInt8) : Option Receiver :=
  (s.arrive data).process .pending data.length

/-- A connected session's receiver after its first `Register`. -/
def start : Receiver := new.register .pending

/-- One completion after the other. -/
def run (s : Receiver) : List (List UInt8) → Option Receiver
  | [] => some s
  | chunk :: chunks => (s.receive chunk).bind (run · chunks)

end Receiver

end CppNetEngine
