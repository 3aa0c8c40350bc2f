import CppNetEngine.Receive.Proof.Resumable
import CppNetEngine.Session.State

/-!
# Handling packets

What becomes of the packets of one `OnReceive` call in the game server: `GameSession::OnRecvPacket`,
`PacketServiceTypeHandler::HandlePacketServiceType` and `LoginPacketHandler::HandlePacket`, which
find a packet's handler by its id, and `Session::Disconnect`. What the handlers return is given as
`results`, call after call.
-/

namespace CppNetEngine

/-- The handlers a packet can be delivered to. -/
inductive PacketHandle
  | serviceTypeInvalid
  | packetIdInvalid
  | c2sEchoReq
  | c2sLoginReq
  deriving DecidableEq

namespace PacketHandle

/-- `SERVICE_TYPE_LOGIN`. -/
def serviceTypeLogin : Nat := 1

/-- `ID_C2S_ECHO_REQ`. -/
def idC2sEchoReq : Nat := 0x00010001

/-- `ID_C2S_LOGIN_REQ`. -/
def idC2sLoginReq : Nat := 0x00010003

/-- `GET_SERVICE_TYPE`. -/
def getServiceType (packetId : Nat) : Nat := packetId / 65536 % 65536

/-- The entry of `LoginPacketHandler::sPacketHandleMap`. -/
def loginPacketHandler (packetId : Nat) : PacketHandle :=
  if packetId = idC2sEchoReq then c2sEchoReq
  else if packetId = idC2sLoginReq then c2sLoginReq
  else packetIdInvalid

/-- The entry of `sPacketServiceTypeMap`, and of the map behind it. -/
def find (packetId : Nat) : PacketHandle :=
  if getServiceType packetId = serviceTypeLogin then loginPacketHandler packetId
  else serviceTypeInvalid

end PacketHandle

/-- A handler's call: its packet, and what it returned. -/
structure HandlerCall where
  handle : PacketHandle
  packet : List (Option UInt8)
  result : Bool
  deriving DecidableEq

/-- A session, the calls of its handlers and of its `OnDisconnecting`. -/
structure GameSession where
  mSessionState : SessionState
  handled : List HandlerCall
  disconnecting : List DisconnectReason
  deriving DecidableEq

namespace GameSession

/-- `Session::Disconnect`, without the `DisconnectEx` of `registerDisconnect`. -/
def disconnect (reason : DisconnectReason) (session : GameSession) : GameSession :=
  if session.mSessionState = .disconnected then session
  else
    { session with
      mSessionState := .disconnected
      disconnecting := session.disconnecting ++ [reason] }

/-- `HandlePacketServiceType` on the packet at offset `k`, whose header it reads again. -/
def handlePacketServiceType (results : Nat → Bool) (pBuffer : Memory) (k : Nat)
    (session : GameSession) : Option (Bool × GameSession) := do
  let header ← PacketHeader.read pBuffer k
  let result := results session.handled.length
  let call : HandlerCall := ⟨PacketHandle.find header.id, pBuffer.slice k header.size, result⟩
  return (result, { session with handled := session.handled ++ [call] })

/-- `OnRecvPacket`. -/
def onRecvPacket (results : Nat → Bool) (pBuffer : Memory) (k : Nat) (session : GameSession) :
    Option GameSession := do
  let (result, session) ← handlePacketServiceType results pBuffer k session
  return if result = false then session.disconnect .kicked else session

/-- The loop of `PacketSession::OnReceive` from `processLen` on, with what `OnRecvPacket` does. -/
def onReceiveLoop (results : Nat → Bool) (pBuffer : Memory) (len processLen : Nat)
    (session : GameSession) : GameSession × PacketSession.ReceiveResult :=
  let dataSize := len - processLen
  if dataSize < PacketHeader.sizeOf then (session, .processed processLen)
  else
    match PacketHeader.read pBuffer processLen with
    | none => (session, .indeterminate)
    | some header =>
      if header.size < PacketHeader.sizeOf ∨ NetReceiveBuffer.defaultBufferSize < header.size then
        (session, .malformed)
      else if dataSize < header.size then (session, .processed processLen)
      else
        match onRecvPacket results pBuffer processLen session with
        | none => (session, .indeterminate)
        | some session => onReceiveLoop results pBuffer len (processLen + header.size) session
termination_by len - processLen
decreasing_by
  simp only [PacketHeader.sizeOf] at *
  omega

/-- `OnReceive` on the bytes received, for a session in the given state. -/
def onReceive (results : Nat → Bool) (mSessionState : SessionState) (xs : List UInt8) :
    GameSession × PacketSession.ReceiveResult :=
  onReceiveLoop results (PacketSession.bytes xs) xs.length 0 ⟨mSessionState, [], []⟩

/-! ## One packet -/

@[simp] theorem disconnect_handled (reason : DisconnectReason) (session : GameSession) :
    (session.disconnect reason).handled = session.handled := by
  unfold disconnect
  split <;> rfl

@[simp] theorem disconnect_mSessionState (reason : DisconnectReason) (session : GameSession) :
    (session.disconnect reason).mSessionState = .disconnected := by
  unfold disconnect
  split
  · assumption
  · rfl

/-- **What `OnRecvPacket` does**: one handler is called, with the packet that its header announces,
and the session is disconnected where the handler returns false. -/
theorem onRecvPacket_eq {results : Nat → Bool} {pBuffer : Memory} {k : Nat} {header : PacketHeader}
    (hread : PacketHeader.read pBuffer k = some header) (session : GameSession) :
    ∃ session', onRecvPacket results pBuffer k session = some session' ∧
      session'.handled = session.handled ++ [⟨PacketHandle.find header.id,
        pBuffer.slice k header.size, results session.handled.length⟩] ∧
      session'.mSessionState =
        if results session.handled.length then session.mSessionState else .disconnected := by
  unfold onRecvPacket handlePacketServiceType
  rw [hread]
  cases hresult : results session.handled.length with
  | false => exact ⟨_, rfl, by simp, by simp⟩
  | true => exact ⟨_, rfl, by simp, by simp⟩

end GameSession

end CppNetEngine
