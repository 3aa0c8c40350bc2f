import CppNetEngine.Send.Sender

/-!
# The sender and the callbacks of its session

`Send`, `Process` and `Register` of `Sender.cpp`, with `Clear`, `Session::Disconnect` and
`Disconnector::Register`, as functions of one thread. They call back into the application, which may
call `Send` and `Disconnect` of the same session from there, and these may call back again
(`Callback`). What `WSASend` and `DisconnectEx` answer, and what the callbacks do, is given
(`Surroundings`). A call of a function of a null `mpOwner` has no result.
-/

namespace CppNetEngine

/-- A sender with its session. -/
structure SenderSession (β : Type) where
  sender : Sender β
  /-- `mDisconnector.mpOwner` is not null. -/
  mDisconnectorOwner : Bool
  /-- The calls of `mpOwner->Disconnect` by the sender. -/
  disconnectCalls : List DisconnectReason

/-- What a call does; `none`: it went through a null `mpOwner` of the sender. -/
abbrev Effect (β : Type) := SenderSession β → Option (SenderSession β)

/-- What a call is answered, and what the callbacks it makes do. -/
structure Surroundings (κ : Type) where
  wsaSend : WsaResult
  disconnectEx : WsaResult
  /-- `OnError` for `WSASend`. -/
  onError : κ
  onDisconnecting : κ
  /-- `OnError` for `DisconnectEx`. -/
  onDisconnectError : κ

namespace SenderSession

variable {β : Type}

/-- `Sender::Clear`. -/
def clear (s : SenderSession β) : SenderSession β :=
  { s with sender := Sender.clearSteps.foldl Sender.clearStep s.sender }

/-- `Disconnector::Register`. -/
def registerDisconnect (env : Surroundings (Effect β)) : Effect β := fun s =>
  if s.mDisconnectorOwner = false then some s
  else
    match env.disconnectEx with
    | .error errorCode => do
      let s ← env.onDisconnectError
        { s with sender := { s.sender with onError := s.sender.onError ++ [errorCode] } }
      return { s with mDisconnectorOwner := false }
    | _ => some s

/-- `Session::Disconnect`. -/
def disconnect (env : Surroundings (Effect β)) (reason : DisconnectReason) : Effect β := fun s =>
  if s.sender.isDisconnected then some s
  else do
    let s ← env.onDisconnecting { s with sender := s.sender.disconnect reason }
    registerDisconnect env s

/-- `mpOwner->Disconnect` in the sender. -/
def ownerDisconnect (env : Surroundings (Effect β)) (reason : DisconnectReason) : Effect β :=
  fun s =>
    if s.sender.mpOwner then
      disconnect env reason { s with disconnectCalls := s.disconnectCalls ++ [reason] }
    else none

/-- `Register`. It does not come to its second attempt: with nothing in between, the queue is empty
when nothing could be dequeued. -/
def register (env : Surroundings (Effect β)) : Effect β := fun s =>
  if s.sender.isGone then some s.clear
  else if s.sender.mbSendRegistered then some s
  else
    let wsabufs := s.sender.mSendQueue.take Sender.maxSendWsabufSize
    let sender : Sender β := { s.sender with
      mbSendRegistered := true
      mSendQueue := s.sender.mSendQueue.drop Sender.maxSendWsabufSize
      sendPendingBuffer := s.sender.sendPendingBuffer ++ wsabufs
      mSendEventOwner := s.sender.mpOwner }
    if wsabufs.length = 0 then
      some { s with sender := { s.sender with mbSendRegistered := false } }
    else
      match env.wsaSend with
      | .error errorCode => do
        let s ← env.onError
          { s with sender := { sender with onError := sender.onError ++ [errorCode] } }
        let s ← ownerDisconnect env .socketError s
        return s.clear
      | _ =>
        some { s with sender := { sender with
          outstanding := sender.outstanding ++ [wsabufs]
          submitted := sender.submitted ++ wsabufs } }

/-- `Send`. -/
def send (env : Surroundings (Effect β)) (pSendBuffer : β) : Effect β := fun s =>
  if s.sender.isGone then some s.clear
  else if s.sender.mMaxCount ≤ s.sender.mSendQueue.length then
    ownerDisconnect env .serviceError s.clear
  else
    register env
      { s with sender := { s.sender with
        mSendQueue := s.sender.mSendQueue ++ [pSendBuffer]
        enqueued := s.sender.enqueued ++ [pSendBuffer] } }

/-- `Process`. -/
def process (env : Surroundings (Effect β)) (onSend : Effect β) (numOfBytes : Nat) : Effect β :=
  fun s =>
    let s : SenderSession β := { s with sender := { s.sender with sendPendingBuffer := [] } }
    if s.sender.isGone then some s.clear
    else if numOfBytes = 0 then do
      let s ← ownerDisconnect env .kicked s
      return s.clear
    else do
      let s ← onSend { s with sender := { s.sender with onSend := s.sender.onSend ++ [numOfBytes] } }
      let s : SenderSession β := { s with sender := { s.sender with mbSendRegistered := false } }
      if s.sender.mSendQueue.isEmpty then some s else register env s

end SenderSession

/-- What the application does in a callback: it calls `Send` and `Disconnect` of the session, with
what is answered and done in the callbacks of these calls. -/
inductive Callback (β : Type)
  | ret
  | send (pSendBuffer : β) (wsaSend disconnectEx : WsaResult)
    (onError onDisconnecting onDisconnectError next : Callback β)
  | disconnect (reason : DisconnectReason) (wsaSend disconnectEx : WsaResult)
    (onError onDisconnecting onDisconnectError next : Callback β)

namespace Callback

variable {β : Type}

/-- The callback as it runs. -/
def run : Callback β → Effect β
  | ret => some
  | send pSendBuffer wsaSend disconnectEx onError onDisconnecting onDisconnectError next => fun s => do
    let s ← SenderSession.send
      ⟨wsaSend, disconnectEx, onError.run, onDisconnecting.run, onDisconnectError.run⟩ pSendBuffer s
    next.run s
  | disconnect reason wsaSend disconnectEx onError onDisconnecting onDisconnectError next =>
    fun s => do
    let s ← SenderSession.disconnect
      ⟨wsaSend, disconnectEx, onError.run, onDisconnecting.run, onDisconnectError.run⟩ reason s
    next.run s

/-- It calls no `Send`, where the session is Disconnected already. -/
def sendsNothing : Callback β → Bool
  | ret => true
  | send .. => false
  | disconnect _ _ _ _ _ _ next => next.sendsNothing

end Callback

namespace Surroundings

variable {β : Type}

/-- With the callbacks as they run. -/
def run (env : Surroundings (Callback β)) : Surroundings (Effect β) :=
  ⟨env.wsaSend, env.disconnectEx, env.onError.run, env.onDisconnecting.run,
    env.onDisconnectError.run⟩

/-- `Disconnect` calls no `Send` back: not from `OnDisconnecting`, nor from `OnError` if the
disconnector, which has an owner or not, comes to it. -/
def sendsNothing (mDisconnectorOwner : Bool) (env : Surroundings (Callback β)) : Bool :=
  env.onDisconnecting.sendsNothing &&
    (!mDisconnectorOwner || decide env.disconnectEx.Accepted || env.onDisconnectError.sendsNothing)

end Surroundings

/-- What a callback leaves of the owner of a sender whose flag is raised and whose queue has room for
`room` more buffers: it stays, if no more than these are sent before the session is disconnected,
and none from then on. -/
def Callback.keepsOwner {β : Type} (mDisconnectorOwner : Bool) : Nat → Callback β → Bool
  | _, ret => true
  | room, send _ _ _ _ _ _ next => decide (0 < room) && next.keepsOwner mDisconnectorOwner (room - 1)
  | _, disconnect _ wsaSend disconnectEx onError onDisconnecting onDisconnectError next =>
    Surroundings.sendsNothing mDisconnectorOwner
      ⟨wsaSend, disconnectEx, onError, onDisconnecting, onDisconnectError⟩ && next.sendsNothing

end CppNetEngine
