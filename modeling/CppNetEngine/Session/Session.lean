import CppNetEngine.Lib.Stacks
import CppNetEngine.Receive.Buffer
import CppNetEngine.Session.State

/-!
# A session and its operations

`Session` with its `Connector`, `Disconnector`, `Receiver` and `Sender`, in any number of threads:
those that call the session's functions and those in `IocpCore::Dispatch`. Functions are lists of
statements (`clear`, `processConnect`, ...), and a thread's stack holds the statements it still has
to run. `step` is what a statement does to the session and which statements come in its place.
What the statements ask of the outside is in `Outside`: the answers of the socket calls, of the
service and of the callbacks. Bytes and buffers are left out but for their number.
-/

namespace CppNetEngine

/-- The parts of a session that issue operations, each with an owner and an event of its own. -/
inductive Component
  | connector
  | disconnector
  | receiver
  | sender
  deriving DecidableEq

structure Session where
  /-- `mpService` is not null. -/
  mpService : Bool
  /-- `mSocket` is not `INVALID_SOCKET`. -/
  mSocket : Bool
  mSessionState : SessionState
  /-- `mpOwner` of the component is not null. -/
  mpOwner : Component → Bool
  /-- The owner of the component's `IocpEvent` is not null. -/
  mEventOwner : Component → Bool
  /-- `Connector::mpService` is not null. -/
  mConnectorService : Bool
  /-- `GetServiceType()` is `Client`. -/
  isClient : Bool
  mNetReceiveBuffer : NetReceiveBuffer
  mbSendRegistered : Bool
  mMaxCount : Nat
  /-- The number of buffers in `mSendQueue`. -/
  mSendQueue : Nat
  /-- The operations issued with the component's event and not yet dequeued. -/
  inFlight : Component → Nat
  /-- The `AcceptEx` for the session is not yet dequeued. -/
  accepting : Bool
  inWaitQueue : Bool

/-- What the service does with a session in `AddSession`. -/
inductive Admission
  | added
  | entered (myTicket : Nat)
  | refused

/-- What the outside answers to the statement that asks. -/
structure Outside where
  wsaResult : WsaResult
  /-- `SetReuseAddress` and `BindAnyAddress`, `AddWaitingSession`, or another session waits. -/
  granted : Bool
  /-- `OnReceive`. -/
  processLen : Int
  admission : Admission
  /-- A `compare_exchange_weak` fails without a reason. -/
  spurious : Bool

namespace Session

/-- User code that a statement calls, and that may call the session. -/
inductive Callback
  | onConnected
  | onEnterWaitQueue (myTicket : Nat)
  | onDisconnecting (reason : DisconnectReason)
  | onDisconnected
  | onSend (len : Nat)
  | onError (errorCode : Nat)
  /-- What `RemoveSession` calls for the session it admits. -/
  | onAdmitted

/-- The functions that begin with a test of `mpOwner`. -/
inductive Op
  | connectorRegister
  | disconnectorRegister
  | receiverRegister
  | receiverProcess (numOfBytes : Nat)
  | senderSend
  | senderRegister
  | senderProcess (numOfBytes : Nat)

inductive Stmt
  /-- `mpOwner == nullptr` and the state, at the beginning of the function. -/
  | testOwner (op : Op)
  -- `SetOwner` and `Clear`
  | setOwner (c : Component)
  | setEventOwner (c : Component)
  | resetOwner (c : Component)
  | resetConnectorService
  | resetEventOwner (c : Component)
  | clearReceiveBuffer
  | storeRegistered
  /-- The nodes are deleted. No call that begins now comes to the queue: there is no owner. -/
  | clearSendQueue
  /-- `mpOwner->` a callback. -/
  | ownerCallback (c : Component) (callback : Callback)
  /-- `mpOwner->Disconnect`. -/
  | ownerDisconnect (c : Component) (reason : DisconnectReason)
  | callback (callback : Callback)
  -- `Connector::Register`
  | testService
  | bindSocket
  /-- `ConnectEx`, `DisconnectEx`, `WSARecv` or `WSASend`. -/
  | issue (c : Component)
  -- `Receiver`
  | testFreeSize
  | moveWritePos (numOfBytes : Nat)
  | ownerOnReceive (dataSize : Nat)
  | onReceive (dataSize : Nat)
  | moveReadPos (processLen : Nat)
  -- `Sender`
  | enqueue
  | exchangeRegistered
  | dequeue (sendCount : Nat)
  | setSendOwner
  | testSendQueue
  -- `Session`
  | processConnect
  | getService
  | exchangeDisconnected (reason : DisconnectReason)
  | swapInGame
  | registerReap
  | resetService
  /-- `GetService()->RemoveSession`. -/
  | serviceRemoveSession
  -- `Service`
  | addSession (pService : Bool)
  | swapConnected
  | swapWaitingToConnected
  | swapWaiting (myTicket : Nat)
  | removeSession
  /-- `admitWaitingSession` for this session, which was dequeued. -/
  | admitWaiting
  | swapAdmitted
  /-- `mpSessionManager->RemoveSession`. -/
  | managerRemoveSession
  /-- `admitWaitingSession` for another session, if one waits. -/
  | admitOther
  | releaseKeepTicket
  /-- `IocpCore::Dispatch`: the owner of the event that was dequeued. -/
  | getOwner (c : Component) (numOfBytes : Nat)

/-! ## Functions -/

/-- `Clear` of a component; `ClearOverlapped` touches nothing that is modelled. -/
def clear : Component → List Stmt
  | .connector => [.resetOwner .connector, .resetConnectorService, .resetEventOwner .connector]
  | .disconnector => [.resetOwner .disconnector, .resetEventOwner .disconnector]
  | .receiver => [.resetOwner .receiver, .resetEventOwner .receiver, .clearReceiveBuffer]
  | .sender => [.resetOwner .sender, .resetEventOwner .sender, .storeRegistered, .clearSendQueue]

/-- `Session::Clear`. -/
def clearSession : List Stmt :=
  [.resetService] ++ clear .connector ++ clear .disconnector ++ clear .receiver ++ clear .sender

/-- `Session::processConnect`. -/
def processConnect : List Stmt := clear .connector ++ [.getService]

/-- `processConnect` after `AddSession` returned true. -/
def sessionAdded : List Stmt := [.registerReap, .testOwner .receiverRegister]

/-- `AddSession` returns false after `Disconnect(StateError)`, and `processConnect` goes on. -/
def sessionFailed : List Stmt :=
  [.exchangeDisconnected .stateError, .exchangeDisconnected .serverFull]

/-- `Session::processDisconnect`. -/
def processDisconnect : List Stmt :=
  clear .disconnector ++ [.callback .onDisconnected, .serviceRemoveSession] ++ clearSession

/-- `Session::Dispatch`. -/
def dispatch (numOfBytes : Nat) : Component → List Stmt
  | .connector => processConnect
  | .disconnector => processDisconnect
  | .receiver => [.testOwner (.receiverProcess numOfBytes)]
  | .sender => [.testOwner (.senderProcess numOfBytes)]

/-- `Disconnect`, then `Clear`. -/
def kick (c : Component) (reason : DisconnectReason) : List Stmt :=
  .ownerDisconnect c reason :: clear c

/-- The error path of the socket calls. -/
def issueFailed (errorCode : Nat) : Component → List Stmt
  | .disconnector => .ownerCallback .disconnector (.onError errorCode) :: clear .disconnector
  | c => .ownerCallback c (.onError errorCode) :: kick c .socketError

/-- A statement of `Clear`, or one that an error path has before it. -/
def Stmt.ClearsUp : Stmt → Prop
  | .ownerCallback _ (.onError _) | .ownerDisconnect _ _ | .resetService => True
  | .resetOwner _ | .resetEventOwner _ | .resetConnectorService => True
  | .clearReceiveBuffer | .storeRegistered | .clearSendQueue => True
  | _ => False

theorem clearsUp_clear (c : Component) : ∀ g ∈ clear c, g.ClearsUp := by
  cases c <;> simp [clear, Stmt.ClearsUp]

theorem clearsUp_kick (c : Component) (reason : DisconnectReason) :
    ∀ g ∈ kick c reason, g.ClearsUp :=
  List.forall_mem_cons.2 ⟨trivial, clearsUp_clear c⟩

theorem clearsUp_issueFailed (c : Component) (errorCode : Nat) :
    ∀ g ∈ issueFailed errorCode c, g.ClearsUp := by
  cases c with
  | disconnector => exact List.forall_mem_cons.2 ⟨trivial, clearsUp_clear _⟩
  | connector | receiver | sender => exact List.forall_mem_cons.2 ⟨trivial, clearsUp_kick _ _⟩

theorem clearsUp_clearSession : ∀ g ∈ clearSession, g.ClearsUp := by
  simp [clearSession, clear, Stmt.ClearsUp]

namespace Op

def component : Op → Component
  | connectorRegister => .connector
  | disconnectorRegister => .disconnector
  | receiverRegister | receiverProcess _ => .receiver
  | senderSend | senderRegister | senderProcess _ => .sender

/-- The function does not `Clear` at once. -/
def passes (s : Session) : Op → Bool
  | connectorRegister => s.mpOwner .connector && s.mSessionState = .disconnected
  | disconnectorRegister => s.mpOwner .disconnector
  | op => s.mpOwner op.component && s.mSessionState ≠ .disconnected

/-- What comes after the test. -/
def body : Op → List Stmt
  | connectorRegister => [.testService]
  | disconnectorRegister => [.issue .disconnector]
  | receiverRegister => [.testFreeSize]
  | receiverProcess numOfBytes =>
    if numOfBytes = 0 then kick .receiver .kicked else [.moveWritePos numOfBytes]
  | senderSend => [.enqueue]
  | senderRegister => [.exchangeRegistered]
  | senderProcess numOfBytes =>
    if numOfBytes = 0 then kick .sender .kicked
    else [.ownerCallback .sender (.onSend numOfBytes), .storeRegistered, .testSendQueue]

end Op

/-! ## Statements -/

def maxSendWsabufSize : Nat := 64

/-- A `compare_exchange_weak` on `mSessionState` succeeds. -/
def swaps (k : Outside) (s : Session) (swap : StateSwap) : Bool :=
  s.mSessionState = swap.expected && !k.spurious

/-- The pointers that a call of `ConnectEx`, `DisconnectEx`, `WSARecv` or `WSASend` follows. -/
def canIssue (s : Session) (c : Component) : Bool :=
  s.mpOwner c && (c ≠ .connector || s.mConnectorService)

/-- A statement that follows a pointer; there is no result if it is null. -/
def follow (pointer : Bool) (r : Session × List Stmt) : Option (Session × List Stmt) :=
  if pointer then some r else none

theorem follow_eq_some {pointer : Bool} {r x : Session × List Stmt} :
    follow pointer r = some x ↔ pointer = true ∧ r = x := by
  unfold follow
  split <;> simp [*]

def step (k : Outside) (s : Session) : Stmt → Option (Session × List Stmt)
  | .testOwner op => some (s, if op.passes s then op.body else clear op.component)
  | .setOwner c =>
    some ({ s with mpOwner := Function.update s.mpOwner c true }, [.setEventOwner c])
  | .setEventOwner c => some ({ s with mEventOwner := Function.update s.mEventOwner c true }, [])
  | .resetOwner c => some ({ s with mpOwner := Function.update s.mpOwner c false }, [])
  | .resetConnectorService => some ({ s with mConnectorService := false }, [])
  | .resetEventOwner c => some ({ s with mEventOwner := Function.update s.mEventOwner c false }, [])
  | .clearReceiveBuffer => some ({ s with mNetReceiveBuffer := s.mNetReceiveBuffer.clear }, [])
  | .storeRegistered => some ({ s with mbSendRegistered := false }, [])
  | .clearSendQueue => some ({ s with mSendQueue := 0 }, [])
  | .ownerCallback c callback => follow (s.mpOwner c) (s, [.callback callback])
  | .ownerDisconnect c reason => follow (s.mpOwner c) (s, [.exchangeDisconnected reason])
  | .callback _ => some (s, [])
  | .testService =>
    some (s, if s.mConnectorService && s.isClient then [.bindSocket] else clear .connector)
  | .bindSocket =>
    follow (s.mpOwner .connector) (s, if k.granted then [.issue .connector] else clear .connector)
  | .issue c =>
    match k.wsaResult with
    | .error errorCode => follow (s.canIssue c) (s, issueFailed errorCode c)
    | _ =>
      -- the socket calls fail on `INVALID_SOCKET`
      follow (s.canIssue c && s.mSocket)
        ({ s with inFlight := Function.update s.inFlight c (s.inFlight c + 1) }, [])
  | .testFreeSize =>
    some (s, if s.mNetReceiveBuffer.getFreeSize = 0 then kick .receiver .kicked
      else [.issue .receiver])
  | .moveWritePos numOfBytes =>
    let b := s.mNetReceiveBuffer.moveWritePos numOfBytes
    some ({ s with mNetReceiveBuffer := b }, [.ownerOnReceive b.getUseSize])
  | .ownerOnReceive dataSize => follow (s.mpOwner .receiver) (s, [.onReceive dataSize])
  | .onReceive dataSize =>
    some (s, if k.processLen < 0 ∨ k.processLen > dataSize then kick .receiver .kicked
      else [.moveReadPos k.processLen.toNat, .testOwner .receiverRegister])
  | .moveReadPos processLen =>
    some ({ s with mNetReceiveBuffer := s.mNetReceiveBuffer.moveReadPos processLen }, [])
  | .enqueue =>
    if s.mMaxCount ≤ s.mSendQueue then
      some (s, clear .sender ++ [.ownerDisconnect .sender .serviceError])
    else some ({ s with mSendQueue := s.mSendQueue + 1 }, [.testOwner .senderRegister])
  | .exchangeRegistered =>
    some ({ s with mbSendRegistered := true }, if s.mbSendRegistered then [] else [.dequeue 0])
  | .dequeue sendCount =>
    match s.mSendQueue with
    | 0 => some (s, if sendCount = 0 then [.storeRegistered, .testSendQueue] else [.setSendOwner])
    | n + 1 =>
      some ({ s with mSendQueue := n },
        if sendCount + 1 < maxSendWsabufSize then [.dequeue (sendCount + 1)] else [.setSendOwner])
  | .setSendOwner =>
    some ({ s with mEventOwner := Function.update s.mEventOwner .sender (s.mpOwner .sender) },
      [.issue .sender])
  | .testSendQueue => some (s, if s.mSendQueue = 0 then [] else [.testOwner .senderRegister])
  | .processConnect => some (s, processConnect)
  | .exchangeDisconnected reason =>
    some ({ s with mSessionState := .disconnected },
      if s.mSessionState = .disconnected then []
      else [.callback (.onDisconnecting reason), .testOwner .disconnectorRegister])
  | .swapInGame =>
    some (if swaps k s .setSessionInGame then { s with mSessionState := .inGame } else s, [])
  | .registerReap => follow s.mpService (s, [])
  | .resetService => some ({ s with mpService := false, mSocket := false }, [])
  | .serviceRemoveSession => follow s.mpService (s, [.removeSession])
  | .getService => some (s, [.setOwner .receiver, .setOwner .sender, .addSession s.mpService])
  | .addSession pService =>
    follow pService (match k.admission with
      | .added => (s, [.swapConnected])
      | .entered myTicket => ({ s with inWaitQueue := true }, [.swapWaiting myTicket])
      | .refused => (s, [.exchangeDisconnected .serverFull]))
  | .swapConnected =>
    some (if swaps k s .setSessionConnected then
      ({ s with mSessionState := .connected }, .callback .onConnected :: sessionAdded)
    else (s, [.swapWaitingToConnected]))
  | .swapWaitingToConnected =>
    some (if swaps k s .setWaitingToConnected then
      ({ s with mSessionState := .connected }, .callback .onConnected :: sessionAdded)
    else (s, .removeSession :: sessionFailed))
  | .swapWaiting myTicket =>
    some (if swaps k s .setSessionWaiting then
      ({ s with mSessionState := StateSwap.setSessionWaiting.desired },
        .callback (.onEnterWaitQueue myTicket) :: sessionAdded)
    else (s, sessionFailed))
  | .removeSession => some (s, [.admitOther])
  | .admitOther => some (s, if k.granted then [.callback .onAdmitted] else [.releaseKeepTicket])
  | .admitWaiting =>
    some (s, if k.granted then [.swapAdmitted]
      else [.releaseKeepTicket, .exchangeDisconnected .stateError])
  | .swapAdmitted =>
    some (if swaps k s .setWaitingToConnected then
      ({ s with mSessionState := .connected }, [.callback .onConnected])
    else (s, [.managerRemoveSession, .exchangeDisconnected .stateError]))
  | .managerRemoveSession | .releaseKeepTicket => some (s, [])
  | .getOwner c numOfBytes => some (s, if s.mEventOwner c then dispatch numOfBytes c else [])

/-! ## Threads -/

inductive Call
  | connect
  | disconnect (reason : DisconnectReason)
  | send
  | setSessionInGame
  /-- `Acceptor::Process`. -/
  | accepted
  /-- `admitWaitingSession`, which has dequeued the session from the wait queue. -/
  | admitted
  /-- `IocpCore::Dispatch`, which has dequeued a completion of the component's event. -/
  | dispatch (c : Component) (numOfBytes : Nat)

/-- The functions of the session that anybody may call. -/
def api : Call → Option Stmt
  | .connect => some (.testOwner .connectorRegister)
  | .disconnect reason => some (.exchangeDisconnected reason)
  | .send => some (.testOwner .senderSend)
  | .setSessionInGame => some .swapInGame
  | _ => none

/-- A thread in no call, or in a callback, calls a function. -/
def enter (c : Call) (s : Session) : List Stmt → Option (Session × Stmt)
  | [] =>
    match c with
    | .accepted =>
      if s.accepting then some ({ s with accepting := false }, .processConnect) else none
    | .admitted => if s.inWaitQueue then some ({ s with inWaitQueue := false }, .admitWaiting) else none
    | .dispatch c numOfBytes =>
      if 0 < s.inFlight c then
        some ({ s with inFlight := Function.update s.inFlight c (s.inFlight c - 1) },
          .getOwner c numOfBytes)
      else none
    | c => (api c).map fun f => (s, f)
  | .callback _ :: _ => (api c).map fun f => (s, f)
  | .onReceive _ :: _ => (api c).map fun f => (s, f)
  | _ => none

/-- A session as `CreateSession` returns it, of a client or for an `AcceptEx`. -/
def create (isClient : Bool) (maxCount : Nat) : Session :=
  { mpService := true
    mSocket := true
    mSessionState := .disconnected
    mpOwner := fun _ => true
    mEventOwner := fun _ => true
    mConnectorService := true
    isClient := isClient
    mNetReceiveBuffer := .new NetReceiveBuffer.defaultBufferSize NetReceiveBuffer.defaultBufferSize_pos
    mbSendRegistered := false
    mMaxCount := maxCount
    mSendQueue := 0
    inFlight := fun _ => 0
    accepting := !isClient
    inWaitQueue := false }

/-- The session, and what each thread has still to do. -/
abbrev State (τ : Type) := Threads τ (List Stmt) Session

/-- Threads that use one session. -/
abbrev machine (τ : Type) [DecidableEq τ] :
    Machine (State τ) (ThreadAction τ (StackAction Call Outside) Empty) :=
  Stacks.machine enter (fun _ k s f => step k s f) fun p =>
    (∃ isClient maxCount, p.shared = create isClient maxCount) ∧ ∀ t, p.locals t = []

/-- The states of the runs in which every action meets `ok`. -/
abbrev RunsTo {τ : Type} [DecidableEq τ]
    (ok : State τ → τ → StackAction Call Outside → Prop) : State τ → Prop :=
  (machine τ).ReachableIf (Threads.Guard ok fun _ _ => True)

end Session

end CppNetEngine
