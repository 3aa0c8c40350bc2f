import CppNetEngine.Lib.Threads
import CppNetEngine.Session.State

/-!
# The sender of a session

`Sender` of `Sender.h`/`Sender.cpp`, with any number of threads in `Send` and in `Process`. Each
statement that touches shared data is one step: the queue operations, the exchange and the stores
of `mbSendRegistered`, `WSASend`, the clearing of the pending list, and the statements of `Clear`.
`Pc` says which statement a thread comes to next, with the locals it still needs.
-/

namespace CppNetEngine

/-- A sender with what it does to its session; `β` are the send buffers. -/
structure Sender (β : Type) where
  /-- `mpOwner` is not null. -/
  mpOwner : Bool
  /-- The owner of `mSendEvent` is not null. -/
  mSendEventOwner : Bool
  /-- `mSendEvent.GetSendPendingBuffer()`. -/
  sendPendingBuffer : List β
  mbSendRegistered : Bool
  mMaxCount : Nat
  mSendQueue : List β
  isDisconnected : Bool
  /-- The `WSASend`s in flight. -/
  outstanding : List (List β)
  /-- All buffers that were enqueued, in order. -/
  enqueued : List β
  /-- All buffers that were given to `WSASend`, in order. -/
  submitted : List β
  onSend : List Nat
  onError : List Nat
  onDisconnecting : List DisconnectReason

namespace Sender

variable {β : Type}

def maxSendWsabufSize : Nat := 64

/-- The constructor, then `SetOwner` by a connected session. -/
def new (β : Type) (maxCount : Nat) : Sender β :=
  { mpOwner := true
    mSendEventOwner := true
    sendPendingBuffer := []
    mbSendRegistered := false
    mMaxCount := maxCount
    mSendQueue := []
    isDisconnected := false
    outstanding := []
    enqueued := []
    submitted := []
    onSend := []
    onError := []
    onDisconnecting := [] }

/-- The statements of `Clear`; `ClearOverlapped` touches nothing that is modelled. -/
inductive ClearStep
  | resetOwner
  | resetEventOwner
  | clearPending
  | storeRegistered
  /-- The nodes are deleted. No call that begins now comes to the queue: there is no owner. -/
  | clearQueue
  deriving DecidableEq

def clearSteps : List ClearStep :=
  [.resetOwner, .resetEventOwner, .clearPending, .storeRegistered, .clearQueue]

def clearStep (s : Sender β) : ClearStep → Sender β
  | .resetOwner => { s with mpOwner := false }
  | .resetEventOwner => { s with mSendEventOwner := false }
  | .clearPending => { s with sendPendingBuffer := [] }
  | .storeRegistered => { s with mbSendRegistered := false }
  | .clearQueue => { s with mSendQueue := [] }

/-- `Session::Disconnect`. -/
def disconnect (s : Sender β) (reason : DisconnectReason) : Sender β :=
  if s.isDisconnected then s
  else { s with isDisconnected := true, onDisconnecting := s.onDisconnecting ++ [reason] }

/-- What a thread does next. -/
inductive Pc (β : Type)
  /-- It is in no call. -/
  | idle
  /-- `Send`: is there an owner, and is it connected? -/
  | sendOwner (pSendBuffer : β)
  /-- `Send`: `TryEnqueue`. -/
  | sendEnqueue (pSendBuffer : β)
  /-- `Register`: is there an owner, and is it connected? -/
  | registerOwner
  /-- `Register`: the exchange. -/
  | registerExchange
  /-- `Register`: `TryDequeue`, with the buffers taken so far. -/
  | registerDequeue (wsabufs : List β)
  /-- `Register`: nothing was taken, the flag is lowered. -/
  | registerStore
  /-- `Register`: is the queue still empty? -/
  | registerIsEmpty
  /-- `Register`: `WSASend`. -/
  | registerSend (wsabufs : List β)
  /-- `Process`: the pending list is cleared. -/
  | processClear (numOfBytes : Nat)
  /-- `Process`: is there an owner, and is it connected? -/
  | processOwner (numOfBytes : Nat)
  /-- `Process`: the flag is lowered. -/
  | processStore
  /-- `Process`: is the queue empty? -/
  | processIsEmpty
  /-- `mpOwner->Disconnect`, and then `Clear` or not. -/
  | disconnect (reason : DisconnectReason) (thenClear : Bool)
  /-- `Clear`, and then `mpOwner->Disconnect` or not. -/
  | clear (todo : List ClearStep) (thenDisconnect : Option DisconnectReason)
  /-- It called a function of a null `mpOwner`. -/
  | nullOwner

/-- `mpOwner == nullptr || mpOwner->IsDisconnected()`. -/
def isGone (s : Sender β) : Bool := !s.mpOwner || s.isDisconnected

/-- The next statement of a thread; `wsaSend` is what `WSASend` answers if it is that. -/
def exec (wsaSend : WsaResult) (s : Sender β) : Pc β → Option (Sender β × Pc β)
  | .idle => none
  | .nullOwner => none
  | .sendOwner b => some (s, if s.isGone then .clear clearSteps none else .sendEnqueue b)
  | .sendEnqueue b =>
    if s.mMaxCount ≤ s.mSendQueue.length then some (s, .clear clearSteps (some .serviceError))
    else
      some ({ s with mSendQueue := s.mSendQueue ++ [b], enqueued := s.enqueued ++ [b] },
        .registerOwner)
  | .registerOwner => some (s, if s.isGone then .clear clearSteps none else .registerExchange)
  | .registerExchange =>
    some ({ s with mbSendRegistered := true },
      if s.mbSendRegistered then .idle else .registerDequeue [])
  | .registerDequeue wsabufs =>
    match s.mSendQueue with
    | [] => some (s, if wsabufs.length = 0 then .registerStore else .registerSend wsabufs)
    | b :: rest =>
      some ({ s with mSendQueue := rest, sendPendingBuffer := s.sendPendingBuffer ++ [b] },
        if wsabufs.length + 1 < maxSendWsabufSize then .registerDequeue (wsabufs ++ [b])
        else .registerSend (wsabufs ++ [b]))
  | .registerStore => some ({ s with mbSendRegistered := false }, .registerIsEmpty)
  | .registerIsEmpty => some (s, if s.mSendQueue.isEmpty then .idle else .registerOwner)
  | .registerSend wsabufs =>
    let s := { s with mSendEventOwner := s.mpOwner }
    match wsaSend with
    | .error errorCode =>
      some ({ s with onError := s.onError ++ [errorCode] }, .disconnect .socketError true)
    | _ =>
      some ({ s with
        outstanding := s.outstanding ++ [wsabufs]
        submitted := s.submitted ++ wsabufs }, .idle)
  | .processClear n => some ({ s with sendPendingBuffer := [] }, .processOwner n)
  | .processOwner n =>
    if s.isGone then some (s, .clear clearSteps none)
    else if n = 0 then some (s, .disconnect .kicked true)
    else some ({ s with onSend := s.onSend ++ [n] }, .processStore)
  | .processStore => some ({ s with mbSendRegistered := false }, .processIsEmpty)
  | .processIsEmpty => some (s, if s.mSendQueue.isEmpty then .idle else .registerOwner)
  | .disconnect reason thenClear =>
    if s.mpOwner then
      some (s.disconnect reason, if thenClear then .clear clearSteps none else .idle)
    else some (s, .nullOwner)
  | .clear [] thenDisconnect =>
    some (s, match thenDisconnect with
      | none => .idle
      | some reason => .disconnect reason false)
  | .clear (c :: todo) thenDisconnect => some (s.clearStep c, .clear todo thenDisconnect)

/-- What a thread can do. -/
inductive Act (β : Type)
  /-- It calls `Send`. -/
  | send (pSendBuffer : β)
  /-- It dequeues the completion of the `k`-th `WSASend` in flight and calls `Process`. -/
  | process (k numOfBytes : Nat)
  /-- It goes on. -/
  | next (wsaSend : WsaResult)

def act : Act β → Sender β → Pc β → Option (Sender β × Pc β)
  | .send b, s, .idle => some (s, .sendOwner b)
  | .process k n, s, .idle =>
    if k < s.outstanding.length then
      some ({ s with outstanding := s.outstanding.eraseIdx k }, .processClear n)
    else none
  | .next wsaSend, s, pc => exec wsaSend s pc
  | _, _, _ => none

/-- Threads that send and process completions, while anybody may disconnect the session. -/
def machine (τ β : Type) [DecidableEq τ] :
    Machine (Threads τ (Pc β) (Sender β)) (ThreadAction τ (Act β) DisconnectReason) :=
  Threads.machine (fun _ => act) (fun reason s => some (s.disconnect reason)) fun s =>
    (∃ maxCount, s.shared = new β maxCount) ∧ ∀ t, s.locals t = .idle

/-- What a thread can do when the session may also be cleared. -/
inductive SessionAct (β : Type)
  | act (a : Act β)
  /-- `Session::processDisconnect`, which comes to `Sender::Clear`. -/
  | processDisconnect

def sessionAct : SessionAct β → Sender β → Pc β → Option (Sender β × Pc β)
  | .act a, s, pc => act a s pc
  | .processDisconnect, s, .idle =>
    if s.isDisconnected then some (s, .clear clearSteps none) else none
  | .processDisconnect, _, _ => none

/-- Threads that send, process completions and clear the session when it is disconnected. -/
def sessionMachine (τ β : Type) [DecidableEq τ] :
    Machine (Threads τ (Pc β) (Sender β)) (ThreadAction τ (SessionAct β) DisconnectReason) :=
  Threads.machine (fun _ => sessionAct) (fun reason s => some (s.disconnect reason)) fun s =>
    (∃ maxCount, s.shared = new β maxCount) ∧ ∀ t, s.locals t = .idle

end Sender

end CppNetEngine
