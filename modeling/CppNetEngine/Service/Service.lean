import CppNetEngine.Lib.Program
import CppNetEngine.Session.State
import Mathlib.Data.Finset.Card

/-!
# Admission of sessions

`Service::AddSession`, `Service::RemoveSession` and `admitWaitingSession`, over `SessionManager`
and `WaitQueueManager`. The managers' methods run under their locks and are the atomic actions
(`Act`), together with the compare-and-swaps on a session's state word; the three functions are
programs of these actions. A `compare_exchange_weak` may fail spuriously: which ones do is part of
the initial state (`spurious`).
-/

namespace CppNetEngine

variable {ι : Type} [DecidableEq ι]

/-! ## Session manager -/

structure SessionManager (ι : Type) where
  mMaxSessionCount : Int
  mCurrentSessionCount : Int
  mSessions : Finset ι

namespace SessionManager

def addSession (m : SessionManager ι) (pSession : ι) : SessionManager ι × Bool :=
  if m.mMaxSessionCount ≤ m.mCurrentSessionCount then (m, false)
  else if pSession ∈ m.mSessions then (m, false)
  else
    ({ m with
      mSessions := insert pSession m.mSessions
      mCurrentSessionCount := m.mCurrentSessionCount + 1 }, true)

def addWaitingSession (m : SessionManager ι) (pSession : ι) : SessionManager ι × Bool :=
  if pSession ∈ m.mSessions then (m, false)
  else ({ m with mSessions := insert pSession m.mSessions }, true)

def removeSession (m : SessionManager ι) (pSession : ι) (bKeepWaitingSession : Bool) :
    SessionManager ι :=
  if pSession ∈ m.mSessions then
    { m with
      mSessions := m.mSessions.erase pSession
      mCurrentSessionCount :=
        if bKeepWaitingSession then m.mCurrentSessionCount else m.mCurrentSessionCount - 1 }
  else m

def releaseKeepTicket (m : SessionManager ι) : SessionManager ι :=
  { m with mCurrentSessionCount := m.mCurrentSessionCount - 1 }

end SessionManager

/-! ## Wait queue -/

/-- The queue holds weak references. -/
structure WaitQueueManager (ι : Type) where
  mMaxWaitSize : Int
  mWaitTicket : UInt64
  mEnterTicket : UInt64
  mEnterWaitQueue : List ι

namespace WaitQueueManager

/-- `EnterWaitQueue`: the ticket, if there is room. -/
def enterWaitQueue (q : WaitQueueManager ι) (pSession : ι) : WaitQueueManager ι × Option UInt64 :=
  if q.mMaxWaitSize ≤ q.mEnterWaitQueue.length then (q, none)
  else
    ({ q with
      mEnterWaitQueue := q.mEnterWaitQueue ++ [pSession]
      mWaitTicket := q.mWaitTicket + 1 }, some q.mWaitTicket)

/-- `DequeueWaitQueue`: references to sessions that are gone are dropped. -/
def dequeueWaitQueue (q : WaitQueueManager ι) (live : ι → Bool) : WaitQueueManager ι × Option ι :=
  let dropped := q.mEnterWaitQueue.takeWhile (!live ·)
  match q.mEnterWaitQueue.dropWhile (!live ·) with
  | [] => ({ q with mEnterWaitQueue := [], mEnterTicket := q.mEnterTicket + dropped.length.toUInt64 },
      none)
  | pSession :: rest =>
    ({ q with
      mEnterWaitQueue := rest
      mEnterTicket := q.mEnterTicket + (dropped.length + 1).toUInt64 }, some pSession)

end WaitQueueManager

/-! ## Service -/

/-- What the sessions are told, and what they are put through. -/
inductive Event (ι : Type)
  | onConnected (pSession : ι)
  | onEnterWaitQueue (pSession : ι) (myTicket : UInt64)
  | onDisconnecting (pSession : ι) (reason : DisconnectReason)
  /-- `DequeueWaitQueue` returned the session. -/
  | dequeued (pSession : ι)
  /-- `Disconnect` was called on the session. -/
  | disconnect (pSession : ι)
  deriving DecidableEq

/-- A service with its managers, and the sessions it knows. -/
structure Service (ι : Type) where
  mpSessionManager : SessionManager ι
  mpWaitQueueManager : Option (WaitQueueManager ι)
  mSessionState : ι → SessionState
  /-- Somebody still holds a reference to the session. -/
  live : ι → Bool
  /-- Which of the coming compare-and-swaps fail spuriously. -/
  spurious : Nat → Bool
  log : List (Event ι)

namespace Service

/-- A service with no sessions, and with a wait queue or without. -/
def new (mMaxSessionCount : Int) (mMaxWaitSize : Option Int) (mSessionState : ι → SessionState)
    (spurious : Nat → Bool) : Service ι :=
  { mpSessionManager := ⟨mMaxSessionCount, 0, ∅⟩
    mpWaitQueueManager := mMaxWaitSize.map (⟨·, 0, 0, []⟩)
    mSessionState := mSessionState
    live := fun _ => true
    spurious := spurious
    log := [] }

/-! ### Actions -/

inductive Act (ι : Type)
  | addSession (pSession : ι)
  | addWaitingSession (pSession : ι)
  | removeSession (pSession : ι) (bKeepWaitingSession : Bool)
  | releaseKeepTicket
  /-- `mpWaitQueueManager != nullptr`. -/
  | hasWaitQueueManager
  | enterWaitQueue (pSession : ι)
  | dequeueWaitQueue
  | compareExchange (pSession : ι) (swap : StateSwap)
  /-- The exchange of `setSessionDisconnected`. -/
  | exchange (pSession : ι)
  | callback (event : Event ι)

/-- What an action answers. -/
abbrev Act.Answer : Act ι → Type
  | .addSession _ => Bool
  | .addWaitingSession _ => Bool
  | .removeSession _ _ => Unit
  | .releaseKeepTicket => Unit
  | .hasWaitQueueManager => Bool
  | .enterWaitQueue _ => Option UInt64
  | .dequeueWaitQueue => Option ι
  | .compareExchange _ _ => Bool
  | .exchange _ => Bool
  | .callback _ => Unit

/-- `EnterWaitQueue` of the service's wait queue, if it has one. -/
def enterWaitQueue (s : Service ι) (pSession : ι) : Service ι × Option UInt64 :=
  match s.mpWaitQueueManager with
  | none => (s, none)
  | some q =>
    let r := q.enterWaitQueue pSession
    ({ s with mpWaitQueueManager := some r.1 }, r.2)

def dequeueWaitQueue (s : Service ι) : Service ι × Option ι :=
  match s.mpWaitQueueManager with
  | none => (s, none)
  | some q =>
    let r := q.dequeueWaitQueue s.live
    ({ s with
      mpWaitQueueManager := some r.1
      log := s.log ++ r.2.toList.map .dequeued }, r.2)

def compareExchange (s : Service ι) (pSession : ι) (swap : StateSwap) : Service ι × Bool :=
  let s' := { s with spurious := fun n => s.spurious (n + 1) }
  if s.mSessionState pSession = swap.expected ∧ s.spurious 0 = false then
    ({ s' with mSessionState := Function.update s.mSessionState pSession swap.desired }, true)
  else (s', false)

def exchange (s : Service ι) (pSession : ι) : Service ι × Bool :=
  ({ s with
    mSessionState := Function.update s.mSessionState pSession .disconnected
    log := s.log ++ [.disconnect pSession] }, decide (s.mSessionState pSession ≠ .disconnected))

/-- An action on the service. -/
def exec : (a : Act ι) → Service ι → Service ι × a.Answer
  | .addSession w, s =>
    let r := s.mpSessionManager.addSession w
    ({ s with mpSessionManager := r.1 }, r.2)
  | .addWaitingSession w, s =>
    let r := s.mpSessionManager.addWaitingSession w
    ({ s with mpSessionManager := r.1 }, r.2)
  | .removeSession w keep, s =>
    ({ s with mpSessionManager := s.mpSessionManager.removeSession w keep }, ())
  | .releaseKeepTicket, s => ({ s with mpSessionManager := s.mpSessionManager.releaseKeepTicket }, ())
  | .hasWaitQueueManager, s => (s, s.mpWaitQueueManager.isSome)
  | .enterWaitQueue w, s => s.enterWaitQueue w
  | .dequeueWaitQueue, s => s.dequeueWaitQueue
  | .compareExchange w swap, s => s.compareExchange w swap
  | .exchange w, s => s.exchange w
  | .callback event, s => ({ s with log := s.log ++ [event] }, ())

/-! ### Programs -/

/-- A program over the service that returns a `β`. -/
abbrev Code (ι β : Type) := Program (Act ι) Act.Answer β

/-! The actions as programs of one step. -/

namespace Atomic

def addSession (pSession : ι) : Code ι Bool := Program.call (Act.addSession pSession)

def addWaitingSession (pSession : ι) : Code ι Bool := Program.call (Act.addWaitingSession pSession)

def removeSession (pSession : ι) (bKeepWaitingSession : Bool) : Code ι Unit :=
  Program.call (Act.removeSession pSession bKeepWaitingSession)

def releaseKeepTicket : Code ι Unit := Program.call Act.releaseKeepTicket

def hasWaitQueueManager : Code ι Bool := Program.call Act.hasWaitQueueManager

def enterWaitQueue (pSession : ι) : Code ι (Option UInt64) := Program.call (Act.enterWaitQueue pSession)

def dequeueWaitQueue : Code ι (Option ι) := Program.call Act.dequeueWaitQueue

def compareExchange (pSession : ι) (swap : StateSwap) : Code ι Bool :=
  Program.call (Act.compareExchange pSession swap)

def exchange (pSession : ι) : Code ι Bool := Program.call (Act.exchange pSession)

def callback (event : Event ι) : Code ι Unit := Program.call (Act.callback event)

section Run

variable (s : Service ι) (w : ι)

@[simp] theorem run_addSession : (addSession w).run exec s =
    ({ s with mpSessionManager := (s.mpSessionManager.addSession w).1 },
      (s.mpSessionManager.addSession w).2) := rfl

@[simp] theorem run_addWaitingSession : (addWaitingSession w).run exec s =
    ({ s with mpSessionManager := (s.mpSessionManager.addWaitingSession w).1 },
      (s.mpSessionManager.addWaitingSession w).2) := rfl

@[simp] theorem run_removeSession (keep : Bool) : (removeSession w keep).run exec s =
    ({ s with mpSessionManager := s.mpSessionManager.removeSession w keep }, ()) := rfl

@[simp] theorem run_releaseKeepTicket : releaseKeepTicket.run exec s =
    ({ s with mpSessionManager := s.mpSessionManager.releaseKeepTicket }, ()) := rfl

@[simp] theorem run_hasWaitQueueManager : hasWaitQueueManager.run exec s =
    (s, s.mpWaitQueueManager.isSome) := rfl

@[simp] theorem run_enterWaitQueue : (enterWaitQueue w).run exec s = s.enterWaitQueue w := rfl

@[simp] theorem run_dequeueWaitQueue : dequeueWaitQueue.run exec s = s.dequeueWaitQueue := rfl

@[simp] theorem run_compareExchange (swap : StateSwap) :
    (compareExchange w swap).run exec s = s.compareExchange w swap := rfl

@[simp] theorem run_exchange : (exchange w).run exec s = s.exchange w := rfl

@[simp] theorem run_callback (event : Event ι) :
    (callback event).run exec s = ({ s with log := s.log ++ [event] }, ()) := rfl

end Run

end Atomic

/-- `Session::Disconnect`, up to `registerDisconnect`. -/
def disconnect (pSession : ι) (reason : DisconnectReason) : Code ι Unit := do
  let wasConnected ← Atomic.exchange pSession
  if wasConnected then
    Atomic.callback (.onDisconnecting pSession reason)

def admitWaitingSession : Code ι Unit := do
  let pWaitSession ← Atomic.dequeueWaitQueue
  match pWaitSession with
  | some pWaitSession =>
    let added ← Atomic.addWaitingSession pWaitSession
    if added then
      let connected ← Atomic.compareExchange pWaitSession .setWaitingToConnected
      if connected then
        Atomic.callback (.onConnected pWaitSession)
      else
        Atomic.removeSession pWaitSession false
        disconnect pWaitSession .stateError
    else
      Atomic.releaseKeepTicket
      disconnect pWaitSession .stateError
  | none => Atomic.releaseKeepTicket

def removeSession (pSession : ι) : Code ι Unit := do
  Atomic.removeSession pSession true
  admitWaitingSession

/-- `pSession->setSessionConnected() || pSession->setWaitingToConnected()`. -/
def setConnected (pSession : ι) : Code ι Bool := do
  let connected ← Atomic.compareExchange pSession .setSessionConnected
  if connected then
    return true
  else
    Atomic.compareExchange pSession .setWaitingToConnected

def addSession (pSession : ι) : Code ι Bool := do
  let added ← Atomic.addSession pSession
  if added then
    let connected ← setConnected pSession
    if connected then
      Atomic.callback (.onConnected pSession)
      return true
    else
      removeSession pSession
      disconnect pSession .stateError
      return false
  else
    let hasWaitQueueManager ← Atomic.hasWaitQueueManager
    if hasWaitQueueManager then
      let ticket ← Atomic.enterWaitQueue pSession
      match ticket with
      | some myTicket =>
        let waiting ← Atomic.compareExchange pSession .setSessionWaiting
        if waiting then
          Atomic.callback (.onEnterWaitQueue pSession myTicket)
          return true
        else
          disconnect pSession .stateError
          return false
      | none => return false
    else
      return false

/-- `Session::SetSessionInGame`. -/
def setSessionInGame (pSession : ι) : Code ι Bool :=
  Atomic.compareExchange pSession .setSessionInGame

/-! ### Calls -/

/-- What a service and its sessions are asked to do. -/
inductive Call (ι : Type)
  | addSession (pSession : ι)
  | removeSession (pSession : ι)
  | setSessionInGame (pSession : ι)
  | disconnect (pSession : ι) (reason : DisconnectReason)
  deriving DecidableEq

/-- The program of a call. -/
def code : Call ι → Code ι Unit
  | .addSession w => do
    let _ ← addSession w
    return ()
  | .removeSession w => removeSession w
  | .setSessionInGame w => do
    let _ ← setSessionInGame w
    return ()
  | .disconnect w reason => disconnect w reason

/-- What happens to a service when nothing interleaves: a call, or the last reference to a session
goes away. -/
inductive Happening (ι : Type)
  | call (c : Call ι)
  | expire (pSession : ι)
  deriving DecidableEq

def expire (pSession : ι) (s : Service ι) : Service ι :=
  { s with live := Function.update s.live pSession false }

def step (s : Service ι) : Happening ι → Service ι
  | .call c => ((code c).run exec s).1
  | .expire w => expire w s

def run (s : Service ι) (happenings : List (Happening ι)) : Service ι := happenings.foldl step s

end Service

end CppNetEngine
