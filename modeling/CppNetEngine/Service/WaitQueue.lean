import CppNetEngine.Lib.Machine
import CppNetEngine.Service.Service
import Mathlib.Algebra.Ring.Nat

/-!
# The wait queue while sessions expire

`GetWaitCount`, and the loop of `DequeueWaitQueue` one iteration at a time: a session may expire
between two of them. Where none does, the loop is the `dequeueWaitQueue` of `Service`
(`dequeueLoop_eq`). A wait queue is called next to a record of the tickets it gave out (`Ticketed`).
-/

namespace CppNetEngine

variable {ι : Type}

namespace WaitQueueManager

def getWaitCount (q : WaitQueueManager ι) (myTicket : UInt64) : UInt64 :=
  if q.mEnterTicket < myTicket then myTicket - q.mEnterTicket else 0

/-- An iteration of the loop of `DequeueWaitQueue`, and what is returned if it returns. -/
def dequeueNext (q : WaitQueueManager ι) (live : ι → Bool) :
    WaitQueueManager ι × Option (Option ι) :=
  match q.mEnterWaitQueue with
  | [] => (q, some none)
  | front :: rest =>
    ({ q with mEnterTicket := q.mEnterTicket + 1, mEnterWaitQueue := rest },
      if live front then some (some front) else none)

/-- At most `n` iterations. -/
def dequeueLoop (live : ι → Bool) : Nat → WaitQueueManager ι → Option (WaitQueueManager ι × Option ι)
  | 0, _ => none
  | n + 1, q =>
    match q.dequeueNext live with
    | (q', some answer) => some (q', answer)
    | (q', none) => dequeueLoop live n q'

/-- Where nobody expires, the loop returns, and is `dequeueWaitQueue`. -/
theorem dequeueLoop_eq (live : ι → Bool) : ∀ q : WaitQueueManager ι,
    dequeueLoop live (q.mEnterWaitQueue.length + 1) q = some (q.dequeueWaitQueue live) := by
  rintro ⟨maxWaitSize, waitTicket, enterTicket, queue⟩
  induction queue generalizing enterTicket with
  | nil => simp [dequeueLoop, dequeueNext, dequeueWaitQueue]
  | cons front rest ih =>
    rw [List.length_cons, dequeueLoop]
    by_cases hlive : live front
    · simp [dequeueNext, dequeueWaitQueue, hlive]
    · simp only [dequeueNext, hlive, Bool.false_eq_true, if_false]
      rw [ih]
      have hcount (n : Nat) :
          enterTicket + 1 + n.toUInt64 = enterTicket + (n + 1).toUInt64 := by
        show enterTicket + 1 + UInt64.ofNat n = enterTicket + UInt64.ofNat (n + 1)
        rw [UInt64.ofNat_add, UInt64.add_assoc, UInt64.add_comm 1]
        rfl
      simp only [dequeueWaitQueue, List.takeWhile_cons, List.dropWhile_cons, hlive, Bool.not_false,
        if_true]
      split
      · simp only [hcount, List.length_cons]
      · simp only [hcount, List.length_cons]

end WaitQueueManager

/-- `GetWaitCount`: no count without a wait queue. -/
def Service.getWaitCount (s : Service ι) (myTicket : UInt64) : Option UInt64 :=
  s.mpWaitQueueManager.map (·.getWaitCount myTicket)

/-! ## Calls -/

/-- Where the caller of `DequeueWaitQueue` is. -/
inductive Dequeuing (ι : Type)
  /-- Nobody is inside. -/
  | idle
  /-- The loop runs; `called` were queued when it began. -/
  | running (called : List (ι × UInt64))
  /-- It has just returned. -/
  | returned (called : List (ι × UInt64)) (answer : Option ι)

/-- A wait queue, and the sessions that got a ticket: those who left the queue and those in it. -/
structure Ticketed (ι : Type) where
  queue : WaitQueueManager ι
  /-- Somebody still holds a reference to the session. -/
  live : ι → Bool
  gone : List (ι × UInt64)
  queued : List (ι × UInt64)
  dequeuing : Dequeuing ι

namespace Ticketed

inductive Act (ι : Type)
  | enterWaitQueue (pSession : ι)
  /-- `DequeueWaitQueue` is called and takes the lock. -/
  | dequeueWaitQueue
  /-- The next iteration of its loop. -/
  | iterate
  /-- The last reference to a session is dropped. -/
  | expire (pSession : ι)

/-- A wait queue as it is constructed. -/
def new (maxWaitSize : Int) (live : ι → Bool) : Ticketed ι :=
  ⟨⟨maxWaitSize, 0, 0, []⟩, live, [], [], .idle⟩

/-- Who got tickets, in the order in which they did. -/
def issued (s : Ticketed ι) : List (ι × UInt64) := s.gone ++ s.queued

/-- Who enters is there, and the lock is free. -/
def enter (s : Ticketed ι) (w : ι) : Option (Ticketed ι) :=
  match s.dequeuing, s.live w with
  | .running _, _ | _, false => none
  | _, true =>
    let r := s.queue.enterWaitQueue w
    some { s with
      queue := r.1
      queued := s.queued ++ r.2.toList.map (w, ·)
      dequeuing := .idle }

def dequeue (s : Ticketed ι) : Option (Ticketed ι) :=
  match s.dequeuing with
  | .running _ => none
  | _ => some { s with dequeuing := .running s.queued }

def iterate (s : Ticketed ι) : Option (Ticketed ι) :=
  match s.dequeuing with
  | .running called =>
    let r := s.queue.dequeueNext s.live
    some { s with
      queue := r.1
      gone := s.gone ++ s.queued.take 1
      queued := s.queued.drop 1
      dequeuing :=
        match r.2 with
        | none => .running called
        | some answer => .returned called answer }
  | _ => none

variable [DecidableEq ι]

def expire (s : Ticketed ι) (w : ι) : Ticketed ι :=
  { s with
    live := Function.update s.live w false
    dequeuing :=
      match s.dequeuing with
      | .running called => .running called
      | _ => .idle }

/-- An action, if it can be taken. -/
def step (s : Ticketed ι) : Act ι → Option (Ticketed ι)
  | .enterWaitQueue w => s.enter w
  | .dequeueWaitQueue => s.dequeue
  | .iterate => s.iterate
  | .expire w => some (s.expire w)

def machine (maxWaitSize : Int) : Machine (Ticketed ι) (Act ι) where
  init s := ∃ live, s = new maxWaitSize live
  step := step

end Ticketed

end CppNetEngine
