import CppNetEngine.Session.Session

/-!
# A session and its reaper

The session of `Session.machine` together with the `SessionReaper` of its service. `registerReap`
posts a job with a weak pointer to the session, and a thread of the scheduler runs the job:
`ReapSession` locks the pointer, tests whether the session is expired, and disconnects it or calls
`registerReap` again. Whether anybody still holds the session and whether it is expired are answers
of the outside; the other threads do with the session what they do in `Session.machine`.
-/

namespace CppNetEngine.Session

/-- A session, and the jobs that are posted for it. -/
structure Reaped where
  session : Session
  reaps : Nat

namespace Reaped

inductive Frame
  /-- A statement of the session. -/
  | session (f : Stmt)
  -- `ReapSession`
  | lock
  | testExpired
  | registerReap

structure Answer where
  outside : Outside
  /-- `pSessionWeak.lock` finds the session. -/
  locked : Bool
  /-- `isExpired`. -/
  expired : Bool

inductive Call
  | session (c : Session.Call)
  | reapSession

/-- The jobs that a statement of the session posts: `processConnect` calls `registerReap`, too. -/
def posts : Stmt → Nat
  | .registerReap => 1
  | _ => 0

def step (k : Answer) (s : Reaped) : Frame → Option (Reaped × List Frame)
  | .session f =>
    (Session.step k.outside s.session f).map fun r =>
      (⟨r.1, s.reaps + posts f⟩, r.2.map .session)
  | .lock => some (s, if k.locked then [.testExpired] else [])
  | .testExpired =>
    some (s, if k.expired then [.session (.exchangeDisconnected .timeout)] else [.registerReap])
  | .registerReap =>
    if s.session.mpService then some ({ s with reaps := s.reaps + 1 }, []) else none

/-- What a call of the session sees of the stack: `ReapSession` calls nothing but what it is. -/
def top : List Frame → Option (List Stmt)
  | [] => some []
  | .session f :: _ => some [f]
  | _ => none

def enter (c : Call) (s : Reaped) (fs : List Frame) : Option (Reaped × Frame) :=
  match c with
  | .session c =>
    (top fs).bind fun l =>
      (Session.enter c s.session l).map fun r => ({ s with session := r.1 }, .session r.2)
  | .reapSession =>
    match fs, s.reaps with
    | [], n + 1 => some ({ s with reaps := n }, .lock)
    | _, _ => none

abbrev State (τ : Type) := Threads τ (List Frame) Reaped

/-- A session that has just been created, for which no job is posted. -/
def Created (p : State τ) : Prop :=
  (∃ isClient maxCount, p.shared = ⟨create isClient maxCount, 0⟩) ∧ ∀ t, p.locals t = []

/-- Threads that use one session, and those that run the jobs of its reaper. -/
abbrev machine (τ : Type) [DecidableEq τ] :
    Machine (State τ) (ThreadAction τ (StackAction Call Answer) Empty) :=
  Stacks.machine enter (fun _ k s f => step k s f) Created

end Reaped

end CppNetEngine.Session
