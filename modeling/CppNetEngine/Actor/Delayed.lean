import CppNetEngine.Actor.Scheduler
import CppNetEngine.Timer.Handles

/-!
# Delayed jobs

The threads of an `ActorScheduler` with its `TimingWheel`: `JobDispatcher::PostDelay` and
`ScheduleDelay` add a timer whose callback is `JobDispatcher::Post`, and `Tick`, with which
`Dispatch` ends, calls the callbacks that are due. A thread has the stack of `ActorScheduler.step`
and is somewhere in the calls of `HandledWheel.next`; a callback puts a frame on the stack, and the
thread comes back to the timers when the stack is empty. A job may post, post with a delay, and
cancel.
-/

namespace CppNetEngine

namespace HandledWheel

variable {α : Type}

/-- The callbacks that a step calls: that of a node, or of an `AddTiming` without a delay. -/
def callbacks (s : HandledWheel α) : Pc α → List α
  | .ticking (.addTiming pCallback delayMs) =>
    (s.wheel.addTiming s.handles pCallback delayMs).2.toList
  | .callback _ node _ => [node.mpCallback]
  | _ => []

/-- The call is one that a job makes, and that returns to it. -/
def Pc.isOfJob : Pc α → Bool
  | .ticking (.addTiming _ _) | .cancel _ => true
  | _ => false

end HandledWheel

namespace ActorScheduler

variable {τ α ς J : Type}

/-- What the callback of `ScheduleDelay` captures: `pCaptureOwner` and `pCaptureJob`. -/
abbrev Capture (α ς J : Type) := ActorRef α ς × J

/-- The actors, and the timers of the scheduler. -/
structure Shared (τ α ς J : Type) where
  actors : ActorMemory τ α ς J
  mTimingWheel : HandledWheel (Capture α ς J)

/-- The stack of a thread, and where it is in a call of the timers. -/
structure Local (α ς J : Type) where
  frames : List (Frame α ς J)
  timing : HandledWheel.Pc (Capture α ς J)

inductive DelayedAct (α ς J : Type)
  /-- `Post`, or `Dispatch`, which gets a completion. -/
  | call (c : Call α ς J)
  | postDelay (x : ActorRef α ς) (pJob : J) (delayMs : Nat)
  | cancel (handle : Nat)
  /-- `Dispatch` comes to its `Tick`. -/
  | tick
  | next

/-- A thread that is in no call, or in a job. -/
def canCall : List (Frame α ς J) → Bool
  | [] | .running _ _ _ :: _ => true
  | _ => false

/-- The thread calls a function of the timers. -/
def callTiming (a : HandledWheel.Act (Capture α ς J)) (s : Shared τ α ς J) (l : Local α ς J) :
    Option (Shared τ α ς J × Local α ς J) :=
  (HandledWheel.act a s.mTimingWheel l.timing).map fun r =>
    ({ s with mTimingWheel := r.1 }, { l with timing := r.2 })

/-- A step in a call of the timers. -/
def nextTiming (s : Shared τ α ς J) (l : Local α ς J) :
    Option (Shared τ α ς J × Local α ς J) :=
  (s.mTimingWheel.next l.timing).map fun r =>
    ({ s with mTimingWheel := r.1 },
      { frames :=
          (s.mTimingWheel.callbacks l.timing).map (fun c => .pushJob c.1 c.2) ++ l.frames
        timing := r.2 })

section Step

variable [DecidableEq α] [DecidableEq ς]

/-- The next step of a thread. -/
def nextDelayed (cfg : ActorConfig α ς) (t : τ) (s : Shared τ α ς J) (l : Local α ς J) :
    Option (Shared τ α ς J × Local α ς J) :=
  match l.frames with
  | [] => nextTiming s l
  | f :: rest =>
    if l.timing.isOfJob then nextTiming s l
    else (step cfg t s.actors f).map fun r =>
      ({ s with actors := r.1 }, { l with frames := r.2 ++ rest })

/-- What a thread can do. -/
def actDelayed (cfg : ActorConfig α ς) (t : τ) :
    DelayedAct α ς J → Shared τ α ς J → Local α ς J → Option (Shared τ α ς J × Local α ς J)
  | .call c, s, l =>
    match l.timing with
    | .ticking .idle => (enter c s.actors l.frames).map fun r =>
      ({ s with actors := r.1 }, { l with frames := r.2 :: l.frames })
    | _ => none
  | .postDelay x pJob delayMs, s, l =>
    if canCall l.frames then callTiming (.addTiming (x, pJob) delayMs) s l else none
  | .cancel handle, s, l => if canCall l.frames then callTiming (.cancel handle) s l else none
  | .tick, s, l =>
    match l.frames with
    | [] => callTiming .tick s l
    | _ => none
  | .next, s, l => nextDelayed cfg t s l

/-- Time passes. -/
def passDelayed (ns : Nat) (s : Shared τ α ς J) : Shared τ α ς J :=
  { s with mTimingWheel := s.mTimingWheel.pass ns }

/-- Threads that use a scheduler made at `t0`. -/
abbrev delayedMachine [DecidableEq τ] (cfg : ActorConfig α ς) (tickInterval t0 : Nat) :
    Machine (Threads τ (Local α ς J) (Shared τ α ς J)) (ThreadAction τ (DelayedAct α ς J) Nat) :=
  Threads.machine (actDelayed cfg) (fun ns s => some (passDelayed ns s)) fun s =>
    s.shared = ⟨initial, .new _ tickInterval t0⟩ ∧ ∀ t, s.locals t = ⟨[], .ticking .idle⟩

end Step

end ActorScheduler

end CppNetEngine
