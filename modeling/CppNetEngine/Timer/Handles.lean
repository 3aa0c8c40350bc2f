import CppNetEngine.Timer.Ticking

/-!
# Timer handles

`TimerHandle::Cancel` and `TimingNode::Execute`, with the threads that call `Tick` and `AddTiming`.
`Execute` loads the cancel flag and then calls the callback, in two steps, and a `Cancel` may come
in between. A handle is known by its number, which is that of its cancel flag.
-/

namespace CppNetEngine

/-- What an `AddTiming` is asked for, and the tick at which it is due. -/
structure Timing (α : Type) where
  pCallback : α
  delayMs : Nat
  expireTick : Nat
  deriving DecidableEq

/-- A wheel that threads share, with the cancel flags of its handles. -/
structure HandledWheel (α : Type) where
  ticking : TickingWheel α
  /-- What is in `*mpCancelFlag`, for each handle. -/
  cancelled : Nat → Bool
  /-- What was asked for, in the order of the handles. -/
  made : List (Timing α)
  /-- The callbacks that were called, with the handles. -/
  called : List (Nat × α)
  /-- The handles that `Execute` found cancelled. -/
  skipped : List Nat

namespace HandledWheel

variable {α : Type}

/-- A wheel that is made at `t0`. -/
def new (α : Type) (tickInterval t0 : Nat) : HandledWheel α where
  ticking := .new α tickInterval t0
  cancelled := fun _ => false
  made := []
  called := []
  skipped := []

def wheel (s : HandledWheel α) : TimingWheel α := s.ticking.timers.wheel

/-- The number of handles made. -/
def handles (s : HandledWheel α) : Nat := s.ticking.timers.flags

/-- What a thread does next. -/
inductive Pc (α : Type)
  /-- It is in `AddTiming` or in `Tick`, or in no call. -/
  | ticking (pc : TickingWheel.Pc α)
  /-- `Cancel`: the flag is stored. -/
  | cancel (handle : Nat)
  /-- `Execute`: the flag was not set, and the callback is called. -/
  | callback (now : Nat) (node : TimingNode α) (rest : List (TimingNode α))

/-- A step of `AddTiming` or `Tick` itself. -/
def tickingNext (s : HandledWheel α) (pc : TickingWheel.Pc α) : Option (HandledWheel α × Pc α) :=
  (s.ticking.next pc).map fun r => ({ s with ticking := r.1 }, .ticking r.2)

/-- What `AddTiming` is asked for with the next handle; without a delay it calls the callback. -/
def addTiming (s : HandledWheel α) (pCallback : α) (delayMs : Nat) : HandledWheel α :=
  { s with
    made := s.made ++
      [⟨pCallback, delayMs, (s.wheel.timingNode s.handles pCallback delayMs).mExpireTick⟩]
    called := s.called ++
      (s.wheel.addTiming s.handles pCallback delayMs).2.toList.map (s.handles, ·) }

/-- The next step of a thread. -/
def next (s : HandledWheel α) : Pc α → Option (HandledWheel α × Pc α)
  | .ticking (.addTiming pCallback delayMs) =>
    (s.addTiming pCallback delayMs).tickingNext (.addTiming pCallback delayMs)
  | .ticking (.execute now (node :: rest)) =>
    if s.cancelled node.mpCancelFlag then
      { s with skipped := s.skipped ++ [node.mpCancelFlag] }.tickingNext
        (.execute now (node :: rest))
    else some (s, .callback now node rest)
  | .ticking pc => s.tickingNext pc
  | .cancel handle =>
    some ({ s with cancelled := Function.update s.cancelled handle true }, .ticking .idle)
  | .callback now node rest =>
    { s with called := s.called ++ [(node.mpCancelFlag, node.mpCallback)] }.tickingNext
      (.execute now (node :: rest))

/-- What a thread can do. -/
inductive Act (α : Type)
  /-- It calls `AddTiming`. -/
  | addTiming (pCallback : α) (delayMs : Nat)
  /-- It calls `Tick`. -/
  | tick
  /-- It calls `Cancel` of a handle that it has. -/
  | cancel (handle : Nat)
  /-- It goes on. -/
  | next

def act : Act α → HandledWheel α → Pc α → Option (HandledWheel α × Pc α)
  | .addTiming pCallback delayMs, s, .ticking .idle =>
    some (s, .ticking (.addTiming pCallback delayMs))
  | .tick, s, .ticking .idle => some (s, .ticking .exchange)
  | .cancel handle, s, .ticking .idle =>
    if handle < s.handles then some (s, .cancel handle) else none
  | .next, s, pc => s.next pc
  | _, _, _ => none

/-- Time passes. -/
def pass (ns : Nat) (s : HandledWheel α) : HandledWheel α :=
  { s with ticking := s.ticking.pass ns }

/-- Threads that call `Tick`, `AddTiming` and `Cancel` of a wheel made at `t0`. -/
abbrev machine (τ α : Type) [DecidableEq τ] (tickInterval t0 : Nat) :
    Machine (Threads τ (Pc α) (HandledWheel α)) (ThreadAction τ (Act α) Nat) :=
  Threads.machine (fun _ => act) (fun ns s => some (pass ns s)) fun s =>
    s.shared = new α tickInterval t0 ∧ ∀ t, s.locals t = .ticking .idle

end HandledWheel

end CppNetEngine
