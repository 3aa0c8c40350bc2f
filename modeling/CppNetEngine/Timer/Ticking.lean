import CppNetEngine.Lib.Threads
import CppNetEngine.Timer.Clock

/-!
# Threads that tick

`TimingWheel::Tick` and `AddTiming` of `TimingWheel.cpp`, called by any number of threads over a
clock that does not go back. Each access to shared data is one step: the exchange and the stores of
`mbTicking`, the reading of the clock, those and the update of `mLastTickTime`, and what is done
under `mLock`. `Pc` says what a thread does next, with the locals it still needs. Calls that the
callbacks make are those of further threads.
-/

namespace CppNetEngine

/-- A wheel that threads share, and the clock. -/
structure TickingWheel (α : Type) where
  mbTicking : Bool
  timers : Timers α
  mLastTickTime : Nat
  /-- What the clock shows, in nanoseconds. -/
  clock : Nat
  /-- The numbers of the ticks that were processed, in order. -/
  processed : List Nat
  /-- The nodes that `Tick` executed, with its reading of the clock. -/
  executed : List (Executed α)

namespace TickingWheel

open ClockedWheel (nsPerMs)

variable {α : Type}

/-- A wheel that is made at `t0`. -/
def new (α : Type) (tickInterval t0 : Nat) : TickingWheel α where
  mbTicking := false
  timers := .new α tickInterval
  mLastTickTime := t0
  clock := t0
  processed := []
  executed := []

/-- `mTickIntervalMs`. -/
def mTickIntervalMs (s : TickingWheel α) : Nat := s.timers.wheel.mTickIntervalMs

/-- `mCurrentTick`. -/
def mCurrentTick (s : TickingWheel α) : Nat := s.timers.wheel.mCurrentTick

/-- Whole milliseconds since `mLastTickTime`. -/
def elapsedMs (s : TickingWheel α) (now : Nat) : Nat := (now - s.mLastTickTime) / nsPerMs

def tickCount (s : TickingWheel α) (now : Nat) : Nat := s.elapsedMs now / s.mTickIntervalMs

/-- The loop counter of `Tick` is a `uint32`. -/
def counterSize : Nat := 2 ^ 32

/-- What a thread does next. -/
inductive Pc (α : Type)
  /-- It is in no call. -/
  | idle
  /-- `AddTiming`: what it does under the lock, or at once. -/
  | addTiming (pCallback : α) (delayMs : Nat)
  /-- `Tick`: `mbTicking.exchange(true)`. -/
  | exchange
  /-- `Tick`: the clock is read. -/
  | readClock
  /-- `Tick`: `mLastTickTime` is read. -/
  | elapsed (now : Nat)
  /-- `Tick`: no interval has passed, `mbTicking` is lowered. -/
  | turnBack (now : Nat)
  /-- `Tick`: `mLastTickTime` is advanced. -/
  | advance (now tickCount : Nat)
  /-- `Tick`: the loop, at its test. -/
  | loop (now i tickCount : Nat) (executeList : List (TimingNode α))
  /-- `Tick`: `mbTicking` is lowered. -/
  | store (now : Nat) (executeList : List (TimingNode α))
  /-- `Tick`: the nodes are executed. -/
  | execute (now : Nat) (executeList : List (TimingNode α))

/-- An iteration of the loop, under the lock: `processTick` and `++mCurrentTick`. -/
def processTick (s : TickingWheel α) : TickingWheel α :=
  { s with
    timers := { s.timers with wheel := s.timers.wheel.tickStep }
    processed := s.processed ++ [s.mCurrentTick] }

/-- `mLastTickTime` is advanced. -/
def advance (s : TickingWheel α) (ns : Nat) : TickingWheel α :=
  { s with mLastTickTime := s.mLastTickTime + ns }

/-- The next step of a thread. -/
def next (s : TickingWheel α) : Pc α → Option (TickingWheel α × Pc α)
  | .idle => none
  | .addTiming pCallback delayMs =>
    some ({ s with timers := s.timers.step (.addTiming pCallback delayMs) }, .idle)
  | .exchange => some ({ s with mbTicking := true }, if s.mbTicking then .idle else .readClock)
  | .readClock => some (s, .elapsed s.clock)
  | .elapsed now =>
    some (s,
      if s.elapsedMs now < s.mTickIntervalMs then .turnBack now
      else .advance now (s.tickCount now))
  | .turnBack _ => some ({ s with mbTicking := false }, .idle)
  | .advance now tickCount =>
    some (s.advance (tickCount * s.mTickIntervalMs * nsPerMs), .loop now 0 tickCount [])
  | .loop now i tickCount executeList =>
    if i < tickCount then
      some (s.processTick, .loop now ((i + 1) % counterSize) tickCount
        (executeList ++ s.timers.wheel.processTick.2))
    else some (s, .store now executeList)
  | .store now executeList => some ({ s with mbTicking := false }, .execute now executeList)
  | .execute _ [] => some (s, .idle)
  | .execute now (node :: rest) =>
    some ({ s with executed := s.executed ++ [⟨now, node⟩] }, .execute now rest)

/-- What a thread can do. -/
inductive Act (α : Type)
  /-- It calls `AddTiming`. -/
  | addTiming (pCallback : α) (delayMs : Nat)
  /-- It calls `Tick`. -/
  | tick
  /-- It goes on. -/
  | next

def act : Act α → TickingWheel α → Pc α → Option (TickingWheel α × Pc α)
  | .addTiming pCallback delayMs, s, .idle => some (s, .addTiming pCallback delayMs)
  | .tick, s, .idle => some (s, .exchange)
  | .next, s, pc => s.next pc
  | _, _, _ => none

/-- Time passes. -/
def pass (ns : Nat) (s : TickingWheel α) : TickingWheel α := { s with clock := s.clock + ns }

/-- Threads that call `Tick` and `AddTiming` of a wheel made at `t0`. -/
def machine (τ α : Type) [DecidableEq τ] (tickInterval t0 : Nat) :
    Machine (Threads τ (Pc α) (TickingWheel α)) (ThreadAction τ (Act α) Nat) :=
  Threads.machine (fun _ => act) (fun ns s => some (pass ns s)) fun s =>
    s.shared = new α tickInterval t0 ∧ ∀ t, s.locals t = .idle

end TickingWheel

end CppNetEngine
