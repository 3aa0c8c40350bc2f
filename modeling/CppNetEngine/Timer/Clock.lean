import CppNetEngine.Lib.Observed
import CppNetEngine.Timer.Wheel

/-!
# The timing wheel and the clock

`TimingWheel::Tick` with `mLastTickTime`: it runs as many tick steps as whole intervals have passed
and then executes the nodes they handed over. Clock readings are those of the steady clock, in
nanoseconds. A run is a machine of calls, each with the reading at which it is made, and what is
seen of it are the nodes that `Tick` executes.
-/

namespace CppNetEngine

/-- A wheel with its timer handles, `mLastTickTime`, and the last reading of the clock. -/
structure ClockedWheel (α : Type*) where
  timers : Timers α
  mLastTickTime : Nat
  now : Nat

/-- A node that a `Tick` executes, and the reading of that `Tick`. -/
structure Executed (α : Type*) where
  now : Nat
  node : TimingNode α
  deriving DecidableEq

namespace ClockedWheel

variable {α : Type*}

/-- Nanoseconds. -/
def nsPerMs : Nat := 1000000

/-- A wheel that is made at `t`. -/
def new (α : Type*) (tickInterval t : Nat) : ClockedWheel α := ⟨.new α tickInterval, t, t⟩

/-- The loop of `Tick`: `n` tick steps, and the nodes of the execute list. -/
def tickLoop : Nat → TimingWheel α → TimingWheel α × List (TimingNode α)
  | 0, w => (w, [])
  | n + 1, w => ((tickLoop n w.tickStep).1, w.processTick.2 ++ (tickLoop n w.tickStep).2)

/-- The number of intervals since `mLastTickTime`. -/
def tickCount (s : ClockedWheel α) (now : Nat) : Nat :=
  (now - s.mLastTickTime) / nsPerMs / s.timers.wheel.mTickIntervalMs

/-- `Tick` at the reading `now`, and the nodes it executes. Its loop counts in a `uint32`, and does
not end if there are more steps than that. -/
def tick (s : ClockedWheel α) (now : Nat) : Option (ClockedWheel α × List (TimingNode α)) :=
  let elapsedMs := (now - s.mLastTickTime) / nsPerMs
  let mTickIntervalMs := s.timers.wheel.mTickIntervalMs
  if elapsedMs < mTickIntervalMs then some ({ s with now := now }, [])
  else if 2 ^ 32 ≤ s.tickCount now then none
  else
    let r := tickLoop (s.tickCount now) s.timers.wheel
    some ({ timers := { s.timers with wheel := r.1 }
            mLastTickTime := s.mLastTickTime + s.tickCount now * mTickIntervalMs * nsPerMs
            now := now }, r.2)

/-- A call at the reading `now`, which is not smaller than the last one. -/
def call (s : ClockedWheel α) (now : Nat) :
    Timers.Call α → Option (ClockedWheel α × List (TimingNode α))
  | .addTiming pCallback delayMs =>
    if now < s.now then none
    else some ({ s with timers := s.timers.step (.addTiming pCallback delayMs), now := now }, [])
  | .tick => if now < s.now then none else s.tick now

/-- Calls of `AddTiming` and `Tick`, each at a reading of the clock. -/
abbrev machine (α : Type*) (tickInterval : Nat) :
    Machine (ClockedWheel α) (Nat × Timers.Call α) where
  init s := ∃ t, s = new α tickInterval t
  step s a := (s.call a.1 a.2).map (·.1)

/-- What a call executes of the wheel's nodes. -/
def see (s : ClockedWheel α) (a : Nat × Timers.Call α) : List (Executed α) :=
  match s.call a.1 a.2 with
  | none => []
  | some r => r.2.map fun node => ⟨a.1, node⟩

end ClockedWheel

end CppNetEngine
