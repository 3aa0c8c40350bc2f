import Mathlib.Algebra.Ring.Nat
import Mathlib.Data.Nat.Bits
import Mathlib.Logic.Function.Basic

/-!
# The hierarchical timing wheel

`TimingWheel` of `TimingWheel.h`/`TimingWheel.cpp`: three levels of 256, 256 and 128 slots, each a
list of nodes. `addNode` picks the level by the remaining delay and the slot by the expiry tick;
`processTick` cascades a slot of level 1 (every 2^8 ticks) and of level 2 (every 2^16 ticks) and
hands over the current slot of level 0. Ticks and delays are `uint64`; they are natural numbers
here, with the one subtraction that could wrap written with its wrap-around (`subU64`).
-/

namespace CppNetEngine

/-- Subtraction of `uint64`. -/
@[irreducible] def subU64 (a b : Nat) : Nat := (a + 2 ^ 64 - b) % 2 ^ 64

theorem subU64_of_le {a b : Nat} (h : b ≤ a) (hd : a - b < 2 ^ 64) : subU64 a b = a - b := by
  unfold subU64
  rw [show a + 2 ^ 64 - b = a - b + 2 ^ 64 by omega, Nat.add_mod_right, Nat.mod_eq_of_lt hd]

namespace TimingWheel

def level0Bits : Nat := 8
def level1Bits : Nat := 8
def level2Bits : Nat := 7

def level0Size : Nat := 1 <<< level0Bits
def level1Size : Nat := 1 <<< level1Bits
def level2Size : Nat := 1 <<< level2Bits

def level0Mask : Nat := level0Size - 1
def level1Mask : Nat := level1Size - 1
def level2Mask : Nat := level2Size - 1

def defaultTickInterval : Nat := 16

end TimingWheel

open TimingWheel

/-- `TimingNode`; the shared cancel flag is named by a number, one for each `TimerHandle` made. -/
structure TimingNode (α : Type*) where
  mExpireTick : Nat
  mpCancelFlag : Nat
  mpCallback : α
  deriving DecidableEq

/-- The wheel's data under `mLock`. -/
structure TimingWheel (α : Type*) where
  mTickIntervalMs : Nat
  mCurrentTick : Nat
  mWheel0 : Fin level0Size → List (TimingNode α)
  mWheel1 : Fin level1Size → List (TimingNode α)
  mWheel2 : Fin level2Size → List (TimingNode α)

namespace TimingWheel

variable {α : Type*}

/-- The constructor. -/
def new (α : Type*) (tickInterval : Nat) : TimingWheel α :=
  { mTickIntervalMs := max tickInterval defaultTickInterval
    mCurrentTick := 0
    mWheel0 := fun _ => []
    mWheel1 := fun _ => []
    mWheel2 := fun _ => [] }

def getMaxDelayMs (w : TimingWheel α) : Nat :=
  w.mTickIntervalMs * level0Size * level1Size * level2Size

/-! ## Slots -/

theorem and_mask_lt (x n : Nat) : x &&& (1 <<< n - 1) < 1 <<< n := by
  rw [Nat.one_shiftLeft, Nat.and_two_pow_sub_one_eq_mod]
  exact Nat.mod_lt _ (Nat.two_pow_pos n)

/-- The slot of a tick on level 0. -/
def depth0 (tick : Nat) : Fin level0Size := ⟨tick &&& level0Mask, and_mask_lt _ _⟩

/-- The slot of a tick on level 1. -/
def depth1 (tick : Nat) : Fin level1Size :=
  ⟨(tick >>> level0Bits) &&& level1Mask, and_mask_lt _ _⟩

/-- The slot of a tick on level 2. -/
def depth2 (tick : Nat) : Fin level2Size :=
  ⟨(tick >>> (level0Bits + level1Bits)) &&& level2Mask, and_mask_lt _ _⟩

/-! ## Operations -/

/-- `push_back` on slot `i`. -/
def pushBack {β : Type*} {n : Nat} (slots : Fin n → List β) (i : Fin n) (b : β) :
    Fin n → List β :=
  Function.update slots i (slots i ++ [b])

def addNode (w : TimingWheel α) (node : TimingNode α) : TimingWheel α :=
  let e := node.mExpireTick
  let delay := subU64 e w.mCurrentTick
  if delay < level0Size then
    { w with mWheel0 := pushBack w.mWheel0 (depth0 e) node }
  else if delay < level0Size <<< level1Bits then
    { w with mWheel1 := pushBack w.mWheel1 (depth1 e) node }
  else
    { w with mWheel2 := pushBack w.mWheel2 (depth2 e) node }

/-- The loop of `cascade` over the nodes spliced out of the bucket. -/
def cascade (w : TimingWheel α) (tempBucket : List (TimingNode α)) : TimingWheel α :=
  tempBucket.foldl addNode w

/-- `cascade(mWheel1[d])`. -/
def cascade1 (w : TimingWheel α) (d : Fin level1Size) : TimingWheel α :=
  cascade { w with mWheel1 := Function.update w.mWheel1 d [] } (w.mWheel1 d)

/-- `cascade(mWheel2[d])`. -/
def cascade2 (w : TimingWheel α) (d : Fin level2Size) : TimingWheel α :=
  cascade { w with mWheel2 := Function.update w.mWheel2 d [] } (w.mWheel2 d)

/-- The cascades of `processTick`. -/
def cascadeTick (w : TimingWheel α) : TimingWheel α :=
  if (depth0 w.mCurrentTick).val = 0 ∧ 0 < w.mCurrentTick then
    let w' := cascade1 w (depth1 w.mCurrentTick)
    if (depth1 w.mCurrentTick).val = 0 then cascade2 w' (depth2 w.mCurrentTick) else w'
  else w

/-- `processTick`: the wheel after it and the nodes it appends to the execute list. -/
def processTick (w : TimingWheel α) : TimingWheel α × List (TimingNode α) :=
  let w' := cascadeTick w
  ({ w' with mWheel0 := Function.update w'.mWheel0 (depth0 w.mCurrentTick) [] },
    w'.mWheel0 (depth0 w.mCurrentTick))

/-- A tick step of the loop in `Tick`: `processTick` and `++mCurrentTick`. -/
def tickStep (w : TimingWheel α) : TimingWheel α :=
  { (processTick w).1 with mCurrentTick := (processTick w).1.mCurrentTick + 1 }

/-- The node `AddTiming` makes when `delayMs` is not 0. -/
def timingNode (w : TimingWheel α) (flag : Nat) (pCallback : α) (delayMs : Nat) : TimingNode α :=
  let safeDelayMs := min delayMs (getMaxDelayMs w)
  let delayTicks := safeDelayMs / w.mTickIntervalMs
  ⟨w.mCurrentTick + delayTicks, flag, pCallback⟩

/-- `AddTiming`: with no delay the callback runs at once (second component) and no node is made. -/
def addTiming (w : TimingWheel α) (flag : Nat) (pCallback : α) (delayMs : Nat) :
    TimingWheel α × Option α :=
  if delayMs = 0 then (w, some pCallback)
  else (addNode w (timingNode w flag pCallback delayMs), none)

end TimingWheel

/-! ## Runs -/

/-- A wheel and the number of `TimerHandle`s made so far: the next one's cancel flag. -/
structure Timers (α : Type*) where
  wheel : TimingWheel α
  flags : Nat

namespace Timers

variable {α : Type*}

/-- What the wheel is asked to do. -/
inductive Call (α : Type*)
  | addTiming (pCallback : α) (delayMs : Nat)
  | tick

def new (α : Type*) (tickInterval : Nat) : Timers α := ⟨.new α tickInterval, 0⟩

def step (s : Timers α) : Call α → Timers α
  | .addTiming cb delayMs => ⟨(s.wheel.addTiming s.flags cb delayMs).1, s.flags + 1⟩
  | .tick => { s with wheel := s.wheel.tickStep }

def run (s : Timers α) (calls : List (Call α)) : Timers α := calls.foldl step s

end Timers

end CppNetEngine
