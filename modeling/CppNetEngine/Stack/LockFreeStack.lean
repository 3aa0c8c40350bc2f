import CppNetEngine.Lib.Threads
import CppNetEngine.Stack.TopNode
import Mathlib.Data.Finset.Erase
import Mathlib.Data.Finset.Insert

/-!
# The lock-free stack

`LockFreeStack::TryPush` and `TryPop` down to their reads, writes and compare-and-swaps, with any
number of threads that call them. `NewObject` gives any node that is not in use, also one that a
call in progress may still point to.
-/

namespace CppNetEngine.LockFreeStack

open TopNode

/-- A stack and its nodes. -/
structure Memory (α : Type*) where
  mMaxCount : Int
  mCount : Int
  /-- `mTopAlineNode16`, and the `pNextNode` of the nodes. -/
  links : Links Nat
  data : Nat → α
  /-- The nodes that `NewObject` has given and `DeleteObject` has not taken back. -/
  allocated : Finset Nat

/-- Where a thread is in `TryPush`. -/
inductive TryPushStep
  | loadCount
  | newObject
  | setData (pDesired : Nat)
  | push (pDesired : Nat) (step : PushStep)
  | fetchAdd

/-- Where a thread is in `TryPop`. -/
inductive TryPopStep
  | fetchSub
  | fetchAdd
  | pop (step : PopStep Nat)
  | readData (pNode : Nat)
  | deleteObject (pNode : Nat)

/-- Where a thread is, with its arguments and variables. -/
inductive Pc (α : Type*)
  | idle
  | tryPush (data : α) (step : TryPushStep)
  | tryPop (outData : α) (step : TryPopStep)

/-- What the outside decides in a step. -/
structure Outside where
  /-- A `compare_exchange_weak` fails without a reason. -/
  spurious : Bool
  /-- What `NewObject` returns. -/
  address : Nat

inductive Action (α : Type*)
  | tryPush (data : α)
  | tryPop (outData : α)
  | next (k : Outside)

variable {α : Type*}

/-- `TryPush`. -/
def tryPushStep (k : Outside) (m : Memory α) (data : α) : TryPushStep → Memory α × Pc α
  | .loadCount => (m, if m.mMaxCount ≤ m.mCount then .idle else .tryPush data .newObject)
  | .newObject =>
    ({ m with allocated := insert k.address m.allocated }, .tryPush data (.setData k.address))
  | .setData pDesired =>
    ({ m with data := Function.update m.data pDesired data },
      .tryPush data (.push pDesired .readNode))
  | .push pDesired step =>
    let (links, next) := pushStep k.spurious m.links pDesired step
    ({ m with links := links }, .tryPush data (next.elim .fetchAdd (.push pDesired)))
  | .fetchAdd => ({ m with mCount := m.mCount + 1 }, .idle)

/-- `TryPop`. -/
def tryPopStep (k : Outside) (m : Memory α) (outData : α) : TryPopStep → Option (Memory α × Pc α)
  | .fetchSub =>
    some ({ m with mCount := m.mCount - 1 },
      .tryPop outData (if m.mCount ≤ 0 then .fetchAdd else .pop .readCount))
  | .fetchAdd => some ({ m with mCount := m.mCount + 1 }, .idle)
  | .pop step =>
    (popStep k.spurious m.links step).map fun (links, next) =>
      ({ m with links := links }, .tryPop outData (next.elim .pop .readData))
  | .readData pNode => some (m, .tryPop (m.data pNode) (.deleteObject pNode))
  | .deleteObject pNode => some ({ m with allocated := m.allocated.erase pNode }, .idle)

/-- The next step of a thread. -/
def step (k : Outside) (m : Memory α) : Pc α → Option (Memory α × Pc α)
  | .idle => none
  | .tryPush data step => some (tryPushStep k m data step)
  | .tryPop outData step => tryPopStep k m outData step

/-- What a thread can do. -/
def act : Action α → Memory α → Pc α → Option (Memory α × Pc α)
  | .next k, m, pc => step k m pc
  | .tryPush data, m, .idle => some (m, .tryPush data .loadCount)
  | .tryPop outData, m, .idle => some (m, .tryPop outData .fetchSub)
  | _, _, _ => none

/-- What the constructor leaves. -/
structure Memory.Initial (m : Memory α) : Prop where
  mCount : m.mCount = 0
  top : m.links.top = ⟨none, 0⟩
  allocated : m.allocated = ∅

abbrev State (τ α : Type*) := Threads τ (Pc α) (Memory α)

/-- Threads that call `TryPush` and `TryPop`. -/
abbrev machine (τ α : Type*) [DecidableEq τ] :
    Machine (State τ α) (ThreadAction τ (Action α) Empty) :=
  Threads.machine (fun _ => act) (fun e _ => e.elim)
    fun s => s.shared.Initial ∧ ∀ t, s.locals t = .idle

/-- The next step of the thread is `NewObject`. -/
def Pc.allocates : Pc α → Bool
  | .tryPush _ .newObject => true
  | _ => false

/-- `NewObject` does not give a node that is in use. -/
def CallsGuard {τ : Type*} (s : State τ α) (t : τ) : Action α → Prop
  | .next k => (s.locals t).allocates = true → k.address ∉ s.shared.allocated
  | .tryPush _ | .tryPop _ => True

instance {τ : Type*} (s : State τ α) (t : τ) : ∀ a, Decidable (CallsGuard s t a)
  | .next _ => inferInstanceAs (Decidable (_ → _))
  | .tryPush _ | .tryPop _ => inferInstanceAs (Decidable True)

end CppNetEngine.LockFreeStack
