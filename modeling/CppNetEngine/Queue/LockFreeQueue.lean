import CppNetEngine.Lib.Linked
import CppNetEngine.Lib.Threads
import Mathlib.Data.Finset.Erase
import Mathlib.Data.Finset.Insert

/-!
# The lock-free queue

`LockFreeQueue::TryEnqueue` and `TryDequeue` down to their reads, writes and compare-and-swaps, with
any number of threads that call them on any number of queues. The queues share the nodes:
`NewObject` gives any node that is not in use, also one that a call in progress may still point to.
The reads that the language leaves in either order, `mHead.pNode == mTail.pNode`, are taken in
either order.
-/

namespace CppNetEngine.LockFreeQueue

structure Node16 where
  pNode : Option Nat
  count : Nat
  deriving DecidableEq

structure Queue where
  mMaxCount : Int
  mCount : Int
  mHead : Node16
  mTail : Node16

/-- The memory that the threads share: queues, and nodes by their addresses. -/
structure Memory (κ α : Type*) where
  /-- A queue that is not constructed has null pointers. -/
  queue : κ → Queue
  data : Nat → α
  pNextNode : Nat → Option Nat
  /-- The nodes that `NewObject` has given and `DeleteObject` has not taken back. -/
  allocated : Finset Nat

/-! ## Threads -/

/-- Where a thread is in `moveTail`. -/
inductive MoveStep
  | readCount
  | readNode (count : Nat)
  | readNext (expected : Node16)
  | swap (expected : Node16) (pNextNode : Nat)

/-- Where a thread is in `TryEnqueue`. -/
inductive EnqueueStep
  | loadCount
  | newObject
  | setData (pDesired : Nat)
  | setNext (pDesired : Nat)
  /-- The first `mTail.pNode`, and what is its `pNextNode`. -/
  | readTail (pDesired : Nat)
  | readNext (pDesired : Nat) (pNode : Option Nat)
  /-- The second `mTail.pNode`, whose `pNextNode` is swapped. -/
  | readTailAgain (pDesired : Nat) (pExpected : Option Nat)
  | swap (pDesired : Nat) (pNode : Option Nat)
  /-- `moveTail()` before the loop starts again. -/
  | retry (pDesired : Nat) (step : MoveStep)
  /-- `moveTail()` after the node was linked. -/
  | moveTail (step : MoveStep)
  | fetchAdd

/-- Where a thread is in `TryDequeue`. -/
inductive DequeueStep
  | fetchSub
  | fetchAdd
  | compare
  | compareTail (pHead : Option Nat)
  | compareHead (pTail : Option Nat)
  | moveTail (step : MoveStep)
  | readCount
  | readNode
  | readNext
  | readData
  | swap
  | deleteObject

/-- Where a thread is, with its arguments and variables. -/
inductive Pc (κ α : Type*)
  | idle
  | enqueue (q : κ) (data : α) (step : EnqueueStep)
  | dequeue (q : κ) (outData : α) (expected desired : Node16) (step : DequeueStep)

/-- What the outside decides in a step. -/
structure Outside where
  /-- What `NewObject` returns. -/
  address : Nat
  /-- `mTail.pNode` is read first where it is compared with `mHead.pNode`. -/
  tailFirst : Bool

inductive Action (κ α : Type*)
  | construct (q : κ) (maxCount : Int) (pDummyNode : Nat)
  | enqueue (q : κ) (data : α)
  | dequeue (q : κ) (outData : α)
  | next (k : Outside)

variable {κ α : Type*} [DecidableEq κ]

/-! ## Steps -/

namespace Memory

def setQueue (m : Memory κ α) (q : κ) (queue : Queue) : Memory κ α :=
  { m with queue := Function.update m.queue q queue }

/-- `fetch_add` on `mCount`. -/
def addCount (m : Memory κ α) (q : κ) (n : Int) : Memory κ α :=
  m.setQueue q { m.queue q with mCount := (m.queue q).mCount + n }

def setHead (m : Memory κ α) (q : κ) (head : Node16) : Memory κ α :=
  m.setQueue q { m.queue q with mHead := head }

def setTail (m : Memory κ α) (q : κ) (tail : Node16) : Memory κ α :=
  m.setQueue q { m.queue q with mTail := tail }

omit [DecidableEq κ] in
def setNext (m : Memory κ α) (pNode : Nat) (pNextNode : Option Nat) : Memory κ α :=
  { m with pNextNode := Function.update m.pNextNode pNode pNextNode }

omit [DecidableEq κ] in
def setData (m : Memory κ α) (pNode : Nat) (data : α) : Memory κ α :=
  { m with data := Function.update m.data pNode data }

omit [DecidableEq κ] in
def newObject (m : Memory κ α) (pNode : Nat) : Memory κ α :=
  { m with allocated := insert pNode m.allocated }

omit [DecidableEq κ] in
/-- `DeleteObject`; a null pointer is ignored. -/
def deleteObject (m : Memory κ α) (pNode : Option Nat) : Memory κ α :=
  { m with allocated := pNode.elim m.allocated m.allocated.erase }

/-- The constructor of a queue. -/
def construct (m : Memory κ α) (q : κ) (maxCount : Int) (pDummyNode : Nat) : Memory κ α :=
  ((m.newObject pDummyNode).setNext pDummyNode none).setQueue q
    ⟨maxCount, 0, ⟨some pDummyNode, 0⟩, ⟨some pDummyNode, 0⟩⟩

section Fields

variable {m : Memory κ α} {q q' : κ} {n : Int} {head tail : Node16}

@[simp] theorem setQueue_self {v : Queue} : (m.setQueue q v).queue q = v :=
  Function.update_self _ _ _

theorem setQueue_other {v : Queue} (hq : q' ≠ q) : (m.setQueue q v).queue q' = m.queue q' :=
  Function.update_of_ne hq _ _

/-- What another value of a queue leaves as it is. -/
theorem setQueue_field {β : Type*} (f : Queue → β) {v : Queue} (hf : f v = f (m.queue q)) :
    f ((m.setQueue q v).queue q') = f (m.queue q') := by
  by_cases hq : q' = q
  · rw [hq, setQueue_self, hf]
  · rw [setQueue_other hq]

@[simp] theorem setTail_mHead : ((m.setTail q tail).queue q').mHead = (m.queue q').mHead :=
  setQueue_field Queue.mHead rfl

@[simp] theorem setTail_mCount : ((m.setTail q tail).queue q').mCount = (m.queue q').mCount :=
  setQueue_field Queue.mCount rfl

@[simp] theorem setTail_mMaxCount :
    ((m.setTail q tail).queue q').mMaxCount = (m.queue q').mMaxCount :=
  setQueue_field Queue.mMaxCount rfl

@[simp] theorem setTail_self : ((m.setTail q tail).queue q).mTail = tail := by
  rw [setTail, setQueue_self]

theorem setTail_other (hq : q' ≠ q) :
    ((m.setTail q tail).queue q').mTail = (m.queue q').mTail := by
  rw [setTail, setQueue_other hq]

@[simp] theorem setHead_mTail : ((m.setHead q head).queue q').mTail = (m.queue q').mTail :=
  setQueue_field Queue.mTail rfl

@[simp] theorem setHead_mCount : ((m.setHead q head).queue q').mCount = (m.queue q').mCount :=
  setQueue_field Queue.mCount rfl

@[simp] theorem setHead_mMaxCount :
    ((m.setHead q head).queue q').mMaxCount = (m.queue q').mMaxCount :=
  setQueue_field Queue.mMaxCount rfl

@[simp] theorem setHead_self : ((m.setHead q head).queue q).mHead = head := by
  rw [setHead, setQueue_self]

theorem setHead_other (hq : q' ≠ q) :
    ((m.setHead q head).queue q').mHead = (m.queue q').mHead := by
  rw [setHead, setQueue_other hq]

@[simp] theorem addCount_mHead : ((m.addCount q n).queue q').mHead = (m.queue q').mHead :=
  setQueue_field Queue.mHead rfl

@[simp] theorem addCount_mTail : ((m.addCount q n).queue q').mTail = (m.queue q').mTail :=
  setQueue_field Queue.mTail rfl

@[simp] theorem addCount_mMaxCount :
    ((m.addCount q n).queue q').mMaxCount = (m.queue q').mMaxCount :=
  setQueue_field Queue.mMaxCount rfl

theorem addCount_mCount : ((m.addCount q n).queue q').mCount =
    (m.queue q').mCount + if q = q' then n else 0 := by
  by_cases hq : q' = q
  · rw [hq, addCount, setQueue_self, if_pos rfl]
  · rw [addCount, setQueue_other hq, if_neg (Ne.symm hq), Int.add_zero]

end Fields

end Memory

/-- `moveTail`: what is next in it, if it does not return. -/
def moveTail (m : Memory κ α) (q : κ) : MoveStep → Option (Memory κ α × Option MoveStep)
  | .readCount => some (m, some (.readNode (m.queue q).mTail.count))
  | .readNode count => some (m, some (.readNext ⟨(m.queue q).mTail.pNode, count⟩))
  | .readNext expected =>
    -- there is no step that follows a null pointer
    expected.pNode.map fun pNode => (m, (m.pNextNode pNode).map (.swap expected))
  | .swap expected pNextNode =>
    some (if (m.queue q).mTail = expected then m.setTail q ⟨some pNextNode, expected.count + 1⟩
      else m, none)

/-- `TryEnqueue`. -/
def enqueueStep (k : Outside) (m : Memory κ α) (q : κ) (data : α) :
    EnqueueStep → Option (Memory κ α × Pc κ α)
  | .loadCount =>
    some (m, if (m.queue q).mMaxCount ≤ (m.queue q).mCount then .idle
      else .enqueue q data .newObject)
  | .newObject => some (m.newObject k.address, .enqueue q data (.setData k.address))
  | .setData pDesired => some (m.setData pDesired data, .enqueue q data (.setNext pDesired))
  | .setNext pDesired => some (m.setNext pDesired none, .enqueue q data (.readTail pDesired))
  | .readTail pDesired => some (m, .enqueue q data (.readNext pDesired (m.queue q).mTail.pNode))
  | .readNext pDesired pNode =>
    pNode.map fun pNode => (m, .enqueue q data (.readTailAgain pDesired (m.pNextNode pNode)))
  | .readTailAgain pDesired pExpected =>
    some (m, .enqueue q data (if pExpected = none then .swap pDesired (m.queue q).mTail.pNode
      else .retry pDesired .readCount))
  | .swap pDesired pNode =>
    pNode.map fun pNode =>
      if m.pNextNode pNode = none then
        (m.setNext pNode (some pDesired), .enqueue q data (.moveTail .readCount))
      else (m, .enqueue q data (.retry pDesired .readCount))
  | .retry pDesired step =>
    (moveTail m q step).map fun (m', next) =>
      (m', .enqueue q data (next.elim (.readTail pDesired) (.retry pDesired)))
  | .moveTail step =>
    (moveTail m q step).map fun (m', next) =>
      (m', .enqueue q data (next.elim .fetchAdd .moveTail))
  | .fetchAdd => some (m.addCount q 1, .idle)

/-- `TryDequeue`. -/
def dequeueStep (k : Outside) (m : Memory κ α) (q : κ) (outData : α) (expected desired : Node16) :
    DequeueStep → Option (Memory κ α × Pc κ α)
  | .fetchSub =>
    some (m.addCount q (-1), .dequeue q outData expected desired
      (if (m.queue q).mCount ≤ 0 then .fetchAdd else .compare))
  | .fetchAdd => some (m.addCount q 1, .idle)
  | .compare =>
    some (m, .dequeue q outData expected desired
      (if k.tailFirst then .compareHead (m.queue q).mTail.pNode
        else .compareTail (m.queue q).mHead.pNode))
  | .compareTail pHead =>
    some (m, .dequeue q outData expected desired
      (if pHead = (m.queue q).mTail.pNode then .moveTail .readCount else .readCount))
  | .compareHead pTail =>
    some (m, .dequeue q outData expected desired
      (if (m.queue q).mHead.pNode = pTail then .moveTail .readCount else .readCount))
  | .moveTail step =>
    -- `continue` goes to the condition of the loop
    (moveTail m q step).map fun (m', next) =>
      (m', .dequeue q outData expected desired (next.elim .swap .moveTail))
  | .readCount =>
    some (m, .dequeue q outData ⟨expected.pNode, (m.queue q).mHead.count⟩ desired .readNode)
  | .readNode =>
    some (m, .dequeue q outData ⟨(m.queue q).mHead.pNode, expected.count⟩ desired
      (if (m.queue q).mHead.pNode = none then .swap else .readNext))
  | .readNext =>
    expected.pNode.map fun pNode =>
      (m, .dequeue q outData expected ⟨m.pNextNode pNode, expected.count + 1⟩
        (if m.pNextNode pNode = none then .swap else .readData))
  | .readData =>
    desired.pNode.map fun pNode => (m, .dequeue q (m.data pNode) expected desired .swap)
  | .swap =>
    some (if (m.queue q).mHead = expected then
        (m.setHead q desired, .dequeue q outData expected desired .deleteObject)
      -- a compare-and-swap that fails loads what it has found
      else (m, .dequeue q outData (m.queue q).mHead desired .compare))
  | .deleteObject => some (m.deleteObject expected.pNode, .idle)

/-- The next step of a thread. -/
def step (k : Outside) (m : Memory κ α) : Pc κ α → Option (Memory κ α × Pc κ α)
  | .idle => none
  | .enqueue q data step => enqueueStep k m q data step
  | .dequeue q outData expected desired step => dequeueStep k m q outData expected desired step

/-- What a thread can do. -/
def act : Action κ α → Memory κ α → Pc κ α → Option (Memory κ α × Pc κ α)
  | .next k, m, pc => step k m pc
  | .construct q maxCount pDummyNode, m, .idle => some (m.construct q maxCount pDummyNode, .idle)
  | .enqueue q data, m, .idle => some (m, .enqueue q data .loadCount)
  | .dequeue q outData, m, .idle => some (m, .dequeue q outData ⟨none, 0⟩ ⟨none, 0⟩ .fetchSub)
  | _, _, _ => none

/-- A memory without queues. -/
structure Memory.Initial (m : Memory κ α) : Prop where
  queue : ∀ q, m.queue q = ⟨0, 0, ⟨none, 0⟩, ⟨none, 0⟩⟩
  allocated : m.allocated = ∅

abbrev State (τ κ α : Type*) := Threads τ (Pc κ α) (Memory κ α)

/-- Threads that call `TryEnqueue` and `TryDequeue`. -/
abbrev machine (τ κ α : Type*) [DecidableEq τ] [DecidableEq κ] :
    Machine (State τ κ α) (ThreadAction τ (Action κ α) Empty) :=
  Threads.machine (fun _ => act) (fun e _ => e.elim)
    fun s => s.shared.Initial ∧ ∀ t, s.locals t = .idle

/-- The next step of the thread is `NewObject`. -/
def Pc.allocates : Pc κ α → Bool
  | .enqueue _ _ .newObject => true
  | _ => false

/-- What the callers and `NewObject` see to: queues are constructed once and before they are used,
and a node that is in use is not given again. -/
def CallsGuard {τ : Type*} (s : State τ κ α) (t : τ) : Action κ α → Prop
  | .construct q _ pDummyNode =>
    (s.shared.queue q).mHead.pNode = none ∧ pDummyNode ∉ s.shared.allocated
  | .enqueue q _ | .dequeue q _ => (s.shared.queue q).mHead.pNode ≠ none
  | .next k => (s.locals t).allocates = true → k.address ∉ s.shared.allocated

instance {τ : Type*} (s : State τ κ α) (t : τ) : ∀ a, Decidable (CallsGuard s t a)
  | .construct _ _ _ => inferInstanceAs (Decidable (_ ∧ _))
  | .enqueue _ _ | .dequeue _ _ => inferInstanceAs (Decidable (_ ≠ _))
  | .next _ => inferInstanceAs (Decidable (_ → _))

/-! ## What is seen of a run -/

inductive Event (κ α : Type*)
  /-- A node was linked to a queue. -/
  | linked (q : κ) (data : α)
  /-- `TryEnqueue` returned `true`. -/
  | enqueued (q : κ) (data : α)
  /-- The head of a queue was moved on. -/
  | taken (q : κ) (outData : α)
  /-- `TryDequeue` returned `true`. -/
  | dequeued (q : κ) (outData : α)
  deriving DecidableEq

/-- What is seen of the step of a thread. -/
def seen (m : Memory κ α) : Pc κ α → List (Event κ α)
  | .enqueue q data (.swap _ (some pNode)) =>
    if m.pNextNode pNode = none then [.linked q data] else []
  | .enqueue q data .fetchAdd => [.enqueued q data]
  | .dequeue q outData expected _ .swap =>
    if (m.queue q).mHead = expected then [.taken q outData] else []
  | .dequeue q outData _ _ .deleteObject => [.dequeued q outData]
  | _ => []

end CppNetEngine.LockFreeQueue
