import CppNetEngine.Queue.LockFreeQueue

/-!
# The lock-free queue with weak compare-and-swaps

The same calls of `TryEnqueue` and `TryDequeue` where `compare_exchange_weak` may fail though it
finds what it expects, on queues that are constructed before the threads start. Of a thread in
`TryDequeue` it is also recorded from which node it has assigned `outData` in the iteration of the
loop that it is in.
-/

namespace CppNetEngine.LockFreeQueue

variable {κ α : Type*} [DecidableEq κ]

/-- An assignment of `outData`: from the successor of a node. -/
structure Assignment (α : Type*) where
  pNode : Nat
  pNextNode : Nat
  outData : α

/-- Where a thread is, and what `outData` was assigned in this iteration of `TryDequeue`. -/
structure Iteration (κ α : Type*) where
  pc : Pc κ α
  assigned : Option (Assignment α)

inductive WeakAction (κ α : Type*)
  | enqueue (q : κ) (data : α)
  | dequeue (q : κ) (outData : α)
  | next (k : Outside)
  /-- The next step is a compare-and-swap, and fails whatever it finds. -/
  | fail

/-- What follows a compare-and-swap that fails. -/
def fail (m : Memory κ α) : Pc κ α → Option (Pc κ α)
  | .enqueue q data (.swap pDesired _) => some (.enqueue q data (.retry pDesired .readCount))
  | .enqueue q data (.retry pDesired (.swap _ _)) => some (.enqueue q data (.readTail pDesired))
  | .enqueue q data (.moveTail (.swap _ _)) => some (.enqueue q data .fetchAdd)
  | .dequeue q outData expected desired (.moveTail (.swap _ _)) =>
    some (.dequeue q outData expected desired .swap)
  | .dequeue q outData _ desired .swap =>
    some (.dequeue q outData (m.queue q).mHead desired .compare)
  | _ => none

/-- The thread is at the beginning of an iteration of `TryDequeue`. -/
def Pc.begins : Pc κ α → Bool
  | .dequeue _ _ _ _ .compare => true
  | _ => false

/-- What the step from `pc` assigns to `outData`, if it does. -/
def assigns (m : Memory κ α) : Pc κ α → Option (Assignment α)
  | .dequeue _ _ expected desired .readData =>
    expected.pNode.bind fun pNode => desired.pNode.map fun pNextNode =>
      ⟨pNode, pNextNode, m.data pNextNode⟩
  | _ => none

/-- The iteration after a step to `pc`. -/
def Iteration.after (m : Memory κ α) (i : Iteration κ α) (pc : Pc κ α) : Iteration κ α :=
  ⟨pc, if pc.begins then none else (assigns m i.pc).or i.assigned⟩

/-- What a thread can do. -/
def weakAct : WeakAction κ α → Memory κ α → Iteration κ α → Option (Memory κ α × Iteration κ α)
  | .next k, m, i => (step k m i.pc).map fun r => (r.1, i.after m r.2)
  | .fail, m, i => (fail m i.pc).map fun pc => (m, i.after m pc)
  | .enqueue q data, m, ⟨.idle, _⟩ => some (m, ⟨.enqueue q data .loadCount, none⟩)
  | .dequeue q outData, m, ⟨.idle, _⟩ =>
    some (m, ⟨.dequeue q outData ⟨none, 0⟩ ⟨none, 0⟩ .fetchSub, none⟩)
  | _, _, _ => none

/-- The queues as their constructors leave them. -/
def Memory.Built (m : Memory κ α) : Prop :=
  ∀ q, ∃ maxCount pDummyNode, pDummyNode ∈ m.allocated ∧ m.pNextNode pDummyNode = none ∧
    m.queue q = ⟨maxCount, 0, ⟨some pDummyNode, 0⟩, ⟨some pDummyNode, 0⟩⟩

abbrev WeakState (τ κ α : Type*) := Threads τ (Iteration κ α) (Memory κ α)

/-- Threads that call `TryEnqueue` and `TryDequeue`. -/
abbrev weakMachine (τ κ α : Type*) [DecidableEq τ] [DecidableEq κ] :
    Machine (WeakState τ κ α) (ThreadAction τ (WeakAction κ α) Empty) :=
  Threads.machine (fun _ => weakAct) (fun e _ => e.elim)
    fun s => s.shared.Built ∧ ∀ t, s.locals t = ⟨.idle, none⟩

end CppNetEngine.LockFreeQueue
