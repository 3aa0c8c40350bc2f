import CppNetEngine.Queue.LockFreeQueue
import Mathlib.Data.Fintype.Defs

/-!
# Lock-free queues used by one thread

A call of `TryEnqueue` or `TryDequeue` whose thread takes all of its steps one after the other
(`finish`), and the calls that are made while no other thread has the queue: `Clear`, which
`~LockFreeQueue` calls as well, `Count` and `IsEmpty`. What one thread sees of a queue is compared
with a list (`MatchesFifo`), and what the nodes refer to with what the queues contain (`Exact`).
-/

namespace CppNetEngine.LockFreeQueue

variable {κ α : Type*} [DecidableEq κ]

/-- The node that is passed to `DeleteObject` in the next step. -/
def Pc.deletes : Pc κ α → List Nat
  | .dequeue _ _ expected _ .deleteObject => expected.pNode.toList
  | _ => []

/-- What a call has done: the memory, what was seen, and the nodes it has deleted. -/
structure Done (κ α : Type*) where
  memory : Memory κ α
  events : List (Event κ α)
  deleted : List Nat

/-- The thread takes its steps until it returns, for which it has `fuel`. -/
def finish (k : Outside) : Nat → Memory κ α → Pc κ α → Option (Done κ α)
  | _, m, .idle => some ⟨m, [], []⟩
  | 0, _, _ => none
  | fuel + 1, m, pc => (step k m pc).bind fun (m', pc') =>
    (finish k fuel m' pc').map fun r => ⟨r.memory, seen m pc ++ r.events, pc.deletes ++ r.deleted⟩

def tryEnqueue (k : Outside) (fuel : Nat) (m : Memory κ α) (q : κ) (data : α) :
    Option (Done κ α) :=
  finish k fuel m (.enqueue q data .loadCount)

def tryDequeue (k : Outside) (fuel : Nat) (m : Memory κ α) (q : κ) (outData : α) :
    Option (Done κ α) :=
  finish k fuel m (.dequeue q outData ⟨none, 0⟩ ⟨none, 0⟩ .fetchSub)

omit [DecidableEq κ] in
/-- The loop of `Clear`; `fuel` is for its iterations. -/
def clearLoop : Nat → Memory κ α → Option Nat → Option (Done κ α)
  | _, m, none => some ⟨m, [], []⟩
  | 0, _, some _ => none
  | fuel + 1, m, some pNode =>
    (clearLoop fuel (m.deleteObject (some pNode)) (m.pNextNode pNode)).map fun r =>
      { r with deleted := pNode :: r.deleted }

omit [DecidableEq κ] in
def clear (fuel : Nat) (m : Memory κ α) (q : κ) : Option (Done κ α) :=
  clearLoop fuel m (m.queue q).mHead.pNode

omit [DecidableEq κ] in
/-- `Count`. -/
def Memory.count (m : Memory κ α) (q : κ) : Int := (m.queue q).mCount

omit [DecidableEq κ] in
/-- `IsEmpty`. -/
def Memory.isEmpty (m : Memory κ α) (q : κ) : Bool := (m.queue q).mCount = 0

/-- What `TryEnqueue` has returned. -/
def Done.enqueued (r : Done κ α) : Bool :=
  r.events.any fun
    | .enqueued _ _ => true
    | _ => false

/-- What `TryDequeue` has stored in `outData`, if it has returned `true`. -/
def Done.dequeued (r : Done κ α) : Option α :=
  r.events.findSome? fun
    | .dequeued _ outData => some outData
    | _ => none

/-! ## A queue and a list -/

inductive Op (α : Type*)
  | tryEnqueue (data : α)
  | tryDequeue (outData : α)
  | clear
  deriving DecidableEq

/-- What a call returns; `TryDequeue` with what it stores in `outData`. -/
inductive Answer (α : Type*)
  | enqueued (ok : Bool)
  | dequeued (outData : Option α)
  | cleared
  deriving DecidableEq

def runOp (k : Outside) (fuel : Nat) (m : Memory κ α) (q : κ) :
    Op α → Option (Done κ α × Answer α)
  | .tryEnqueue data => (tryEnqueue k fuel m q data).map fun r => (r, .enqueued r.enqueued)
  | .tryDequeue outData => (tryDequeue k fuel m q outData).map fun r => (r, .dequeued r.dequeued)
  | .clear => (clear fuel m q).map fun r => (r, .cleared)

/-- A queue of at most `maxCount` elements: what a call returns, and what is in it then. -/
def boundedFifo (maxCount : Int) (l : List α) : Op α → Answer α × List α
  | .tryEnqueue data =>
    if (l.length : Int) < maxCount then (.enqueued true, l ++ [data]) else (.enqueued false, l)
  | .tryDequeue _ => (.dequeued l.head?, l.tail)
  | .clear => (.cleared, [])

omit [DecidableEq κ] in
/-- `Count` and `IsEmpty` are about the elements. -/
def Reports (m : Memory κ α) (q : κ) (l : List α) : Prop :=
  m.count q = l.length ∧ m.isEmpty q = l.isEmpty

/-- No node is deleted that `NewObject` has not given since it was deleted. -/
def Done.DeletesOnce (r : Done κ α) (m : Memory κ α) : Prop :=
  r.deleted.Nodup ∧ ∀ n ∈ r.deleted, n ∈ m.allocated

/-- From this memory on, the calls do to the queue what they do to the list, whatever `NewObject`
gives; then the queue is destructed. -/
def MatchesFifo (fuel : Nat) (q : κ) (maxCount : Int) :
    Memory κ α → List α → List (Op α) → Prop
  | m, l, [] => Reports m q l ∧ ∃ r, clear fuel m q = some r ∧ r.DeletesOnce m
  | m, l, op :: ops => Reports m q l ∧ ∀ k : Outside, k.address ∉ m.allocated →
    ∃ r, runOp k fuel m q op = some (r, (boundedFifo maxCount l op).1) ∧ r.DeletesOnce m ∧
      MatchesFifo fuel q maxCount r.memory (boundedFifo maxCount l op).2 ops

/-! ## What the nodes refer to -/

/-- The memory, and what is in the queues; a null pointer refers to no item. -/
structure Contained (κ ι : Type*) where
  memory : Memory κ (Option ι)
  content : κ → List (Option ι)

/-- A call that one thread makes, with what the outside decides in it. -/
inductive Call (κ α : Type*)
  | construct (q : κ) (maxCount : Int) (pDummyNode : Nat)
  | tryEnqueue (q : κ) (data : α) (k : Outside)
  | tryDequeue (q : κ) (outData : α) (k : Outside)

section Contained

variable {ι : Type*}

/-- What a call does, and the record of it. -/
def Contained.call (fuel : Nat) (s : Contained κ ι) : Call κ (Option ι) → Option (Contained κ ι)
  | .construct q maxCount pDummyNode => some ⟨s.memory.construct q maxCount pDummyNode, s.content⟩
  | .tryEnqueue q data k => (tryEnqueue k fuel s.memory q data).map fun r =>
    ⟨r.memory, if r.enqueued then Function.update s.content q (s.content q ++ [data])
      else s.content⟩
  | .tryDequeue q outData k => (tryDequeue k fuel s.memory q outData).map fun r =>
    ⟨r.memory, if r.dequeued.isSome then Function.update s.content q (s.content q).tail
      else s.content⟩

/-- One thread that calls `TryEnqueue` and `TryDequeue`. In the beginning every pointer is null. -/
abbrev containedMachine (κ ι : Type*) [DecidableEq κ] (fuel : Nat) :
    Machine (Contained κ ι) (Call κ (Option ι)) where
  init s := s.memory.Initial ∧ (∀ n, s.memory.data n = none) ∧ s.content = fun _ => []
  step := Contained.call fuel

omit [DecidableEq κ] in
/-- What the caller and `NewObject` see to. -/
def AloneGuard (s : Contained κ ι) : Call κ (Option ι) → Prop
  | .construct q _ pDummyNode =>
    (s.memory.queue q).mHead.pNode = none ∧ pDummyNode ∉ s.memory.allocated
  | .tryEnqueue q _ k =>
    (s.memory.queue q).mHead.pNode ≠ none ∧ k.address ∉ s.memory.allocated
  | .tryDequeue q _ _ => (s.memory.queue q).mHead.pNode ≠ none

instance (s : Contained κ ι) : ∀ c, Decidable (AloneGuard s c)
  | .construct _ _ _ | .tryEnqueue _ _ _ => inferInstanceAs (Decidable (_ ∧ _))
  | .tryDequeue _ _ _ => inferInstanceAs (Decidable (_ ≠ _))

omit [DecidableEq κ] in
/-- **The nodes refer to the items that the queues contain**, and to no other. -/
def Exact (s : Contained κ ι) : Prop :=
  ∀ i, (∃ n, s.memory.data n = some i) ↔ ∃ q, some i ∈ s.content q

/-- `TryDequeue` finds an item that the queues contain a second time, if any. -/
def SecondGuard (s : Contained κ ι) : Call κ (Option ι) → Prop
  | .tryDequeue q _ _ => ∀ i ∈ (s.content q).head?.join,
    some i ∈ (s.content q).tail ∨ ∃ q', q' ≠ q ∧ some i ∈ s.content q'
  | _ => True

instance [Fintype κ] [DecidableEq ι] (s : Contained κ ι) : ∀ c, Decidable (SecondGuard s c)
  | .tryDequeue _ _ _ => Option.decidableForallMem _
  | .construct _ _ _ | .tryEnqueue _ _ _ => inferInstanceAs (Decidable True)

end Contained

end CppNetEngine.LockFreeQueue
