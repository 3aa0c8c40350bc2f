import CppNetEngine.Queue.Proof.Fifo
import Mathlib.Data.List.ReduceOption

/-!
# What a queue contains

The lock-free queues with a record of what is in them, which no call reads: an element is the thread
whose `TryEnqueue` has linked it, or `none` once this call has returned. `sawEmpty` says of a thread
and a queue whether, at some moment since the thread's last call started, no element of the queue
was completely enqueued.
-/

namespace CppNetEngine.LockFreeQueue

/-- The memory, and what has happened to the queues. -/
structure Recorded (τ κ α : Type*) where
  memory : Memory κ α
  content : κ → List (Option τ)
  sawEmpty : τ → κ → Bool

variable {τ κ α : Type*} [DecidableEq τ] [DecidableEq κ]

/-- What the step of a thread does to the elements of the queues. -/
def record (t : τ) (content : κ → List (Option τ)) : Event κ α → κ → List (Option τ)
  | .linked q _ => Function.update content q (content q ++ [some t])
  | .enqueued q _ =>
    Function.update content q ((content q).map fun e => if e = some t then none else e)
  | .taken q _ => Function.update content q (content q).tail
  | .dequeued _ _ => content

/-- A call starts. -/
def Action.starts : Action κ α → Bool
  | .enqueue _ _ | .dequeue _ _ => true
  | .construct _ _ _ | .next _ => false

/-- What is seen of what a thread does. -/
def seenOf (a : Action κ α) (m : Memory κ α) (pc : Pc κ α) : List (Event κ α) :=
  match a with
  | .next _ => seen m pc
  | _ => []

/-- What a thread can do, and the record of it. -/
def recordedAct (t : τ) (a : Action κ α) (r : Recorded τ κ α) (pc : Pc κ α) :
    Option (Recorded τ κ α × Pc κ α) :=
  (act a r.memory pc).map fun (m, pc') =>
    let content := (seenOf a r.memory pc).foldl (record t) r.content
    let before (u : τ) (q : κ) := r.sawEmpty u q && !(a.starts && u = t)
    (⟨m, content, fun u q => before u q || !(content q).contains none⟩, pc')

abbrev RecordedState (τ κ α : Type*) := Threads τ (Pc κ α) (Recorded τ κ α)

/-- The state without the record. -/
def RecordedState.plain (s : RecordedState τ κ α) : State τ κ α := ⟨s.shared.memory, s.locals⟩

/-- Threads that call `TryEnqueue` and `TryDequeue`. -/
abbrev recordedMachine (τ κ α : Type*) [DecidableEq τ] [DecidableEq κ] :
    Machine (RecordedState τ κ α) (ThreadAction τ (Action κ α) Empty) :=
  Threads.machine recordedAct (fun e _ => e.elim) fun s =>
    s.shared.memory.Initial ∧ s.shared.content = (fun _ => []) ∧ ∀ t, s.locals t = .idle

/-- The queue whose count `TryDequeue` is about to subtract from. -/
def Pc.subtracts : Pc κ α → Option κ
  | .dequeue q _ _ _ .fetchSub => some q
  | _ => none

/-- The queue for which `TryDequeue` is about to return `false`. -/
def Pc.refuses : Pc κ α → Option κ
  | .dequeue q _ _ _ .fetchAdd => some q
  | _ => none

/-- If the call returns `false` in this step, the queue contained no completely enqueued element at
some moment since it started. -/
def Honest (s : RecordedState τ κ α) (t : τ) : Action κ α → Prop
  | .next _ => ∀ q ∈ (s.locals t).refuses, s.shared.sawEmpty t q = true
  | _ => True

/-- No call in progress makes the count too small but those that make it negative: no `TryDequeue`
has counted down and not yet taken a node, the count is what those that are about to count up again
have subtracted, and no `TryEnqueue` that has not yet counted has lost its element to a
`TryDequeue`. -/
structure Settled (s : RecordedState τ κ α) (q : κ) : Prop where
  claims : ∀ u, (s.locals u).claims q = 0
  fails : ∃ n : Nat, Threads.Total s.plain (Pc.fails q) n ∧
    (s.shared.memory.queue q).mCount + n = 0
  pending : ∀ u, (s.locals u).pending q = 1 → some u ∈ s.shared.content q

instance lawfulBEqOption : LawfulBEq (Option τ) := inferInstance

instance [Fintype τ] (s : RecordedState τ κ α) (q : κ) : Decidable (Settled s q) :=
  decidable_of_iff ((∀ u, (s.locals u).claims q = 0) ∧
      (s.shared.memory.queue q).mCount + ∑ u, (s.locals u).fails q = 0 ∧
      ∀ u, (s.locals u).pending q = 1 → some u ∈ s.shared.content q)
    ⟨fun ⟨hclaims, hfails, hpending⟩ =>
      ⟨hclaims, ⟨_, .univ, by exact_mod_cast hfails⟩, hpending⟩,
    fun ⟨hclaims, ⟨_, hn, hfails⟩, hpending⟩ =>
      ⟨hclaims, by rw [hn.unique .univ] at hfails; exact_mod_cast hfails, hpending⟩⟩

/-- Where `TryDequeue` finds a count that is not positive, the count is settled. -/
def SettledGuard (s : RecordedState τ κ α) (t : τ) : Action κ α → Prop
  | .next _ => ∀ q ∈ (s.locals t).subtracts, (s.shared.memory.queue q).mCount ≤ 0 → Settled s q
  | _ => True

instance [Fintype τ] (s : RecordedState τ κ α) (t : τ) : ∀ a, Decidable (SettledGuard s t a)
  | .next _ => Option.decidableForallMem _
  | .construct _ _ _ | .enqueue _ _ | .dequeue _ _ => inferInstanceAs (Decidable True)

/-- Where `TryDequeue` finds a count that is not positive, no element of the queue is completely
enqueued. -/
def EmptyGuard (s : RecordedState τ κ α) (t : τ) : Action κ α → Prop
  | .next _ => ∀ q ∈ (s.locals t).subtracts, (s.shared.memory.queue q).mCount ≤ 0 →
    none ∉ s.shared.content q
  | _ => True

end CppNetEngine.LockFreeQueue
