import CppNetEngine.Lib.Parts
import CppNetEngine.Memory.TlsObjectPool
import Mathlib.Data.Nat.Pairing

/-!
# Components that use the object pool

A component that calls `NewObject` and `DeleteObject`, each in one step, and the `TlsObjectPool` of
its nodes. Together, a thread that calls `NewObject` takes the steps of `Alloc`, and goes on with
the node when `Alloc` returns; one that calls `DeleteObject` gives the node up and takes the steps
of `Free`. In these calls it does nothing else. `Pooled.Guard` says nothing of the nodes that
`NewObject` gives.
-/

namespace CppNetEngine.TlsObjectPool

open MemoryAllocator (Block)

/-- The node that is known by a number. -/
def objectAt (pNode : Nat) : Block := ⟨pNode.unpair.1, pNode.unpair.2⟩

/-- The number by which a node is known. -/
def addressOf (object : Block) : Nat := Nat.pair object.pChunk object.index

/-- A component that calls `NewObject` and `DeleteObject`. -/
structure Client (M L A : Type) where
  act : A → M → L → Option (M × L)
  initial : M → Prop
  idle : L
  /-- The action is the call of `NewObject` that gives this node. -/
  newObject : A → L → Option Nat
  /-- The action with another node. -/
  withNode : A → Nat → A
  /-- The action is the call of `DeleteObject` with this node. -/
  deleteObject : A → L → Option Nat
  /-- The nodes that `NewObject` has given and `DeleteObject` has not taken back. -/
  allocated : M → Finset Nat

namespace Client

variable {τ M L A : Type} [DecidableEq τ] (c : Client M L A)

/-- The component alone. -/
abbrev machine (τ : Type) [DecidableEq τ] :
    Machine (Threads τ L M) (ThreadAction τ A Empty) :=
  Threads.machine (fun _ => c.act) (fun e _ => e.elim)
    fun s => c.initial s.shared ∧ ∀ t, s.locals t = c.idle

/-- A condition on what the callers do, and that `NewObject` does not give a node that is in use. -/
def Guard (ok : Threads τ L M → τ → A → Prop) (s : Threads τ L M) (t : τ) (a : A) : Prop :=
  ok s t a ∧ ∀ pNode ∈ c.newObject a (s.locals t), pNode ∉ c.allocated s.shared

end Client

namespace Pooled

/-- The memory of the component, and that of the pool. -/
structure Shared (M : Type) where
  client : M
  pool : Memory

structure Local (L A : Type) where
  client : L
  pool : TlsObjectPool.Local
  /-- The call of `NewObject` that has not returned. -/
  newObject : Option A

inductive Action (A : Type)
  | client (a : A)
  /-- The next step of `Alloc` or `Free`. -/
  | pool (k : Outside)

variable {τ M L A ω : Type} (c : Client M L A)

/-- The action of the component in a step. -/
def performs (l : Local L A) : Action A → Option A
  | .client a =>
    match c.newObject a l.client with
    | some _ => none
    | none => some a
  | .pool _ =>
    match l.pool.returns, l.newObject with
    | some (some object), some a => some (c.withNode a (addressOf object))
    | _, _ => none

/-- The action in the pool in a step. -/
def calls (l : Local L A) : Action A → Option TlsObjectPool.Action
  | .client a =>
    match c.newObject a l.client with
    | some _ => some .alloc
    | none => (c.deleteObject a l.client).map fun pNode => .free (objectAt pNode)
  | .pool k => some (.next k)

/-- The call of `NewObject` that the thread is in after a step. -/
def waits (l : Local L A) : Action A → Option A
  | .client a =>
    match c.newObject a l.client with
    | some _ => some a
    | none => none
  | .pool _ =>
    match l.pool.returns with
    | some _ => none
    | none => l.newObject

/-- An action, or none. -/
def perform {M L A : Type} (act : A → M → L → Option (M × L)) :
    Option A → M → L → Option (M × L)
  | some a, m, l => act a m l
  | none, m, l => some (m, l)

/-- The thread is in no call of the pool, where the component has the next step. -/
def Local.ready (l : Local L A) : Action A → Bool
  | .client _ => l.pool.isIdle && l.newObject.isNone
  | .pool _ => true

/-- What a thread can do. -/
def act (a : Action A) (m : Shared M) (l : Local L A) : Option (Shared M × Local L A) :=
  if l.ready a then
    (perform c.act (performs c l a) m.client l.client).bind fun r =>
      (perform TlsObjectPool.act (calls c l a) m.pool l.pool).map fun q =>
        (⟨r.1, q.1⟩, ⟨r.2, q.2, waits c l a⟩)
  else none

abbrev State (τ M L A : Type) := Threads τ (Local L A) (Shared M)

/-- The component as it sees itself. -/
abbrev State.client (s : State τ M L A) : Threads τ L M := s.part Shared.client Local.client

/-- The pool as it sees itself. -/
abbrev State.pool (s : State τ M L A) : TlsObjectPool.State τ := s.part Shared.pool Local.pool

/-- The component and its pool. -/
abbrev machine (τ : Type) [DecidableEq τ] :
    Machine (State τ M L A) (ThreadAction τ (Action A) Empty) :=
  Threads.machine (fun _ => act c) (fun e _ => e.elim) fun s =>
    (c.initial s.shared.client ∧ s.shared.pool = initial) ∧
      ∀ t, s.locals t = ⟨c.idle, .new, none⟩

/-- What the callers see to, and `mi_malloc`. -/
def Guard (ok : Threads τ L M → τ → A → Prop) (s : State τ M L A) (t : τ) (a : Action A) : Prop :=
  (∀ b ∈ performs c (s.locals t) a, ok s.client t b) ∧
    match a with
    | .client _ => True
    | .pool k => CallsGuard s.pool t (.next k)

instance (ok : Threads τ L M → τ → A → Prop) [∀ s t a, Decidable (ok s t a)]
    (s : State τ M L A) (t : τ) : ∀ a, Decidable (Guard c ok s t a)
  | .client _ => inferInstanceAs (Decidable (_ ∧ True))
  | .pool k => inferInstanceAs (Decidable (_ ∧ CallsGuard s.pool t (.next k)))

/-- What is seen of a step is what is seen of the component. A call that ends with `DeleteObject` is
seen to return when it calls it, which is before it does. -/
def see (seen : Threads τ L M → ThreadAction τ A Empty → List ω) (s : State τ M L A) :
    ThreadAction τ (Action A) Empty → List ω
  | .thread t a =>
    match performs c (s.locals t) a with
    | some b => seen s.client (.thread t b)
    | none => []
  | .env e => e.elim

/-- No thread is in a call. -/
def AtRest (s : State τ M L A) : Prop :=
  ∀ t, (s.locals t).client = c.idle ∧ (s.locals t).pool.isIdle = true

end Pooled

end CppNetEngine.TlsObjectPool
