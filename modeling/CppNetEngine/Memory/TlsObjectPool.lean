import CppNetEngine.Memory.Allocator

/-!
# The object pool with a chunk for each thread

`TlsObjectPool::Alloc` and `Free`, which are `NewObject` and `DeleteObject`, called by any number of
threads. Its `Chunk`s and their `ObjectPool` are those of a `MemoryPool`, with objects in place of
bytes, and have the same code: what a thread does with them is what the `MemoryAllocator` does for
one size. What is new is `mAllocCount`, which `Alloc` counts up first and `Free` counts down last.
Where chunks lie is of no matter here: chunk `n` of an `ObjectPool` lies at `chunkAt n`. What is
constructed in an object is left out.
-/

namespace CppNetEngine.TlsObjectPool

open MemoryAllocator (Block bucketOf)

/-- The size for which the `MemoryAllocator` has the chunks. -/
def objectSize : Nat := 1

/-- Where chunk `n` lies. -/
def chunkAt (n : Nat) : Nat := n * (bucketOf objectSize).nodeSize

/-- The memory that the threads share. -/
structure Memory where
  mAllocCount : Int
  chunks : MemoryAllocator.Memory

/-- The objects that the callers of `Alloc` have. -/
def Memory.objects (m : Memory) : List Block := m.chunks.live.map Prod.fst

/-- What a thread counts next. -/
inductive Counting
  | none
  /-- `Alloc`: `mAllocCount.fetch_add`. -/
  | fetchAdd
  /-- `Free`: `mAllocCount.fetch_sub`. -/
  | fetchSub

structure Local where
  /-- `spTlsChunk`, and where the thread is in the rest of `Alloc` or `Free`. -/
  chunk : MemoryAllocator.Local
  counting : Counting

/-- What the outside decides in a step. -/
structure Outside where
  /-- A `compare_exchange_weak` fails without a reason. -/
  spurious : Bool
  /-- The chunk for which `mi_malloc` gives memory. -/
  chunk : Nat

inductive Action
  | alloc
  | free (pData : Block)
  | next (k : Outside)

/-- At the end of `Free` the thread counts. -/
def countingAfter : MemoryAllocator.Pc → MemoryAllocator.Pc → Counting
  | .ret _ _, _ => .none
  | _, .idle => .fetchSub
  | _, _ => .none

/-- The next step of a thread. -/
def step (k : Outside) (m : Memory) (l : Local) : Option (Memory × Local) :=
  match l.counting with
  | .fetchAdd => some ({ m with mAllocCount := m.mAllocCount + 1 }, { l with counting := .none })
  | .fetchSub => some ({ m with mAllocCount := m.mAllocCount - 1 }, { l with counting := .none })
  | .none =>
    (MemoryAllocator.step ⟨k.spurious, chunkAt k.chunk⟩ m.chunks l.chunk).map fun r =>
      ({ m with chunks := r.1 }, ⟨r.2, countingAfter l.chunk.pc r.2.pc⟩)

/-- A thread calls `Alloc` or `Free`. -/
def enter (a : MemoryAllocator.Action) (counting : Counting) (m : Memory) (l : Local) :
    Option (Memory × Local) :=
  match l.counting with
  | .none => (MemoryAllocator.act a m.chunks l.chunk).map fun r =>
    ({ m with chunks := r.1 }, ⟨r.2, counting⟩)
  | _ => none

/-- What a thread can do. -/
def act : Action → Memory → Local → Option (Memory × Local)
  | .next k => step k
  | .alloc => enter (.alloc objectSize) .fetchAdd
  | .free pData => enter (.free pData objectSize) .none

/-- A pool without chunks. -/
def initial : Memory := ⟨0, MemoryAllocator.initial⟩

/-- A thread that has not allocated anything. -/
def Local.new : Local := ⟨.new, .none⟩

/-- The thread is in no call. -/
def Local.isIdle (l : Local) : Bool :=
  match l.counting, l.chunk.pc with
  | .none, .idle => true
  | _, _ => false

/-- The next step of the thread is `mi_malloc`. -/
def Local.allocates (l : Local) : Bool :=
  match l.counting, l.chunk.pc with
  | .none, .poolAlloc .allocNode _ _ => true
  | _, _ => false

/-- With its next step the thread returns from `Alloc`. -/
def Local.returns (l : Local) : Option (Option Block) :=
  match l.counting, l.chunk.pc with
  | .none, .ret _ pData => some pData
  | _, _ => none

abbrev State (τ : Type) := Threads τ Local Memory

/-- Threads that allocate and free objects. -/
abbrev machine (τ : Type) [DecidableEq τ] : Machine (State τ) (ThreadAction τ Action Empty) :=
  Threads.machine (fun _ => act) (fun e _ => e.elim)
    fun s => s.shared = initial ∧ ∀ t, s.locals t = Local.new

/-- What the callers and `mi_malloc` see to: objects are freed once, and memory that is in use is
not given again. -/
def CallsGuard {τ : Type} (s : State τ) (t : τ) : Action → Prop
  | .alloc => True
  | .free pData => pData ∈ s.shared.objects
  | .next k => (s.locals t).allocates = true → s.shared.chunks.chunks (chunkAt k.chunk) = none

instance {τ : Type} (s : State τ) (t : τ) : ∀ a, Decidable (CallsGuard s t a)
  | .alloc => inferInstanceAs (Decidable True)
  | .free _ => inferInstanceAs (Decidable (_ ∈ _))
  | .next _ => inferInstanceAs (Decidable (_ → _ = _))

/-- The states of the runs that meet the condition. -/
abbrev RunsTo {τ : Type} [DecidableEq τ] : State τ → Prop :=
  (machine τ).ReachableIf (Threads.Guard CallsGuard fun _ _ => True)

end CppNetEngine.TlsObjectPool
