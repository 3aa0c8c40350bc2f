import CppNetEngine.Lib.Threads
import CppNetEngine.Memory.Buckets
import CppNetEngine.Stack.TopNode

/-!
# The memory allocator

`MemoryAllocator::Alloc` and `Free` down to the atomic steps of `MemoryPool`, its `Chunk`s and the
lock-free `ObjectPool` of each bucket, called by any number of threads. The two loops of the pools
are those of `TopNode`. A chunk and its node in the pool have one address, by which they are known;
a thread has a current chunk for each bucket (`spTlsChunk`). `mi_malloc` gives any address at which
nothing else lies. Checksums are left out: nobody writes to them after the constructor.
-/

namespace CppNetEngine.MemoryAllocator

open TopNode

/-- What `GetData` hands out: `&mChunkDataArray[index]` of a chunk, which has the pointer back. -/
@[ext] structure Block where
  pChunk : Nat
  index : Nat
  deriving DecidableEq

/-- `ObjectPool<Chunk>`. -/
structure ObjectPool where
  mTopNode16 : Node16 Nat
  mPoolingCount : Int
  deriving DecidableEq

/-- The memory that the threads share. -/
structure Memory where
  /-- The chunks that `mi_malloc` has given, each to the pool of a bucket. -/
  chunks : Nat → Option Bucket
  pool : Bucket → ObjectPool
  mAllocCount : Nat → Nat
  mFreeCount : Nat → Nat
  pNextNode : Nat → Option Nat
  /-- The blocks that the callers of `Alloc` have, with the size they asked for. -/
  live : List (Block × Nat)

/-! ## Threads -/

/-- Where a thread is in `ObjectPool::Alloc`. -/
inductive AllocStep
  | fetchSub
  | fetchAdd
  | allocNode
  | pop (step : PopStep Nat)

/-- Where a thread is in `Alloc` or `Free` of a size. -/
inductive Pc
  | idle
  /-- `spTlsChunk == nullptr`. -/
  | alloc (size : Nat)
  | getData (size : Nat)
  /-- `mObjectPool.Alloc()`, before `GetData` or to replace the chunk it has exhausted. -/
  | poolAlloc (step : AllocStep) (size : Nat) (pData : Option Block)
  | ret (size : Nat) (pData : Option Block)
  | freeWithIsAllFreed (size : Nat) (pData : Block)
  | resetAllocCount (size : Nat) (pChunk : Nat)
  | resetFreeCount (size : Nat) (pChunk : Nat)
  /-- `mObjectPool.Free(pChunk)`. -/
  | poolFree (step : PushStep) (size : Nat) (pChunk : Nat)
  | poolCount (size : Nat)

structure Local where
  spTlsChunk : Bucket → Option Nat
  pc : Pc

/-- What the outside decides in a step. -/
structure Outside where
  /-- A `compare_exchange_weak` fails without a reason. -/
  spurious : Bool
  /-- What `mi_malloc` returns. -/
  address : Nat

inductive Action
  | alloc (size : Nat)
  | free (pData : Block) (size : Nat)
  | next (k : Outside)

/-! ## Steps -/

/-- `fetch_add` on `mPoolingCount`. -/
def Memory.addPooling (m : Memory) (b : Bucket) (n : Int) : Memory :=
  let p := m.pool b
  { m with pool := Function.update m.pool b { p with mPoolingCount := p.mPoolingCount + n } }

/-- The top of the pool of a bucket, and the nodes of all pools. -/
def Memory.links (m : Memory) (b : Bucket) : Links Nat := ⟨(m.pool b).mTopNode16, m.pNextNode⟩

def Memory.setLinks (m : Memory) (b : Bucket) (links : Links Nat) : Memory :=
  { m with
    pool := Function.update m.pool b { m.pool b with mTopNode16 := links.top }
    pNextNode := links.pNextNode }

/-- The node at the address is not in the way of any other. -/
def Memory.Fits (m : Memory) (b : Bucket) (address : Nat) : Prop :=
  ∀ pChunk b', m.chunks pChunk = some b' → (nodeSpan b address).Disjoint (nodeSpan b' pChunk)

/-- A chunk is constructed at an address. -/
def Memory.construct (m : Memory) (b : Bucket) (address : Nat) : Memory :=
  { m with
    chunks := Function.update m.chunks address (some b)
    mAllocCount := Function.update m.mAllocCount address 0
    mFreeCount := Function.update m.mFreeCount address 0
    pNextNode := Function.update m.pNextNode address none }

def Local.goto (l : Local) (pc : Pc) : Local := { l with pc := pc }

/-- `mObjectPool.Alloc()` has returned the chunk; then comes `GetData`, or `Alloc` returns. -/
def Local.install (l : Local) (size : Nat) (pData : Option Block) (pChunk : Nat) : Local :=
  { spTlsChunk := Function.update l.spTlsChunk (bucketOf size) (some pChunk)
    pc := if pData.isNone then .getData size else .ret size pData }

/-- `ObjectPool::Alloc`. -/
def poolAllocStep (k : Outside) (m : Memory) (l : Local) (size : Nat) (pData : Option Block) :
    AllocStep → Option (Memory × Local)
  | .fetchSub =>
    let n := (m.pool (bucketOf size)).mPoolingCount
    some (m.addPooling (bucketOf size) (-1),
      l.goto (.poolAlloc (if n ≤ 0 then .fetchAdd else .pop .readCount) size pData))
  | .fetchAdd =>
    some (m.addPooling (bucketOf size) 1, l.goto (.poolAlloc .allocNode size pData))
  | .allocNode =>
    some (m.construct (bucketOf size) k.address, l.install size pData k.address)
  | .pop step =>
    (popStep k.spurious (m.links (bucketOf size)) step).map fun r =>
      (m.setLinks (bucketOf size) r.1,
        r.2.elim (fun step => l.goto (.poolAlloc (.pop step) size pData)) (l.install size pData))

/-- The loop of `ObjectPool::Free`. -/
def poolFreeStep (k : Outside) (m : Memory) (l : Local) (size pChunk : Nat) (step : PushStep) :
    Memory × Local :=
  let r := pushStep k.spurious (m.links (bucketOf size)) pChunk step
  (m.setLinks (bucketOf size) r.1,
    l.goto (r.2.elim (.poolCount size) fun step => .poolFree step size pChunk))

/-- `Chunk::GetData`, and `IsDataEmpty` after it. -/
def getDataStep (m : Memory) (l : Local) (size pChunk : Nat) : Memory × Local :=
  let n := m.mAllocCount pChunk
  if chunkSize ≤ n then (m, l.goto (.ret size none))
  else
    ({ m with mAllocCount := Function.update m.mAllocCount pChunk (n + 1) },
      l.goto (if n + 1 = chunkSize then .poolAlloc .fetchSub size (some ⟨pChunk, n⟩)
        else .ret size (some ⟨pChunk, n⟩)))

/-- The next step of a thread. -/
def step (k : Outside) (m : Memory) (l : Local) : Option (Memory × Local) :=
  match l.pc with
  | .idle => none
  | .alloc size =>
    some (m, l.goto (if l.spTlsChunk (bucketOf size) = none then .poolAlloc .fetchSub size none
      else .getData size))
  | .getData size => (l.spTlsChunk (bucketOf size)).map (getDataStep m l size)
  | .poolAlloc step size pData => poolAllocStep k m l size pData step
  | .ret size pData =>
    some ({ m with live := pData.toList.map (·, size) ++ m.live }, l.goto .idle)
  | .freeWithIsAllFreed size pData =>
    let n := m.mFreeCount pData.pChunk
    some ({ m with mFreeCount := Function.update m.mFreeCount pData.pChunk (n + 1) },
      l.goto (if n = chunkSize - 1 then .resetAllocCount size pData.pChunk else .idle))
  | .resetAllocCount size pChunk =>
    some ({ m with mAllocCount := Function.update m.mAllocCount pChunk 0 },
      l.goto (.resetFreeCount size pChunk))
  | .resetFreeCount size pChunk =>
    some ({ m with mFreeCount := Function.update m.mFreeCount pChunk 0 },
      l.goto (.poolFree .readNode size pChunk))
  | .poolFree step size pChunk => some (poolFreeStep k m l size pChunk step)
  | .poolCount size => some (m.addPooling (bucketOf size) 1, l.goto .idle)

/-- What a thread can do. -/
def act : Action → Memory → Local → Option (Memory × Local)
  | .next k, m, l => step k m l
  | .alloc size, m, l =>
    match l.pc with
    | .idle => some (m, l.goto (.alloc size))
    | _ => none
  | .free pData size, m, l =>
    match l.pc with
    | .idle =>
      some ({ m with live := m.live.erase (pData, size) },
        l.goto (.freeWithIsAllFreed size pData))
    | _ => none

/-- A memory without chunks. -/
def initial : Memory :=
  { chunks := fun _ => none
    pool := fun _ => ⟨⟨none, 0⟩, 0⟩
    mAllocCount := fun _ => 0
    mFreeCount := fun _ => 0
    pNextNode := fun _ => none
    live := [] }

/-- A thread that has not allocated anything. -/
def Local.new : Local := ⟨fun _ => none, .idle⟩

abbrev State (τ : Type) := Threads τ Local Memory

/-- Threads that allocate and free blocks. -/
abbrev machine (τ : Type) [DecidableEq τ] : Machine (State τ) (ThreadAction τ Action Empty) :=
  Threads.machine (fun _ => act) (fun e _ => e.elim)
    fun s => s.shared = initial ∧ ∀ t, s.locals t = Local.new

/-- What the callers and `mi_malloc` see to: sizes that have a bucket, blocks that are freed once
and with their size, and memory that is free. -/
def CallsGuard {τ : Type} (s : State τ) (t : τ) : Action → Prop
  | .alloc size => 1 ≤ size ∧ size ≤ maxSize
  | .free pData size => (pData, size) ∈ s.shared.live
  | .next k => ∀ size pData, (s.locals t).pc = .poolAlloc .allocNode size pData →
    s.shared.Fits (bucketOf size) k.address

/-- The states of the runs that meet the condition. -/
abbrev RunsTo {τ : Type} [DecidableEq τ] : State τ → Prop :=
  (machine τ).ReachableIf (Threads.Guard CallsGuard fun _ _ => True)

end CppNetEngine.MemoryAllocator
