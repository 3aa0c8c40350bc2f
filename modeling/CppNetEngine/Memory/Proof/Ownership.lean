import CppNetEngine.Lib.Totals
import CppNetEngine.Memory.Allocator
import CppNetEngine.Stack.Proof.TopNode

/-!
# Who has a chunk, and who has a block

The invariant of the memory allocator. Every chunk has one owner: the thread whose current chunk it
is, nobody while its blocks are out, the thread that recycles it, or the pool of its bucket; every
block that is out is with a thread in `Alloc` or `Free`, or with a caller. `ThreadOk` is what a
thread relies on, `MemoryOk` what holds of the memory, `CountOk` what `mPoolingCount` counts. A step
of a thread leaves to the other threads what is theirs (`Rely`), and so what they rely on
(`ThreadOk.stable`).
-/

namespace CppNetEngine.MemoryAllocator

open TopNode

variable {τ : Type}

/-- Who has a chunk. -/
inductive Owner (τ : Type)
  | current (t : τ)
  | handedOut
  | recycling (t : τ)
  | pooled

/-- What is known of the memory but not written in it. -/
structure Ghost (τ : Type) where
  owner : Nat → Owner τ
  /-- The chunks in the pool of a bucket, from the top. -/
  pooled : Bucket → List Nat
  /-- The blocks of a chunk that were handed out and are not yet counted as freed. -/
  out : Nat → Finset Nat
  /-- The thread that has a block that is out, if it is not with a caller. -/
  holder : Block → Option τ

namespace Ghost

variable (g : Ghost τ)

def give (c : Nat) (o : Owner τ) : Ghost τ := { g with owner := Function.update g.owner c o }

def setPooled (b : Bucket) (l : List Nat) : Ghost τ :=
  { g with pooled := Function.update g.pooled b l }

def setOut (c : Nat) (indices : Finset Nat) : Ghost τ :=
  { g with out := Function.update g.out c indices }

def setHolder (pData : Block) (t : Option τ) : Ghost τ :=
  { g with holder := Function.update g.holder pData t }

variable {c c' : Nat} {o : Owner τ} {b b' : Bucket} {l : List Nat} {indices : Finset Nat}
  {pData pData' : Block} {t : Option τ}

@[simp] theorem give_self : (g.give c o).owner c = o := Function.update_self _ _ _

theorem give_other (h : c' ≠ c) : (g.give c o).owner c' = g.owner c' :=
  Function.update_of_ne h _ _

theorem give_iff {o' : Owner τ} (hold : g.owner c ≠ o') (hnew : o ≠ o') :
    (g.give c o).owner c' = o' ↔ g.owner c' = o' := by
  by_cases hc : c' = c
  · subst hc
    rw [give_self]
    exact ⟨fun h => absurd h hnew, fun h => absurd h hold⟩
  · rw [g.give_other hc]

@[simp] theorem give_pooled : (g.give c o).pooled = g.pooled := rfl
@[simp] theorem give_out : (g.give c o).out = g.out := rfl

@[simp] theorem setPooled_self : (g.setPooled b l).pooled b = l := Function.update_self _ _ _

theorem setPooled_other (h : b' ≠ b) : (g.setPooled b l).pooled b' = g.pooled b' :=
  Function.update_of_ne h _ _

@[simp] theorem setPooled_owner : (g.setPooled b l).owner = g.owner := rfl
@[simp] theorem setPooled_out : (g.setPooled b l).out = g.out := rfl

@[simp] theorem setOut_self : (g.setOut c indices).out c = indices := Function.update_self _ _ _

theorem setOut_other (h : c' ≠ c) : (g.setOut c indices).out c' = g.out c' :=
  Function.update_of_ne h _ _

@[simp] theorem setOut_owner : (g.setOut c indices).owner = g.owner := rfl

@[simp] theorem setHolder_self : (g.setHolder pData t).holder pData = t :=
  Function.update_self _ _ _

theorem setHolder_other (h : pData' ≠ pData) :
    (g.setHolder pData t).holder pData' = g.holder pData' := Function.update_of_ne h _ _

@[simp] theorem setHolder_out : (g.setHolder pData t).out = g.out := rfl

end Ghost

/-! ## What holds of the memory -/

/-- The counters of a chunk. -/
def ChunkOk (m : Memory) (g : Ghost τ) (b : Bucket) (c : Nat) : Owner τ → Prop
  | .current _ => m.mAllocCount c < chunkSize ∧ (g.out c).card + m.mFreeCount c = m.mAllocCount c
  | .handedOut => m.mAllocCount c = chunkSize ∧ (g.out c).card + m.mFreeCount c = chunkSize ∧
      m.mFreeCount c < chunkSize
  | .recycling _ => g.out c = ∅
  | .pooled => c ∈ g.pooled b ∧ m.mAllocCount c = 0 ∧ m.mFreeCount c = 0 ∧ g.out c = ∅

/-- It only depends on the counters, the blocks that are out, and whether the pool has the chunk. -/
theorem ChunkOk.congr {m m' : Memory} {g g' : Ghost τ} {b : Bucket} {c : Nat} {o : Owner τ}
    (h : ChunkOk m g b c o) (halloc : m'.mAllocCount c = m.mAllocCount c)
    (hfree : m'.mFreeCount c = m.mFreeCount c) (hout : g'.out c = g.out c)
    (hpooled : o = .pooled → c ∈ g.pooled b → c ∈ g'.pooled b) : ChunkOk m' g' b c o := by
  cases o with
  | current t =>
    obtain ⟨hlt, hsum⟩ := h
    exact ⟨halloc ▸ hlt, by rw [hout, hfree, halloc, hsum]⟩
  | handedOut =>
    obtain ⟨hall, hsum, hlt⟩ := h
    exact ⟨halloc.trans hall, by rw [hout, hfree, hsum], hfree ▸ hlt⟩
  | recycling t => exact hout.trans h
  | pooled =>
    obtain ⟨hmem, halloc0, hfree0, hout0⟩ := h
    exact ⟨hpooled rfl hmem, halloc.trans halloc0, hfree.trans hfree0, hout.trans hout0⟩

/-- How many chunks were taken from the pool of the bucket. -/
def Memory.pops (m : Memory) (b : Bucket) : Nat := (m.links b).top.count

structure MemoryOk (m : Memory) (g : Ghost τ) : Prop where
  chunk : ∀ c b, m.chunks c = some b → ChunkOk m g b c (g.owner c)
  index : ∀ c b, m.chunks c = some b → ∀ i ∈ g.out c, i < m.mAllocCount c
  live : ∀ pData size, (pData, size) ∈ m.live → m.chunks pData.pChunk = some (bucketOf size) ∧
    pData.index ∈ g.out pData.pChunk ∧ g.holder pData = none
  nodup : (m.live.map Prod.fst).Nodup
  links : ∀ b, LinksOk (m.links b) (m.pops b) (g.pooled b)
  pooled : ∀ b, ∀ c ∈ g.pooled b, m.chunks c = some b ∧ g.owner c = .pooled
  apart : ∀ c c' b b', m.chunks c = some b → m.chunks c' = some b' → c ≠ c' →
    (nodeSpan b c).Disjoint (nodeSpan b' c')

/-! ## What a thread relies on -/

/-- A block is in the hands of the thread. -/
def Holds (m : Memory) (g : Ghost τ) (t : τ) (size : Nat) (pData : Block) : Prop :=
  m.chunks pData.pChunk = some (bucketOf size) ∧ pData.index ∈ g.out pData.pChunk ∧
    g.holder pData = some t

/-- What the thread has seen of the pool is so, if nothing was taken from it since. -/
def AllocOk (m : Memory) (g : Ghost τ) (b : Bucket) : AllocStep → Prop
  | .fetchSub | .fetchAdd | .allocNode => True
  | .pop step => PopOk (m.pops b) (g.pooled b) step

def PcOk (m : Memory) (g : Ghost τ) (t : τ) (l : Local) : Pc → Prop
  | .idle | .alloc _ | .poolCount _ => True
  | .getData size => ∃ c, l.spTlsChunk (bucketOf size) = some c ∧ g.owner c = .current t
  | .poolAlloc step size pData => AllocOk m g (bucketOf size) step ∧
    match pData with
    | none => l.spTlsChunk (bucketOf size) = none
    | some pData => Holds m g t size pData ∧
      l.spTlsChunk (bucketOf size) = some pData.pChunk ∧ g.owner pData.pChunk = .handedOut
  | .ret size pData => ∃ block, pData = some block ∧ Holds m g t size block
  | .freeWithIsAllFreed size pData => Holds m g t size pData
  | .resetAllocCount size c | .resetFreeCount size c =>
    m.chunks c = some (bucketOf size) ∧ g.owner c = .recycling t
  | .poolFree step size c =>
    m.chunks c = some (bucketOf size) ∧ g.owner c = .recycling t ∧ PushOk (m.links (bucketOf size)) c step

/-- The chunk that the thread is about to replace. -/
def Pc.Replaces (c : Nat) : Pc → Prop
  | .poolAlloc _ _ (some pData) => pData.pChunk = c
  | _ => False

/-- The thread is recycling the chunk. -/
def Pc.Recycles (c : Nat) : Pc → Prop
  | .resetAllocCount _ c' | .resetFreeCount _ c' | .poolFree _ _ c' => c' = c
  | _ => False

/-- How far the counters of the chunk are reset. -/
def Pc.Reset (m : Memory) (c : Nat) : Pc → Prop
  | .resetFreeCount _ _ => m.mAllocCount c = 0
  | .poolFree _ _ _ => m.mAllocCount c = 0 ∧ m.mFreeCount c = 0
  | _ => True

structure ThreadOk (m : Memory) (g : Ghost τ) (t : τ) (l : Local) : Prop where
  pc : PcOk m g t l l.pc
  tls : ∀ b c, l.spTlsChunk b = some c → m.chunks c = some b ∧
    (g.owner c = .current t ∨ l.pc.Replaces c)
  current : ∀ b c, m.chunks c = some b → g.owner c = .current t → l.spTlsChunk b = some c
  recycling : ∀ b c, m.chunks c = some b → g.owner c = .recycling t →
    l.pc.Recycles c ∧ l.pc.Reset m c

/-! ## What is counted -/

/-- The thread has a claim on a chunk of the pool, or has put one there and not counted it. -/
def Pc.claims (b : Bucket) : Pc → Nat
  | .poolAlloc step size _ =>
    match step with
    | .fetchSub | .fetchAdd | .allocNode => 0
    | .pop _ => if bucketOf size = b then 1 else 0
  | .poolCount size => if bucketOf size = b then 1 else 0
  | _ => 0

/-- The thread has found no chunk in the pool, and not yet given back its claim. -/
def Pc.fails (b : Bucket) : Pc → Nat
  | .poolAlloc .fetchAdd size _ => if bucketOf size = b then 1 else 0
  | _ => 0

/-- What `mPoolingCount` is. -/
def CountOk (s : State τ) (b : Bucket) (n : Nat) : Prop :=
  ∃ n₁ n₂, Threads.Total s (fun l => l.pc.claims b) n₁ ∧
    Threads.Total s (fun l => l.pc.fails b) n₂ ∧
    (n : Int) = (s.shared.pool b).mPoolingCount + n₁ + n₂ ∧
    0 ≤ (s.shared.pool b).mPoolingCount + n₂

/-- The invariant. -/
structure Inv (s : State τ) (g : Ghost τ) : Prop where
  memory : MemoryOk s.shared g
  thread : ∀ t, ThreadOk s.shared g t (s.locals t)
  count : ∀ b, CountOk s b (g.pooled b).length

/-! ## Steps of other threads -/

/-- **What a step leaves to a thread** that does not take it. -/
structure Rely (u : τ) (m : Memory) (g : Ghost τ) (m' : Memory) (g' : Ghost τ) : Prop where
  chunks : ∀ c b, m.chunks c = some b → m'.chunks c = some b
  fresh : ∀ c b, m'.chunks c = some b → m.chunks c = some b ∨
    (g'.owner c ≠ .current u ∧ g'.owner c ≠ .recycling u)
  current : ∀ c b, m.chunks c = some b → (g'.owner c = .current u ↔ g.owner c = .current u)
  recycling : ∀ c b, m.chunks c = some b → (g'.owner c = .recycling u ↔ g.owner c = .recycling u)
  recycled : ∀ c b, m.chunks c = some b → g.owner c = .recycling u →
    m'.mAllocCount c = m.mAllocCount c ∧ m'.mFreeCount c = m.mFreeCount c ∧
      m'.pNextNode c = m.pNextNode c
  held : ∀ size pData, Holds m g u size pData → pData.index ∈ g'.out pData.pChunk ∧
    g'.holder pData = some u ∧
    (g.owner pData.pChunk = .handedOut → g'.owner pData.pChunk = .handedOut)
  pool : ∀ b, TaggedStack.Step (m.pops b) (g.pooled b) (m'.pops b) (g'.pooled b)

namespace Rely

variable {t u : τ} {m m' : Memory} {g g' : Ghost τ}

theorem refl : Rely u m g m g where
  chunks _ _ h := h
  fresh _ _ h := .inl h
  current _ _ _ := Iff.rfl
  recycling _ _ _ := Iff.rfl
  recycled _ _ _ _ := ⟨rfl, rfl, rfl⟩
  held _ _ h := ⟨h.2.1, h.2.2, id⟩
  pool _ := .refl

theorem holds (h : Rely u m g m' g') {size : Nat} {pData : Block} (hh : Holds m g u size pData) :
    Holds m' g' u size pData := by
  obtain ⟨hout, hholder, -⟩ := h.held size pData hh
  exact ⟨h.chunks _ _ hh.1, hout, hholder⟩

theorem allocOk (h : Rely u m g m' g') {b : Bucket} {step : AllocStep} (hok : AllocOk m g b step) :
    AllocOk m' g' b step := by
  cases step with
  | fetchSub | fetchAdd | allocNode => trivial
  | pop step => exact PopOk.stable hok (h.pool b)

theorem pcOk (h : Rely u m g m' g') {l : Local}
    (htls : ∀ b c, l.spTlsChunk b = some c → m.chunks c = some b) {pc : Pc}
    (hpc : PcOk m g u l pc) : PcOk m' g' u l pc := by
  cases pc with
  | idle | alloc | poolCount => trivial
  | getData size =>
    obtain ⟨c, hc, ho⟩ := hpc
    exact ⟨c, hc, (h.current _ _ (htls _ _ hc)).2 ho⟩
  | poolAlloc step size pData =>
    obtain ⟨hpop, hdata⟩ := hpc
    refine ⟨h.allocOk hpop, ?_⟩
    cases pData with
    | none => exact hdata
    | some pData =>
      obtain ⟨hh, hc, ho⟩ := hdata
      exact ⟨h.holds hh, hc, (h.held _ _ hh).2.2 ho⟩
  | ret size pData =>
    obtain ⟨block, hb, hh⟩ := hpc
    exact ⟨block, hb, h.holds hh⟩
  | freeWithIsAllFreed size pData => exact h.holds hpc
  | resetAllocCount size c | resetFreeCount size c =>
    exact ⟨h.chunks _ _ hpc.1, (h.recycling _ _ hpc.1).2 hpc.2⟩
  | poolFree step size c =>
    obtain ⟨hc, ho, hpush⟩ := hpc
    refine ⟨h.chunks _ _ hc, (h.recycling _ _ hc).2 ho, ?_⟩
    cases step with
    | readNode | setNext => trivial
    | swap pExpected => exact (h.recycled _ _ hc ho).2.2.trans hpush

end Rely

/-- **What a thread relies on stays so.** -/
theorem ThreadOk.stable {u : τ} {m m' : Memory} {g g' : Ghost τ} {l : Local}
    (hrely : Rely u m g m' g') (h : ThreadOk m g u l) : ThreadOk m' g' u l := by
  refine ⟨hrely.pcOk (fun b c hc => (h.tls b c hc).1) h.pc, fun b c hc => ?_,
    fun b c hc ho => ?_, fun b c hc ho => ?_⟩
  · obtain ⟨hb, ho⟩ := h.tls b c hc
    exact ⟨hrely.chunks _ _ hb, ho.imp_left (hrely.current _ _ hb).2⟩
  · obtain hc | ⟨hnot, -⟩ := hrely.fresh c b hc
    · exact h.current b c hc ((hrely.current _ _ hc).1 ho)
    · exact absurd ho hnot
  · obtain hc | ⟨-, hnot⟩ := hrely.fresh c b hc
    · have hbefore := (hrely.recycling _ _ hc).1 ho
      obtain ⟨hrec, hreset⟩ := h.recycling b c hc hbefore
      obtain ⟨halloc, hfree, -⟩ := hrely.recycled c b hc hbefore
      refine ⟨hrec, ?_⟩
      cases hl : l.pc <;> rw [hl] at hreset <;> first | trivial | skip
      · exact halloc.trans hreset
      · exact ⟨halloc.trans hreset.1, hfree.trans hreset.2⟩
    · exact absurd ho hnot

theorem Inv.set [DecidableEq τ] {s : State τ} {g g' : Ghost τ} {t : τ} {m : Memory} {l : Local}
    (h : Inv s g) (hrely : ∀ u, u ≠ t → Rely u s.shared g m g') (hmemory : MemoryOk m g')
    (hthread : ThreadOk m g' t l)
    (hcount : ∀ b, CountOk (s.set t m l) b (g'.pooled b).length) : Inv (s.set t m l) g' := by
  refine ⟨hmemory, fun u => ?_, hcount⟩
  by_cases hu : u = t
  · subst hu
    rw [Threads.set_self]
    exact hthread
  · rw [Threads.set_other _ _ _ _ hu]
    exact (h.thread u).stable (hrely u hu)

/-- A step that changes what is claimed of a pool as it changes the count and the pool. -/
theorem CountOk.set [DecidableEq τ] {s : State τ} {b : Bucket} {n n' : Nat} {t : τ} {m : Memory}
    {l : Local} (h : CountOk s b n)
    (hn : (n' : Int) + (s.shared.pool b).mPoolingCount + (s.locals t).pc.claims b +
        (s.locals t).pc.fails b =
      n + (m.pool b).mPoolingCount + l.pc.claims b + l.pc.fails b)
    (hpos : 0 ≤ (m.pool b).mPoolingCount ∨
      (s.shared.pool b).mPoolingCount + (s.locals t).pc.fails b ≤
        (m.pool b).mPoolingCount + l.pc.fails b) : CountOk (s.set t m l) b n' := by
  obtain ⟨n₁, n₂, h₁, h₂, hsum, hneg⟩ := h
  have hle₁ := h₁.le t
  have hle₂ := h₂.le t
  refine ⟨n₁ - (s.locals t).pc.claims b + l.pc.claims b,
    n₂ - (s.locals t).pc.fails b + l.pc.fails b, h₁.set ?_, h₂.set ?_, ?_, ?_⟩
  · omega
  · omega
  · rw [Threads.set_shared]
    omega
  · rw [Threads.set_shared]
    omega

end CppNetEngine.MemoryAllocator
