import CppNetEngine.Memory.Proof.Recycling

/-!
# Live blocks never overlap

In every run of the memory allocator, `Alloc` returns a block that is as large as asked for and lies
apart from the live blocks, `Free` returns a block to the bucket it is from, and every chunk is in
one of three states: current, handed out, or pooled (`blocks_kept`). Every step keeps the invariant
of `Ownership` (`Inv.act`), from which the states of the chunks follow (`Inv.inState_iff`).
-/

namespace CppNetEngine.MemoryAllocator

open TopNode

variable {τ : Type} {s : State τ} {g : Ghost τ} {t : τ}

/-! ## What is kept -/

/-- The whole of a block of a bucket. -/
def Block.span (pData : Block) (b : Bucket) : Span :=
  blockSpan b pData.pChunk pData.index b.allocSize

/-- A block of the bucket for the size; it is not null, and large enough. -/
structure IsBlock (m : Memory) (size : Nat) (pData : Block) : Prop where
  chunk : m.chunks pData.pChunk = some (bucketOf size)
  index : pData.index < chunkSize
  nonnull : 0 < (pData.span (bucketOf size)).start
  large : size ≤ (bucketOf size).allocSize

/-- Two blocks, of the buckets for their sizes, have no byte in common. -/
def Apart (x y : Block × Nat) : Prop :=
  (x.1.span (bucketOf x.2)).Disjoint (y.1.span (bucketOf y.2))

/-- What a chunk can be. -/
inductive ChunkState
  | current
  | handedOut
  | pooled

/-- Current chunk of one thread, and not exhausted; handed out, and not all freed or recycled by
one thread; or in the pool of its bucket, as good as new. -/
def InState (s : State τ) (b : Bucket) (c : Nat) : ChunkState → Prop
  | .current => (∃! t, (s.locals t).spTlsChunk b = some c) ∧ s.shared.mAllocCount c < chunkSize
  | .handedOut => (s.shared.mAllocCount c = chunkSize ∧ s.shared.mFreeCount c < chunkSize) ∨
      ∃! t, (s.locals t).pc.Recycles c
  | .pooled => (∃ l, Linked s.shared.pNextNode (s.shared.pool b).mTopNode16.pNode l ∧ c ∈ l) ∧
      s.shared.mAllocCount c = 0 ∧ s.shared.mFreeCount c = 0

/-- The size that a thread allocates or frees. -/
def Pc.size : Pc → Option Nat
  | .idle => none
  | .alloc size | .getData size | .poolAlloc _ size _ | .ret size _ | .freeWithIsAllFreed size _
  | .resetAllocCount size _ | .resetFreeCount size _ | .poolFree _ size _ | .poolCount size =>
    some size

/-- What holds in every state. -/
structure Kept (s : State τ) : Prop where
  /-- The tables have the bucket that a call looks up. -/
  bucket : ∀ t size, (s.locals t).pc.size = some size → (bucketOf size).Exists
  /-- What `Alloc` returns. -/
  returned : ∀ t size pData, (s.locals t).pc = .ret size pData → ∃ block, pData = some block ∧
    IsBlock s.shared size block ∧ ∀ x ∈ s.shared.live, Apart (block, size) x
  live : ∀ x ∈ s.shared.live, IsBlock s.shared x.2 x.1
  apart : s.shared.live.Pairwise Apart
  /-- `Free` finds the bucket that the block is from. -/
  freed : ∀ t size pData, (s.locals t).pc = .freeWithIsAllFreed size pData →
    IsBlock s.shared size pData
  recycled : ∀ t step size c, (s.locals t).pc = .poolFree step size c →
    s.shared.chunks c = some (bucketOf size)
  chunks : ∀ c b, s.shared.chunks c = some b → ∃! state, InState s b c state
  /-- No call stops before it returns. -/
  proceeds : ∀ t k, (s.locals t).pc ≠ .idle → (step k s.shared (s.locals t)).isSome

/-! ## The states of chunks -/

def Owner.state : Owner τ → ChunkState
  | .current _ => .current
  | .handedOut | .recycling _ => .handedOut
  | .pooled => .pooled

theorem ThreadOk.owner_of_recycles {m : Memory} {l : Local} {c : Nat} (h : ThreadOk m g t l)
    (hrec : l.pc.Recycles c) : g.owner c = .recycling t := by
  have hok := h.pc
  cases hpc : l.pc <;> rw [hpc] at hok hrec <;>
    first | exact hrec.elim | (cases hrec; first | exact hok.2 | exact hok.2.1)

theorem ThreadOk.owner_of_replaces {m : Memory} {l : Local} {c : Nat} (h : ThreadOk m g t l)
    (hrep : l.pc.Replaces c) : g.owner c = .handedOut := by
  have hok := h.pc
  cases hpc : l.pc <;> rw [hpc] at hok hrep <;> try exact hrep.elim
  rename_i pData
  cases pData with
  | none => exact hrep.elim
  | some block =>
    cases (hrep : block.pChunk = c)
    exact hok.2.2.2

/-- **The state of a chunk is that of its owner.** -/
theorem Inv.inState_iff (h : Inv s g) {b : Bucket} {c : Nat} (hc : s.shared.chunks c = some b)
    (state : ChunkState) : InState s b c state ↔ (g.owner c).state = state := by
  have hchunk := h.memory.chunk c b hc
  cases state with
  | current =>
    refine ⟨fun ⟨⟨t, htls, _⟩, hlt⟩ => ?_, fun ho => ?_⟩
    · rcases ((h.thread t).tls b c htls).2 with ho | hrep
      · rw [ho]
        rfl
      · rw [(h.thread t).owner_of_replaces hrep] at hchunk
        exact absurd hlt (Nat.not_lt_of_le (Nat.le_of_eq hchunk.1.symm))
    · cases howner : g.owner c <;> rw [howner] at ho <;> try cases ho
      rename_i t
      rw [howner] at hchunk
      refine ⟨⟨t, (h.thread t).current b c hc howner, fun u hu => ?_⟩, hchunk.1⟩
      rcases ((h.thread u).tls b c hu).2 with ho | hrep
      · rw [howner] at ho
        cases ho
        rfl
      · rw [(h.thread u).owner_of_replaces hrep] at howner
        cases howner
  | handedOut =>
    refine ⟨fun hs => ?_, fun ho => ?_⟩
    · rcases hs with ⟨hall, -⟩ | ⟨t, hrec, -⟩
      · cases howner : g.owner c with
        | handedOut | recycling t => rfl
        | current t =>
          rw [howner] at hchunk
          exact absurd hall (Nat.ne_of_lt hchunk.1)
        | pooled =>
          rw [howner] at hchunk
          rw [hchunk.2.1] at hall
          cases hall
      · rw [(h.thread t).owner_of_recycles hrec]
        rfl
    · cases howner : g.owner c <;> rw [howner] at ho <;> try cases ho
      · rw [howner] at hchunk
        exact .inl ⟨hchunk.1, hchunk.2.2⟩
      · rename_i t
        refine .inr ⟨t, ((h.thread t).recycling b c hc howner).1, fun u hu => ?_⟩
        have heq := (h.thread u).owner_of_recycles hu
        rw [howner] at heq
        cases heq
        rfl
  | pooled =>
    refine ⟨fun ⟨⟨l, hl, hmem⟩, _⟩ => ?_, fun ho => ?_⟩
    · rw [hl.unique (h.memory.links b).linked] at hmem
      rw [(h.memory.pooled b c hmem).2]
      rfl
    · cases howner : g.owner c <;> rw [howner] at ho <;> try cases ho
      rw [howner] at hchunk
      exact ⟨⟨g.pooled b, (h.memory.links b).linked, hchunk.1⟩, hchunk.2.1, hchunk.2.2.1⟩

/-! ## Blocks -/

theorem MemoryOk.isBlock {m : Memory} {size : Nat} {pData : Block} (h : MemoryOk m g)
    (hc : m.chunks pData.pChunk = some (bucketOf size)) (hout : pData.index ∈ g.out pData.pChunk) :
    IsBlock m size pData := by
  refine ⟨hc, ?_, ?_, le_allocSize size⟩
  · have hlt := h.index _ _ hc _ hout
    have hchunk := h.chunk _ _ hc
    cases ho : g.owner pData.pChunk <;> rw [ho] at hchunk
    · exact Nat.lt_trans hlt hchunk.1
    · exact Nat.lt_of_lt_of_eq hlt hchunk.1
    · rw [(hchunk : g.out _ = ∅)] at hout
      exact absurd hout (Finset.notMem_empty _)
    · rw [hchunk.2.2.2] at hout
      exact absurd hout (Finset.notMem_empty _)
  · simp only [Block.span, blockSpan, Bucket.dataOffset]
    omega

/-- **Blocks lie apart**: two of one chunk do, and so do the chunks. -/
theorem MemoryOk.apart_of_ne {m : Memory} {x y : Block × Nat} (h : MemoryOk m g)
    (hx : IsBlock m x.2 x.1) (hy : IsBlock m y.2 y.1) (hne : x.1 ≠ y.1) : Apart x y := by
  by_cases hc : x.1.pChunk = y.1.pChunk
  · have hb : bucketOf x.2 = bucketOf y.2 := by
      have hxc := hx.chunk
      rw [hc, hy.chunk] at hxc
      exact (Option.some.inj hxc).symm
    have hi : x.1.index ≠ y.1.index := fun hi => hne (Block.ext hc hi)
    unfold Apart Block.span
    rw [hb, hc]
    exact blocks_disjoint hi (Nat.le_refl _) (Nat.le_refl _)
  · apply (h.apart _ _ _ _ hx.chunk hy.chunk hc).mono
    · exact blockSpan_subset hx.index (Nat.le_refl _)
    · exact blockSpan_subset hy.index (Nat.le_refl _)

theorem Inv.kept (h : Inv s g)
    (hbucket : ∀ t size, (s.locals t).pc.size = some size → (bucketOf size).Exists) : Kept s where
  bucket := hbucket
  returned t size pData hpc := by
    have hok := (h.thread t).pc
    rw [hpc] at hok
    obtain ⟨block, hblock, hc, hout, hholder⟩ := hok
    have his := h.memory.isBlock hc hout
    refine ⟨block, hblock, his, fun x hx => ?_⟩
    obtain ⟨hxc, hxout, hxholder⟩ := h.memory.live x.1 x.2 hx
    apply h.memory.apart_of_ne his (h.memory.isBlock hxc hxout)
    intro heq
    have hblock' : block = x.1 := heq
    rw [hblock', hxholder] at hholder
    cases hholder
  live x hx := by
    obtain ⟨hxc, hxout, -⟩ := h.memory.live x.1 x.2 hx
    exact h.memory.isBlock hxc hxout
  apart := by
    have hnodup := List.pairwise_map.1 h.memory.nodup
    refine hnodup.imp_of_mem fun {x y} hx hy hne => ?_
    obtain ⟨hxc, hxout, -⟩ := h.memory.live x.1 x.2 hx
    obtain ⟨hyc, hyout, -⟩ := h.memory.live y.1 y.2 hy
    exact h.memory.apart_of_ne (h.memory.isBlock hxc hxout) (h.memory.isBlock hyc hyout) hne
  freed t size pData hpc := by
    have hok := (h.thread t).pc
    rw [hpc] at hok
    exact h.memory.isBlock hok.1 hok.2.1
  recycled t step size c hpc := by
    have hok := (h.thread t).pc
    rw [hpc] at hok
    exact hok.1
  chunks c b hc := ⟨(g.owner c).state, (h.inState_iff hc _).2 rfl,
    fun state hs => ((h.inState_iff hc state).1 hs).symm⟩
  proceeds t k hidle := by
    have hok := (h.thread t).pc
    unfold step
    cases hpc : (s.locals t).pc with
    | idle => exact absurd hpc hidle
    | getData size =>
      rw [hpc] at hok
      obtain ⟨c, hc, -⟩ := hok
      simp only [hc]
      rfl
    | poolAlloc step size pData =>
      rw [hpc] at hok
      cases step with
      | fetchSub | fetchAdd | allocNode => rfl
      | pop step =>
        simp only [poolAllocStep, Option.isSome_map]
        exact PopOk.isSome hok.1 k.spurious
    | alloc | ret | freeWithIsAllFreed | resetAllocCount | resetFreeCount | poolFree | poolCount =>
      rfl

/-! ## Every step -/

section Steps

variable [DecidableEq τ] {m : Memory} {l : Local} {k : Outside} {size : Nat}

theorem Inv.poolAlloc (h : Inv s g) {step : AllocStep} {pData : Option Block}
    (hpc : (s.locals t).pc = .poolAlloc step size pData)
    (hok : CallsGuard s t (.next k))
    (hs : poolAllocStep k s.shared (s.locals t) size pData step = some (m, l)) :
    ∃ g', Inv (s.set t m l) g' := by
  cases step with
  | fetchSub =>
    cases hs
    exact ⟨g, h.fetchSub hpc⟩
  | fetchAdd =>
    cases hs
    exact ⟨g, h.fetchAdd hpc⟩
  | allocNode =>
    cases hs
    exact h.allocNode hpc (hok size pData hpc)
  | pop step =>
    obtain ⟨r, hr, hs⟩ := Option.map_eq_some_iff.1 hs
    cases hs
    exact h.popLoop hpc hr

theorem Inv.step (h : Inv s g) (hok : CallsGuard s t (.next k))
    (hs : step k s.shared (s.locals t) = some (m, l)) : ∃ g', Inv (s.set t m l) g' := by
  unfold MemoryAllocator.step at hs
  cases hpc : (s.locals t).pc <;> simp only [hpc] at hs
  case idle => cases hs
  case alloc size =>
    cases hs
    exact ⟨g, h.alloc hpc⟩
  case getData size =>
    obtain ⟨c, hc, hs⟩ := Option.map_eq_some_iff.1 hs
    have hstep := h.getData hpc hc
    rw [hs] at hstep
    exact hstep
  case poolAlloc step size pData => exact h.poolAlloc hpc hok hs
  case ret size pData =>
    cases hs
    have hblock := (h.thread t).pc
    rw [hpc] at hblock
    obtain ⟨block, rfl, -⟩ := hblock
    exact ⟨_, h.ret hpc⟩
  case freeWithIsAllFreed size pData =>
    cases hs
    exact h.freeWithIsAllFreed hpc
  case resetAllocCount size c =>
    cases hs
    exact ⟨g, h.resetAllocCount hpc⟩
  case resetFreeCount size c =>
    cases hs
    exact ⟨g, h.resetFreeCount hpc⟩
  case poolFree step size c =>
    cases hs
    exact h.pushLoop hpc rfl
  case poolCount size =>
    cases hs
    exact ⟨g, h.poolCount hpc⟩

omit [DecidableEq τ] in
theorem act_alloc {m' : Memory} {l' : Local} (h : act (.alloc size) m l = some (m', l')) :
    l.pc = .idle ∧ m' = m ∧ l' = l.goto (.alloc size) := by
  simp only [MemoryAllocator.act] at h
  cases hpc : l.pc <;> simp only [hpc] at h <;> cases h
  exact ⟨rfl, rfl, rfl⟩

omit [DecidableEq τ] in
theorem act_free {m' : Memory} {l' : Local} {pData : Block}
    (h : act (.free pData size) m l = some (m', l')) :
    l.pc = .idle ∧ m' = { m with live := m.live.erase (pData, size) } ∧
      l' = l.goto (.freeWithIsAllFreed size pData) := by
  simp only [MemoryAllocator.act] at h
  cases hpc : l.pc <;> simp only [hpc] at h <;> cases h
  exact ⟨rfl, rfl, rfl⟩

theorem Inv.act (h : Inv s g) {a : Action} (hok : CallsGuard s t a)
    (hs : act a s.shared (s.locals t) = some (m, l)) : ∃ g', Inv (s.set t m l) g' := by
  cases a with
  | next k => exact h.step hok hs
  | alloc size =>
    obtain ⟨hpc, rfl, rfl⟩ := act_alloc hs
    refine ⟨g, h.goto trivial ?_ ?_ ?_ ?_⟩ <;> rw [hpc]
    · exact fun c => id
    · exact fun c => False.elim
    · exact fun b => rfl
    · exact fun b => rfl
  | free pData size =>
    obtain ⟨hpc, rfl, rfl⟩ := act_free hs
    exact ⟨_, h.free hpc hok⟩

omit [DecidableEq τ] in
theorem Inv.init (hshared : s.shared = initial) (hlocals : ∀ t, s.locals t = Local.new) :
    Inv s ⟨fun _ => .handedOut, fun _ => [], fun _ => ∅, fun _ => none⟩ := by
  refine ⟨?_, fun t => ?_, fun b => ⟨0, 0, Threads.Total.zero ?_, Threads.Total.zero ?_, ?_, ?_⟩⟩
  · rw [hshared]
    exact ⟨nofun, nofun, nofun, List.nodup_nil, fun b => ⟨.nil, List.nodup_nil, rfl⟩, nofun, nofun⟩
  · rw [hlocals t]
    exact ⟨trivial, nofun, nofun, nofun⟩
  · intro t
    rw [hlocals t]
    rfl
  · intro t
    rw [hlocals t]
    rfl
  · rw [hshared]
    rfl
  · rw [hshared]
    exact Int.le_refl _

end Steps

theorem RunsTo.inv [DecidableEq τ] (h : RunsTo s) : ∃ g, Inv s g := by
  refine Threads.invariant (I := fun s => ∃ g, Inv s g) ?_ ?_ ?_ h
  · intro s hs
    exact ⟨_, .init hs.1 hs.2⟩
  · intro s t a shared l hI hok hs
    obtain ⟨g, hI⟩ := hI
    exact hI.act hok hs
  · intro s e
    exact e.elim

/-! ## Sizes -/

/-- A size that the buckets serve. -/
def Served (size : Nat) : Prop := 1 ≤ size ∧ size ≤ maxSize

theorem install_size {l : Local} {size c : Nat} {pData : Option Block} :
    (l.install size pData c).pc.size = some size := by
  unfold Local.install
  split <;> rfl

theorem poolAllocStep_size {m m' : Memory} {l l' : Local} {k : Outside} {size : Nat}
    {pData : Option Block} {step : AllocStep}
    (h : poolAllocStep k m l size pData step = some (m', l')) :
    l'.pc.size = some size ∧ m'.live = m.live := by
  cases step with
  | fetchSub | fetchAdd =>
    cases h
    exact ⟨rfl, rfl⟩
  | allocNode =>
    cases h
    exact ⟨install_size, rfl⟩
  | pop step =>
    obtain ⟨⟨links, r⟩, -, h⟩ := Option.map_eq_some_iff.1 h
    cases h
    cases r with
    | inl step' => exact ⟨rfl, rfl⟩
    | inr c => exact ⟨install_size, rfl⟩

/-- A call keeps its size, and `Alloc` returns a block of its size. -/
theorem step_size {m m' : Memory} {l l' : Local} {k : Outside}
    (h : step k m l = some (m', l')) :
    (l'.pc.size = none ∨ l'.pc.size = l.pc.size) ∧
      ∀ x ∈ m'.live, x ∈ m.live ∨ l.pc.size = some x.2 := by
  unfold step at h
  cases hpc : l.pc <;> simp only [hpc] at h
  case idle => cases h
  case getData size =>
    obtain ⟨c, -, h⟩ := Option.map_eq_some_iff.1 h
    unfold getDataStep at h
    dsimp only at h
    split at h <;> cases h
    · exact ⟨.inr rfl, fun x hx => .inl hx⟩
    · refine ⟨.inr ?_, fun x hx => .inl hx⟩
      simp only [Local.goto]
      split <;> rfl
  case poolAlloc step size pData =>
    obtain ⟨hsize, hlive⟩ := poolAllocStep_size h
    rw [hsize, hlive]
    exact ⟨.inr rfl, fun x hx => .inl hx⟩
  case ret size pData =>
    cases h
    refine ⟨.inl rfl, fun x hx => ?_⟩
    rcases List.mem_append.1 hx with hx | hx
    · obtain ⟨block, -, rfl⟩ := List.mem_map.1 hx
      exact .inr rfl
    · exact .inl hx
  case poolFree step size c =>
    cases h
    refine ⟨.inr ?_, fun x hx => .inl hx⟩
    simp only [Local.goto]
    cases (pushStep k.spurious (m.links (bucketOf size)) c step).2 <;> rfl
  case alloc | freeWithIsAllFreed =>
    cases h
    refine ⟨?_, fun x hx => .inl hx⟩
    simp only [Local.goto]
    split
    · exact .inr rfl
    · first | exact .inl rfl | exact .inr rfl
  all_goals
    cases h
    refine ⟨?_, fun x hx => .inl hx⟩
    first | exact .inl rfl | exact .inr rfl

/-- **Calls are of sizes that the buckets serve.** -/
theorem RunsTo.served [DecidableEq τ] (h : RunsTo s) :
    (∀ t size, (s.locals t).pc.size = some size → Served size) ∧
      ∀ x ∈ s.shared.live, Served x.2 := by
  refine Threads.invariant (I := fun s : State τ =>
    (∀ t size, (s.locals t).pc.size = some size → Served size) ∧
      ∀ x ∈ s.shared.live, Served x.2) ?_ ?_ ?_ h
  · intro s hs
    obtain ⟨hshared, hlocals⟩ := hs
    refine ⟨fun t size hsize => ?_, ?_⟩
    · rw [hlocals t] at hsize
      cases hsize
    · rw [hshared]
      exact nofun
  · intro s t a m l hI hok hs
    obtain ⟨hpcs, hlives⟩ := hI
    have hone : (∀ size, l.pc.size = some size → Served size) ∧ ∀ x ∈ m.live, Served x.2 := by
      cases a with
      | next k =>
        obtain ⟨hsize, hlive⟩ := step_size hs
        refine ⟨fun size hpc => ?_, fun x hx => ?_⟩
        · rcases hsize with hsize | hsize <;> rw [hsize] at hpc
          · cases hpc
          · exact hpcs t size hpc
        · exact (hlive x hx).elim (hlives x) (hpcs t x.2)
      | alloc size =>
        obtain ⟨-, rfl, rfl⟩ := act_alloc hs
        refine ⟨fun n hn => ?_, hlives⟩
        cases hn
        exact hok
      | free pData size =>
        obtain ⟨-, rfl, rfl⟩ := act_free hs
        refine ⟨fun n hn => ?_, fun x hx => hlives x (List.mem_of_mem_erase hx)⟩
        cases hn
        exact hlives _ hok
    refine ⟨fun u size hsize => ?_, hone.2⟩
    by_cases hu : u = t
    · subst hu
      rw [Threads.set_self] at hsize
      exact hone.1 size hsize
    · rw [Threads.set_other _ _ _ _ hu] at hsize
      exact hpcs u size hsize
  · intro s e
    exact e.elim

/-- **Live blocks never overlap**, and every chunk is in one of its states, in every run in which
sizes have a bucket, live blocks are freed once and with their size, and `mi_malloc` succeeds. -/
theorem blocks_kept [DecidableEq τ] (h : RunsTo s) : Kept s := by
  obtain ⟨g, hg⟩ := h.inv
  refine hg.kept fun t size hsize => ?_
  obtain ⟨hpos, hle⟩ := h.served.1 t size hsize
  exact bucketOf_exists hle hpos

/-- A thread allocates two blocks of its first chunk; another one frees the first of them, and
allocates a block of a chunk of its own. -/
theorem blocks_kept_two : ∃ s : State Bool,
    s.shared.live = [(⟨1048576, 0⟩, 100), (⟨4096, 1⟩, 300)] ∧ s.shared.mFreeCount 4096 = 1 ∧
    Kept s := by
  let start : State Bool := ⟨initial, fun _ => Local.new⟩
  let next (t : Bool) (address : Nat) : ThreadAction Bool Action Empty :=
    .thread t (.next ⟨false, address⟩)
  let run := .thread false (.alloc 512) :: List.replicate 6 (next false 4096) ++
    .thread false (.alloc 300) :: List.replicate 3 (next false 4096) ++
    [.thread true (.free ⟨4096, 0⟩ 512), next true 0, .thread true (.alloc 100)] ++
    List.replicate 6 (next true 1048576)
  -- the second chunk lies after the first
  have hfits : ∀ pChunk b, Function.update (fun _ => none) 4096 (some (bucketOf 512)) pChunk =
      some b → (nodeSpan (bucketOf 100) 1048576).Disjoint (nodeSpan b pChunk) := by
    intro pChunk b hb
    by_cases hc : pChunk = 4096
    · subst hc
      cases hb
      exact .inr (by decide)
    · rw [Function.update_of_ne hc] at hb
      cases hb
  have hguard : (machine Bool).Allowed (Threads.Guard CallsGuard fun _ _ => True) start run := by
    refine ⟨⟨by decide, by decide⟩, nofun, nofun, nofun, fun _ _ _ => nofun, nofun, nofun,
      ⟨by decide, by decide⟩, nofun, nofun, nofun, ?_, nofun, ⟨by decide, by decide⟩, nofun, nofun,
      nofun, ?_, nofun, nofun, trivial⟩
    · exact List.mem_cons_of_mem _ List.mem_cons_self
    · intro size pData hpc
      cases hpc
      exact hfits
  have hrun : RunsTo _ := Machine.ReachableIf.exec run (.init (s := start) ⟨rfl, fun _ => rfl⟩)
    hguard rfl
  exact ⟨_, rfl, rfl, blocks_kept hrun⟩

end CppNetEngine.MemoryAllocator
