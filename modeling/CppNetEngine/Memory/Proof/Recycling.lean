import CppNetEngine.Memory.Proof.Blocks

/-!
# Recycling chunks

The steps of `MemoryPool::Free` and `ObjectPool::Free` keep the invariant of the memory allocator.
The last block that is freed makes the thread recycle the chunk (`Inv.freeWithIsAllFreed`); nobody
else touches the chunk while its counters are reset (`Inv.recycle`), and the loop gives it to the
pool of its bucket (`Inv.pushLoop`), where it is counted (`Inv.poolCount`).
-/

namespace CppNetEngine.MemoryAllocator

open TopNode

variable {τ : Type} {m : Memory} {g : Ghost τ} {t u : τ} {b : Bucket} {c size : Nat}
  {pData : Block}

/-! ## The count of freed blocks -/

/-- The owner of the chunk of a block that is freed after `n` others. -/
def afterFree (t : τ) (n : Nat) (o : Owner τ) : Owner τ :=
  if n = chunkSize - 1 then .recycling t else o

/-- A block that the thread has is counted as freed. -/
def Ghost.putBack (g : Ghost τ) (t : τ) (pData : Block) (n : Nat) : Ghost τ :=
  (g.setOut pData.pChunk ((g.out pData.pChunk).erase pData.index)).give pData.pChunk
    (afterFree t n (g.owner pData.pChunk))

/-- `fetch_add` on `mFreeCount`. -/
def Memory.countFree (m : Memory) (c : Nat) : Memory :=
  { m with mFreeCount := Function.update m.mFreeCount c (m.mFreeCount c + 1) }

theorem putBack_out {n i c' : Nat} :
    i ∈ (g.putBack t pData n).out c' ↔ i ∈ g.out c' ∧ (⟨c', i⟩ : Block) ≠ pData := by
  obtain ⟨c, j⟩ := pData
  by_cases hc : c' = c
  · subst hc
    simp only [Ghost.putBack, Ghost.give_out, Ghost.setOut_self, Finset.mem_erase, ne_eq,
      Block.mk.injEq, true_and]
    exact and_comm
  · simp only [Ghost.putBack, Ghost.give_out, Ghost.setOut_other _ hc, ne_eq, Block.mk.injEq, hc,
      false_and, not_false_eq_true, and_true]

theorem putBack_other {n c' : Nat} (hc : c' ≠ pData.pChunk) :
    (g.putBack t pData n).owner c' = g.owner c' := Ghost.give_other _ hc

theorem putBack_self {n : Nat} : (g.putBack t pData n).owner pData.pChunk =
    afterFree t n (g.owner pData.pChunk) := Ghost.give_self _

/-- A chunk with a block that is out is current or handed out; if all others are freed, it is
handed out and the block is its last. -/
theorem MemoryOk.out_cases (h : MemoryOk m g) (hc : m.chunks c = some b) {i : Nat}
    (hi : i ∈ g.out c) :
    ((∃ u, g.owner c = .current u) ∨ g.owner c = .handedOut) ∧ m.mFreeCount c < chunkSize ∧
      (m.mFreeCount c = chunkSize - 1 → g.owner c = .handedOut ∧ (g.out c).card = 1) := by
  have hstate := h.chunk c b hc
  have hpos : 0 < (g.out c).card := Finset.card_pos.2 ⟨i, hi⟩
  have hsize : chunkSize = 500 := rfl
  cases ho : g.owner c with
  | current u =>
    rw [ho] at hstate
    obtain ⟨hlt, hsum⟩ := hstate
    exact ⟨.inl ⟨u, rfl⟩, by omega, fun hlast => by omega⟩
  | handedOut =>
    rw [ho] at hstate
    obtain ⟨-, hsum, hlt⟩ := hstate
    exact ⟨.inr rfl, hlt, fun hlast => ⟨rfl, by omega⟩⟩
  | recycling u =>
    rw [ho] at hstate
    rw [(hstate : g.out c = ∅)] at hi
    exact absurd hi (Finset.notMem_empty i)
  | pooled =>
    rw [ho] at hstate
    rw [hstate.2.2.2] at hi
    exact absurd hi (Finset.notMem_empty i)

theorem MemoryOk.countFree (h : MemoryOk m g) (hh : Holds m g t size pData) :
    MemoryOk (m.countFree pData.pChunk) (g.putBack t pData (m.mFreeCount pData.pChunk)) := by
  obtain ⟨hc, hout, hholder⟩ := hh
  obtain ⟨howner, hlt, hlast⟩ := h.out_cases hc hout
  have hcard : ((g.out pData.pChunk).erase pData.index).card + 1 = (g.out pData.pChunk).card :=
    Finset.card_erase_add_one hout
  refine ⟨fun c' b' hc' => ?_, fun c' b' hc' i hi => ?_, fun block n hmem => ?_, h.nodup, h.links,
    fun b' c' hmem => ?_, h.apart⟩
  · by_cases hne : c' = pData.pChunk
    · subst hne
      have hstate := h.chunk _ b' hc'
      rw [putBack_self, afterFree]
      split <;> rename_i hn
      · have hone := (hlast hn).2
        refine Finset.card_eq_zero.1 ?_
        simp only [Ghost.putBack, Ghost.give_out, Ghost.setOut_self]
        omega
      · rcases howner with ⟨u, ho⟩ | ho <;> rw [ho] at hstate ⊢ <;>
          simp only [ChunkOk, Ghost.putBack, Ghost.give_out, Ghost.setOut_self, Memory.countFree,
            Function.update_self] at hstate ⊢ <;> omega
    · rw [putBack_other hne]
      refine (h.chunk c' b' hc').congr rfl (Function.update_of_ne hne _ _) ?_ fun _ => id
      exact Ghost.setOut_other _ hne
  · exact h.index c' b' hc' i (putBack_out.1 hi).1
  · obtain ⟨hchunk, hblock, hnone⟩ := h.live block n hmem
    refine ⟨hchunk, putBack_out.2 ⟨hblock, ?_⟩, hnone⟩
    intro heq
    have hblock' : block = pData := heq
    rw [hblock', hholder] at hnone
    cases hnone
  · obtain ⟨hchunk, hpooled⟩ := h.pooled b' c' hmem
    refine ⟨hchunk, ?_⟩
    rw [putBack_other]
    · exact hpooled
    · intro heq
      rw [← heq, hpooled] at howner
      rcases howner with ⟨u, ho⟩ | ho <;> cases ho

theorem Rely.countFree (h : MemoryOk m g) (hh : Holds m g t size pData) (hu : u ≠ t) :
    Rely u m g (m.countFree pData.pChunk) (g.putBack t pData (m.mFreeCount pData.pChunk)) := by
  obtain ⟨hc, hout, hholder⟩ := hh
  obtain ⟨howner, -, hlast⟩ := h.out_cases hc hout
  have hnot : g.owner pData.pChunk ≠ .recycling u := by
    rcases howner with ⟨v, ho⟩ | ho <;> rw [ho] <;> exact nofun
  have hiff : ∀ c' (o : Owner τ), (o = .current u ∨ o = .recycling u) →
      ((g.putBack t pData (m.mFreeCount pData.pChunk)).owner c' = o ↔ g.owner c' = o) := by
    intro c' o ho
    by_cases hne : c' = pData.pChunk
    · subst hne
      rw [putBack_self, afterFree]
      split <;> rename_i hn
      · rw [(hlast hn).1]
        rcases ho with ho | ho <;> rw [ho]
        · exact ⟨nofun, nofun⟩
        · refine ⟨fun heq => ?_, nofun⟩
          cases heq
          exact absurd rfl hu
      · exact Iff.rfl
    · rw [putBack_other hne]
  refine ⟨fun _ _ h => h, fun _ _ h => .inl h, fun c' _ _ => hiff c' _ (.inl rfl),
    fun c' _ _ => hiff c' _ (.inr rfl), fun c' _ _ ho => ⟨rfl, ?_, rfl⟩, fun n block hh' => ?_,
    fun _ => .refl⟩
  · refine Function.update_of_ne ?_ _ _
    intro heq
    rw [heq] at ho
    exact hnot ho
  · have hne : block ≠ pData := by
      intro heq
      rw [heq, Holds, hholder] at hh'
      cases hh'.2.2
      exact hu rfl
    refine ⟨putBack_out.2 ⟨hh'.2.1, hne⟩, hh'.2.2, fun ho => ?_⟩
    by_cases heq : block.pChunk = pData.pChunk
    · -- another block of the chunk is out, so this one is not the last
      rw [heq] at ho ⊢
      rw [putBack_self, afterFree, if_neg]
      · exact ho
      · intro hn
        obtain ⟨i, hi⟩ := Finset.card_eq_one.1 (hlast hn).2
        have hthis : block.index ∈ g.out pData.pChunk := heq ▸ hh'.2.1
        rw [hi, Finset.mem_singleton] at hthis hout
        exact hne (Block.ext heq (hthis.trans hout.symm))
    · rw [putBack_other heq]
      exact ho

section Steps

variable [DecidableEq τ] {s : State τ}

/-- **A block is counted as freed**; after the last of a chunk, the thread recycles the chunk. -/
theorem Inv.freeWithIsAllFreed (h : Inv s g)
    (hpc : (s.locals t).pc = .freeWithIsAllFreed size pData) :
    ∃ g', Inv (s.set t (s.shared.countFree pData.pChunk) ((s.locals t).goto
      (if s.shared.mFreeCount pData.pChunk = chunkSize - 1 then .resetAllocCount size pData.pChunk
        else .idle))) g' := by
  have hheld := (h.thread t).pc
  rw [hpc] at hheld
  obtain ⟨howner, -, hlast⟩ := h.memory.out_cases hheld.1 hheld.2.1
  obtain ⟨-, htls, hcurrent, hrec⟩ := h.thread t
  have hnot : ∀ c b, s.shared.chunks c = some b → g.owner c ≠ .recycling t := by
    intro c b hc ho
    have hrecycles := (hrec b c hc ho).1
    rw [hpc] at hrecycles
    exact hrecycles
  refine ⟨g.putBack t pData (s.shared.mFreeCount pData.pChunk),
    h.set (fun u hu => .countFree h.memory hheld hu) (h.memory.countFree hheld)
      ⟨?_, fun b c hc => ?_, fun b c hc ho => ?_, fun b c hc ho => ?_⟩
      fun b => (h.count b).set ?_ (.inr ?_)⟩
  · split <;> rename_i hn
    · refine ⟨hheld.1, ?_⟩
      rw [putBack_self, afterFree, if_pos hn]
    · trivial
  · obtain ⟨hchunk, ho⟩ := htls b c hc
    rw [hpc] at ho
    have hown := ho.resolve_right id
    refine ⟨hchunk, .inl ?_⟩
    by_cases hne : c = pData.pChunk
    · subst hne
      rw [putBack_self, afterFree, if_neg]
      · exact hown
      · intro hn
        rw [(hlast hn).1] at hown
        cases hown
    · rw [putBack_other hne]
      exact hown
  · apply hcurrent b c hc
    by_cases hne : c = pData.pChunk
    · subst hne
      rw [putBack_self, afterFree] at ho
      split at ho
      · cases ho
      · exact ho
    · rw [putBack_other hne] at ho
      exact ho
  · by_cases hne : c = pData.pChunk
    · subst hne
      rw [putBack_self, afterFree] at ho
      split at ho <;> rename_i hn
      · simp only [Local.goto, if_pos hn]
        exact ⟨rfl, trivial⟩
      · exact absurd ho (hnot _ b hc)
    · rw [putBack_other hne] at ho
      exact absurd ho (hnot c b hc)
  · rw [hpc]
    simp only [Local.goto]
    split <;> rfl
  · rw [hpc]
    simp only [Local.goto]
    split <;> exact Int.le_refl _

/-! ## The recycled chunk -/

/-- Only what belongs to a chunk that is recycled changes. -/
structure Touches (c : Nat) (m m' : Memory) : Prop where
  chunks : m'.chunks = m.chunks
  count : ∀ b, (m'.pool b).mPoolingCount = (m.pool b).mPoolingCount
  live : m'.live = m.live
  other : ∀ c', c' ≠ c → m'.mAllocCount c' = m.mAllocCount c' ∧
    m'.mFreeCount c' = m.mFreeCount c' ∧ m'.pNextNode c' = m.pNextNode c'

omit [DecidableEq τ] in
theorem MemoryOk.recycle (h : MemoryOk m g) {m' : Memory} (hm : Touches c m m')
    (hlinks : ∀ b, LinksOk (m'.links b) (m.pops b) (g.pooled b))
    (ho : g.owner c = .recycling t) : MemoryOk m' g where
  chunk c' b hc := by
    rw [hm.chunks] at hc
    have hstate := h.chunk c' b hc
    by_cases hne : c' = c
    · subst hne
      rw [ho] at hstate ⊢
      exact hstate
    · obtain ⟨halloc, hfree, -⟩ := hm.other c' hne
      exact hstate.congr halloc hfree rfl fun _ => id
  index c' b hc i hi := by
    rw [hm.chunks] at hc
    by_cases hne : c' = c
    · subst hne
      have hstate := h.chunk c' b hc
      rw [ho] at hstate
      rw [(hstate : g.out c' = ∅)] at hi
      exact absurd hi (Finset.notMem_empty i)
    · rw [(hm.other c' hne).1]
      exact h.index c' b hc i hi
  live block n hmem := by
    rw [hm.live] at hmem
    rw [hm.chunks]
    exact h.live block n hmem
  nodup := by
    rw [hm.live]
    exact h.nodup
  links b := by
    rw [Memory.pops, (hlinks b).count]
    exact hlinks b
  pooled b c' hmem := by
    rw [hm.chunks]
    exact h.pooled b c' hmem
  apart c c' b b' hc hc' := by
    rw [hm.chunks] at hc hc'
    exact h.apart c c' b b' hc hc'

omit [DecidableEq τ] in
theorem Rely.recycle {m' : Memory} (hm : Touches c m m')
    (hlinks : ∀ b, LinksOk (m'.links b) (m.pops b) (g.pooled b))
    (ho : g.owner c = .recycling t) (hu : u ≠ t) : Rely u m g m' g where
  chunks c' b hc := by
    rw [hm.chunks]
    exact hc
  fresh c' b hc := by
    rw [hm.chunks] at hc
    exact .inl hc
  current _ _ _ := Iff.rfl
  recycling _ _ _ := Iff.rfl
  recycled c' _ _ ho' := by
    apply hm.other
    intro heq
    rw [heq, ho] at ho'
    cases ho'
    exact hu rfl
  held _ _ hh := ⟨hh.2.1, hh.2.2, id⟩
  pool b := by
    rw [show m'.pops b = m.pops b from (hlinks b).count]
    exact .refl

/-- **A step of the thread that recycles a chunk** changes only what is the chunk's. -/
theorem Inv.recycle (h : Inv s g) {m' : Memory} {pc : Pc} (hm : Touches c s.shared m')
    (hlinks : ∀ b, LinksOk (m'.links b) (s.shared.pops b) (g.pooled b))
    (ho : g.owner c = .recycling t) (hrecycles : ∀ c', (s.locals t).pc.Recycles c' → c' = c)
    (hpc : PcOk m' g t (s.locals t) pc) (hreset : pc.Recycles c ∧ pc.Reset m' c)
    (hreplaces : ∀ c', ¬ (s.locals t).pc.Replaces c')
    (hclaims : ∀ b, pc.claims b = (s.locals t).pc.claims b)
    (hfails : ∀ b, pc.fails b = (s.locals t).pc.fails b) :
    Inv (s.set t m' ((s.locals t).goto pc)) g := by
  obtain ⟨-, htls, hcurrent, hrec⟩ := h.thread t
  refine h.set (fun u hu => .recycle hm hlinks ho hu) (h.memory.recycle hm hlinks ho)
    ⟨hpc, fun b c' hc => ?_, fun b c' hc => ?_, fun b c' hc ho' => ?_⟩
    fun b => (h.count b).set ?_ (.inr ?_)
  · obtain ⟨hchunk, ho'⟩ := htls b c' hc
    rw [hm.chunks]
    exact ⟨hchunk, .inl (ho'.resolve_right (hreplaces c'))⟩
  · rw [hm.chunks] at hc
    exact hcurrent b c' hc
  · rw [hm.chunks] at hc
    rw [hrecycles c' (hrec b c' hc ho').1]
    exact hreset
  · simp only [Local.goto, hm.count, hclaims, hfails]
  · simp only [Local.goto, hm.count, hfails, le_refl]

theorem Inv.resetAllocCount (h : Inv s g) (hpc : (s.locals t).pc = .resetAllocCount size c) :
    Inv (s.set t { s.shared with mAllocCount := Function.update s.shared.mAllocCount c 0 }
      ((s.locals t).goto (.resetFreeCount size c))) g := by
  have hok := (h.thread t).pc
  rw [hpc] at hok
  refine h.recycle (c := c) ⟨rfl, fun _ => rfl, rfl, fun c' hne => ⟨?_, rfl, rfl⟩⟩ h.memory.links
    hok.2 ?_ hok ⟨rfl, ?_⟩ ?_ ?_ ?_
  · exact Function.update_of_ne hne _ _
  · rw [hpc]
    exact fun c' heq => heq.symm
  · exact Function.update_self _ _ _
  all_goals
    rw [hpc]
    first | exact fun _ => id | exact fun _ => rfl

theorem Inv.resetFreeCount (h : Inv s g) (hpc : (s.locals t).pc = .resetFreeCount size c) :
    Inv (s.set t { s.shared with mFreeCount := Function.update s.shared.mFreeCount c 0 }
      ((s.locals t).goto (.poolFree .readNode size c))) g := by
  have hok := (h.thread t).pc
  obtain ⟨-, hreset⟩ := (h.thread t).recycling _ c (by rw [hpc] at hok; exact hok.1)
    (by rw [hpc] at hok; exact hok.2)
  rw [hpc] at hok hreset
  refine h.recycle (c := c) ⟨rfl, fun _ => rfl, rfl, fun c' hne => ⟨rfl, ?_, rfl⟩⟩ h.memory.links
    hok.2 ?_ ⟨hok.1, hok.2, trivial⟩ ⟨rfl, hreset, ?_⟩ ?_ ?_ ?_
  · exact Function.update_of_ne hne _ _
  · rw [hpc]
    exact fun c' heq => heq.symm
  · exact Function.update_self _ _ _
  all_goals
    rw [hpc]
    first | exact fun _ => id | exact fun _ => rfl

omit [DecidableEq τ] in
theorem MemoryOk.notMem_pooled (h : MemoryOk m g) (ho : g.owner c = .recycling t) (b : Bucket) :
    c ∉ g.pooled b := by
  intro hmem
  rw [(h.pooled b c hmem).2] at ho
  cases ho

/-- A step of the loop of `ObjectPool::Free` after which the chunk is not in the pool yet. -/
theorem Inv.pushRead (h : Inv s g) {step step' : PushStep} {links : Links Nat}
    (hpc : (s.locals t).pc = .poolFree step size c)
    (hlinks : LinksOk links (s.shared.pops (bucketOf size)) (g.pooled (bucketOf size)))
    (hother : ∀ c', c' ≠ c → links.pNextNode c' = s.shared.pNextNode c')
    (hpush : PushOk links c step') :
    Inv (s.set t (s.shared.setLinks (bucketOf size) links)
      ((s.locals t).goto (.poolFree step' size c))) g := by
  have hok := (h.thread t).pc
  rw [hpc] at hok
  obtain ⟨hc, ho, -⟩ := hok
  obtain ⟨-, hreset⟩ := (h.thread t).recycling _ c hc ho
  rw [hpc] at hreset
  refine h.recycle
    ⟨rfl, fun _ => setLinks_mPoolingCount, rfl, fun c' hne => ⟨rfl, rfl, hother c' hne⟩⟩
    (fun b => ?_) ho ?_ ⟨hc, ho, ?_⟩ ⟨rfl, hreset⟩ ?_ ?_ ?_
  · by_cases hb : b = bucketOf size
    · subst hb
      rw [setLinks_self]
      exact hlinks
    · refine (h.memory.links b).congr (setLinks_other hb) fun c' hmem => hother c' ?_
      exact fun heq => h.memory.notMem_pooled ho b (heq ▸ hmem)
  · rw [hpc]
    exact fun c' heq => heq.symm
  · rw [setLinks_self]
    exact hpush
  all_goals
    rw [hpc]
    first | exact fun _ => id | exact fun _ => rfl

/-! ## Back in the pool -/

omit [DecidableEq τ] in
theorem MemoryOk.push (h : MemoryOk m g) (hc : m.chunks c = some b) (ho : g.owner c = .recycling t)
    (halloc : m.mAllocCount c = 0) (hfree : m.mFreeCount c = 0) {links : Links Nat}
    (hnext : links.pNextNode = m.pNextNode)
    (hlinks : LinksOk links (m.pops b) (c :: g.pooled b)) :
    MemoryOk (m.setLinks b links) ((g.give c .pooled).setPooled b (c :: g.pooled b)) := by
  have hout : g.out c = ∅ := by
    have hstate := h.chunk c b hc
    rw [ho] at hstate
    exact hstate
  refine ⟨fun c' b' hc' => ?_, h.index, h.live, h.nodup, fun b' => ?_, fun b' c' hmem => ?_,
    h.apart⟩
  · rw [Ghost.setPooled_owner]
    by_cases hne : c' = c
    · subst hne
      cases hc.symm.trans (hc' : m.chunks c' = some b')
      rw [Ghost.give_self]
      refine ⟨?_, halloc, hfree, hout⟩
      rw [Ghost.setPooled_self]
      exact List.mem_cons_self
    · rw [Ghost.give_other _ hne]
      refine (h.chunk c' b' hc').congr rfl rfl rfl fun _ hmem => ?_
      by_cases hb : b' = b
      · subst hb
        rw [Ghost.setPooled_self]
        exact List.mem_cons_of_mem _ hmem
      · rw [Ghost.setPooled_other _ hb]
        exact hmem
  · by_cases hb : b' = b
    · subst hb
      rw [setLinks_self, setLinks_pops, Ghost.setPooled_self, hlinks.count]
      exact hlinks
    · rw [Ghost.setPooled_other _ hb]
      exact h.links_other hb fun c' _ => congrFun hnext c'
  · rw [Ghost.setPooled_owner]
    by_cases hne : c' = c
    · subst hne
      rw [Ghost.give_self]
      refine ⟨?_, rfl⟩
      by_cases hb : b' = b
      · subst hb
        exact hc
      · rw [Ghost.setPooled_other _ hb] at hmem
        exact absurd hmem (h.notMem_pooled ho b')
    · rw [Ghost.give_other _ hne]
      apply h.pooled b' c'
      by_cases hb : b' = b
      · subst hb
        rw [Ghost.setPooled_self] at hmem
        exact (List.mem_cons.1 hmem).resolve_left hne
      · rw [Ghost.setPooled_other _ hb] at hmem
        exact hmem

omit [DecidableEq τ] in
theorem Rely.push (ho : g.owner c = .recycling t) (hu : u ≠ t) {links : Links Nat}
    (hnext : links.pNextNode = m.pNextNode)
    (hlinks : LinksOk links (m.pops b) (c :: g.pooled b)) :
    Rely u m g (m.setLinks b links) ((g.give c .pooled).setPooled b (c :: g.pooled b)) := by
  have hnot : ∀ c', g.owner c' = .recycling u ∨ g.owner c' = .handedOut → c' ≠ c := by
    intro c' ho' heq
    rw [heq, ho] at ho'
    rcases ho' with ho' | ho' <;> cases ho'
    exact hu rfl
  refine ⟨fun _ _ h => h, fun _ _ h => .inl h, fun _ _ _ => ?_, fun _ _ _ => ?_,
    fun c' _ _ _ => ⟨rfl, rfl, congrFun hnext c'⟩,
    fun n block hh => ⟨hh.2.1, hh.2.2, fun hout => ?_⟩, fun b' => ?_⟩
  · apply g.give_iff
    · rw [ho]
      exact nofun
    · exact nofun
  · apply g.give_iff
    · exact fun heq => hnot c (.inl heq) rfl
    · exact nofun
  · rw [Ghost.setPooled_owner, Ghost.give_other _ (hnot _ (.inr hout))]
    exact hout
  · by_cases hb : b' = b
    · subst hb
      rw [setLinks_pops, Ghost.setPooled_self, hlinks.count]
      exact .push c
    · rw [setLinks_pops_other hb, Ghost.setPooled_other _ hb]
      exact .refl

theorem Inv.push (h : Inv s g) {step : PushStep} {links : Links Nat}
    (hpc : (s.locals t).pc = .poolFree step size c) (hnext : links.pNextNode = s.shared.pNextNode)
    (hlinks : LinksOk links (s.shared.pops (bucketOf size)) (c :: g.pooled (bucketOf size))) :
    ∃ g', Inv (s.set t (s.shared.setLinks (bucketOf size) links)
      ((s.locals t).goto (.poolCount size))) g' := by
  have hok := (h.thread t).pc
  rw [hpc] at hok
  obtain ⟨hc, ho, -⟩ := hok
  obtain ⟨-, htls, hcurrent, hrec⟩ := h.thread t
  have hreset := (hrec _ c hc ho).2
  rw [hpc] at htls hrec hreset
  have hown : ∀ c' o, o ≠ Owner.pooled →
      (((g.give c .pooled).setPooled (bucketOf size) (c :: g.pooled (bucketOf size))).owner c' = o ↔
        g.owner c' = o ∧ c' ≠ c) := by
    intro c' o hne
    rw [Ghost.setPooled_owner]
    by_cases hcc : c' = c
    · subst hcc
      rw [Ghost.give_self]
      exact ⟨fun heq => absurd heq.symm hne, fun heq => absurd rfl heq.2⟩
    · rw [Ghost.give_other _ hcc]
      exact ⟨fun heq => ⟨heq, hcc⟩, fun heq => heq.1⟩
  refine ⟨(g.give c .pooled).setPooled (bucketOf size) (c :: g.pooled (bucketOf size)),
    h.set (fun u hu => .push ho hu hnext hlinks)
      (h.memory.push hc ho hreset.1 hreset.2 hnext hlinks)
      ⟨trivial, fun b c' hc' => ?_, fun b c' hc' ho' => ?_, fun b c' hc' ho' => ?_⟩
      fun b => (h.count b).set ?_ (.inr ?_)⟩
  · obtain ⟨hchunk, ho'⟩ := htls b c' hc'
    have hown' := ho'.resolve_right id
    refine ⟨hchunk, .inl ((hown c' (.current t) nofun).2 ⟨hown', ?_⟩)⟩
    intro heq
    rw [heq, ho] at hown'
    cases hown'
  · exact hcurrent b c' hc' ((hown c' (.current t) nofun).1 ho').1
  · obtain ⟨hold, hne⟩ := (hown c' (.recycling t) nofun).1 ho'
    exact absurd (hrec b c' hc' hold).1.symm hne
  · rw [hpc, setLinks_mPoolingCount]
    simp only [Local.goto, Pc.claims, Pc.fails]
    by_cases hb : b = bucketOf size
    · subst hb
      rw [Ghost.setPooled_self, List.length_cons, if_pos rfl]
      push_cast
      omega
    · rw [Ghost.setPooled_other _ hb, if_neg (Ne.symm hb), Ghost.give_pooled]
  · rw [hpc, setLinks_mPoolingCount]
    exact Int.le_refl _

/-- **A step of the loop of `ObjectPool::Free`** goes on, or puts the chunk on top of the pool. -/
theorem Inv.pushLoop (h : Inv s g) {spurious : Bool} {step : PushStep} {links : Links Nat}
    {r : Option PushStep} (hpc : (s.locals t).pc = .poolFree step size c)
    (hs : pushStep spurious (s.shared.links (bucketOf size)) c step = (links, r)) :
    ∃ g', Inv (s.set t (s.shared.setLinks (bucketOf size) links)
      ((s.locals t).goto (r.elim (.poolCount size) fun step => .poolFree step size c))) g' := by
  have hok := (h.thread t).pc
  rw [hpc] at hok
  obtain ⟨-, ho, hpush⟩ := hok
  obtain ⟨step', rfl, hstep', hlinks, hother⟩ | ⟨rfl, hnext, hlinks⟩ :=
    pushStep_cases hs (h.memory.links _) (h.memory.notMem_pooled ho _) hpush
  · exact ⟨g, h.pushRead hpc hlinks hother hstep'⟩
  · exact h.push hpc hnext hlinks

theorem Inv.poolCount (h : Inv s g) (hpc : (s.locals t).pc = .poolCount size) :
    Inv (s.set t (s.shared.addPooling (bucketOf size) 1) ((s.locals t).goto .idle)) g := by
  refine h.addPooling trivial ?_ ?_ ?_ (.inr ?_) ?_ <;> rw [hpc]
  · exact fun c => id
  · exact fun c => id
  · intro b'
    simp only [Pc.claims, Pc.fails, eq_comm (a := b')]
    split <;> rfl
  · intro b'
    simp only [Pc.fails]
    split <;> decide
  · exact fun b' _ => rfl

end Steps

end CppNetEngine.MemoryAllocator
