import CppNetEngine.Memory.Proof.Taking

/-!
# Handing out blocks

`Chunk::GetData`, and the calls of `Alloc` and `Free` at either end, keep the invariant of the
memory allocator. `GetData` puts a block out, with the thread (`Inv.getData`); `Alloc` returns it to
its caller (`Inv.ret`), who gives it to a thread to free it (`Inv.free`).
-/

namespace CppNetEngine.MemoryAllocator

variable {τ : Type} {m : Memory} {g : Ghost τ} {t u : τ} {b : Bucket} {c size : Nat}
  {pData : Block}

/-! ## `GetData` -/

/-- The owner of a chunk after `GetData` for its block `n`. -/
def afterGetData (t : τ) (n : Nat) : Owner τ := if n + 1 = chunkSize then .handedOut else .current t

/-- Block `n` of the chunk is handed out to the thread. -/
def Ghost.handOut (g : Ghost τ) (t : τ) (c n : Nat) : Ghost τ :=
  ((g.setOut c (insert n (g.out c))).setHolder ⟨c, n⟩ (some t)).give c (afterGetData t n)

theorem mem_handOut {n i c' : Nat} (h : i ∈ g.out c') : i ∈ (g.handOut t c n).out c' := by
  by_cases hc : c' = c
  · subst hc
    simp only [Ghost.handOut, Ghost.give_out, Ghost.setHolder_out, Ghost.setOut_self]
    exact Finset.mem_insert_of_mem h
  · simp only [Ghost.handOut, Ghost.give_out, Ghost.setHolder_out, Ghost.setOut_other _ hc]
    exact h

/-- Blocks that are out already keep their holders. -/
theorem MemoryOk.holder_handOut (h : MemoryOk m g) (hc : m.chunks c = some b) {block : Block}
    (hout : block.index ∈ g.out block.pChunk) :
    (g.handOut t c (m.mAllocCount c)).holder block = g.holder block := by
  refine Ghost.setHolder_other _ ?_
  intro heq
  subst heq
  exact absurd (h.index c b hc _ hout) (Nat.lt_irrefl _)

theorem MemoryOk.getData (h : MemoryOk m g) (hc : m.chunks c = some b)
    (ho : g.owner c = .current t) :
    MemoryOk { m with mAllocCount := Function.update m.mAllocCount c (m.mAllocCount c + 1) }
      (g.handOut t c (m.mAllocCount c)) := by
  have hstate := h.chunk c b hc
  rw [ho] at hstate
  obtain ⟨hlt, hcard⟩ := hstate
  have hfresh : m.mAllocCount c ∉ g.out c := fun hmem =>
    absurd (h.index c b hc _ hmem) (Nat.lt_irrefl _)
  refine ⟨fun c' b' hc' => ?_, fun c' b' hc' i hi => ?_, fun block n hlive => ?_, h.nodup,
    h.links, fun b' c' hmem => ?_, h.apart⟩
  · by_cases hne : c' = c
    · subst hne
      have hcard' : (insert (m.mAllocCount c') (g.out c')).card = (g.out c').card + 1 :=
        Finset.card_insert_of_notMem hfresh
      rw [Ghost.handOut, Ghost.give_self, afterGetData]
      split <;> simp only [ChunkOk, Ghost.give_out, Ghost.setHolder_out, Ghost.setOut_self,
        Function.update_self, hcard'] <;> omega
    · rw [Ghost.handOut, Ghost.give_other _ hne]
      refine (h.chunk c' b' hc').congr (Function.update_of_ne hne _ _) rfl ?_ fun _ => id
      exact Ghost.setOut_other _ hne
  · by_cases hne : c' = c
    · subst hne
      simp only [Ghost.handOut, Ghost.give_out, Ghost.setHolder_out, Ghost.setOut_self] at hi
      simp only [Function.update_self]
      rcases Finset.mem_insert.1 hi with rfl | hi
      · exact Nat.lt_succ_self _
      · exact Nat.lt_succ_of_lt (h.index c' b hc i hi)
    · simp only [Ghost.handOut, Ghost.give_out, Ghost.setHolder_out, Ghost.setOut_other _ hne] at hi
      simp only [Function.update_of_ne hne]
      exact h.index c' b' hc' i hi
  · obtain ⟨hchunk, hout, hholder⟩ := h.live block n hlive
    refine ⟨hchunk, mem_handOut hout, ?_⟩
    rw [h.holder_handOut hc hout]
    exact hholder
  · obtain ⟨hchunk, howner⟩ := h.pooled b' c' hmem
    refine ⟨hchunk, ?_⟩
    rw [Ghost.handOut, Ghost.give_other]
    · exact howner
    · intro heq
      subst heq
      rw [ho] at howner
      cases howner

theorem Rely.getData (h : MemoryOk m g) (hc : m.chunks c = some b) (ho : g.owner c = .current t)
    (hu : u ≠ t) : Rely u m g
      { m with mAllocCount := Function.update m.mAllocCount c (m.mAllocCount c + 1) }
      (g.handOut t c (m.mAllocCount c)) := by
  have hcurrent : ∀ o : Owner τ, (o = .current u ∨ o = .recycling u) →
      g.owner c ≠ o ∧ afterGetData t (m.mAllocCount c) ≠ o := by
    rintro o (rfl | rfl) <;> rw [ho, afterGetData]
    · refine ⟨?_, ?_⟩
      · intro heq
        cases heq
        exact hu rfl
      · split
        · exact nofun
        · intro heq
          cases heq
          exact hu rfl
    · refine ⟨nofun, ?_⟩
      split <;> exact nofun
  refine ⟨fun _ _ h => h, fun _ _ h => .inl h, fun _ _ _ => ?_, fun _ _ _ => ?_,
    fun c' _ _ howner => ⟨?_, rfl, rfl⟩, fun n block hh => ⟨mem_handOut hh.2.1, ?_, fun hout => ?_⟩,
    fun _ => .refl⟩
  · obtain ⟨hold, hnew⟩ := hcurrent (.current u) (.inl rfl)
    exact Ghost.give_iff _ hold hnew
  · obtain ⟨hold, hnew⟩ := hcurrent (.recycling u) (.inr rfl)
    exact Ghost.give_iff _ hold hnew
  · refine Function.update_of_ne ?_ _ _
    intro heq
    subst heq
    exact (hcurrent _ (.inr rfl)).1 howner
  · rw [h.holder_handOut hc hh.2.1]
    exact hh.2.2
  · rw [Ghost.handOut, Ghost.give_other]
    · exact hout
    · intro heq
      rw [heq, ho] at hout
      cases hout

/-- **A block is handed out**; the current chunk is not exhausted. -/
theorem Inv.getData [DecidableEq τ] {s : State τ} (h : Inv s g)
    (hpc : (s.locals t).pc = .getData size)
    (htls : (s.locals t).spTlsChunk (bucketOf size) = some c) :
    ∃ g', Inv (s.set t (getDataStep s.shared (s.locals t) size c).1
      (getDataStep s.shared (s.locals t) size c).2) g' := by
  have hok := (h.thread t).pc
  rw [hpc] at hok
  obtain ⟨c', hc', howner⟩ := hok
  rw [htls] at hc'
  cases hc'
  have hc := ((h.thread t).tls _ _ htls).1
  have hstate := h.memory.chunk c _ hc
  rw [howner] at hstate
  have hlt : ¬ chunkSize ≤ s.shared.mAllocCount c := Nat.not_le_of_lt hstate.1
  have hheld : Holds s.shared (g.handOut t c (s.shared.mAllocCount c)) t size
      ⟨c, s.shared.mAllocCount c⟩ := by
    refine ⟨hc, ?_, Ghost.setHolder_self _⟩
    simp only [Ghost.handOut, Ghost.give_out, Ghost.setHolder_out, Ghost.setOut_self]
    exact Finset.mem_insert_self _ _
  have hother : ∀ c', c' ≠ c →
      (g.handOut t c (s.shared.mAllocCount c)).owner c' = g.owner c' := fun c' hne =>
    Ghost.give_other _ hne
  have hself : (g.handOut t c (s.shared.mAllocCount c)).owner c =
      afterGetData t (s.shared.mAllocCount c) := Ghost.give_self _
  rw [getDataStep, if_neg hlt]
  refine ⟨g.handOut t c (s.shared.mAllocCount c), h.set (fun u hu => .getData h.memory hc howner hu)
    (h.memory.getData hc howner) ⟨?_, fun b c' htls' => ?_, fun b c' hc' ho' => ?_,
      fun b c' hc' ho' => ?_⟩ fun b => (h.count b).set ?_ (.inr ?_)⟩
  · split <;> rename_i hlast
    · rw [afterGetData, if_pos hlast] at hself
      exact ⟨trivial, hheld, htls, hself⟩
    · exact ⟨_, rfl, hheld⟩
  · obtain ⟨hc', ho'⟩ := (h.thread t).tls b c' htls'
    refine ⟨hc', ?_⟩
    by_cases hne : c' = c
    · subst hne
      rw [hself, afterGetData]
      split
      · exact .inr rfl
      · exact .inl rfl
    · rw [hother c' hne]
      rw [hpc] at ho'
      exact .inl (ho'.resolve_right id)
  · by_cases hne : c' = c
    · subst hne
      rw [hc] at hc'
      cases hc'
      exact htls
    · rw [hother c' hne] at ho'
      exact (h.thread t).current b c' hc' ho'
  · have hne : c' ≠ c := by
      intro heq
      subst heq
      rw [hself, afterGetData] at ho'
      split at ho' <;> cases ho'
    rw [hother c' hne] at ho'
    have hrec := ((h.thread t).recycling b c' hc' ho').1
    rw [hpc] at hrec
    exact hrec.elim
  · rw [hpc]
    simp only [Local.goto]
    split <;> rfl
  · rw [hpc]
    simp only [Local.goto]
    split <;> exact Int.le_refl _

/-! ## Blocks and their callers -/

/-- Block `block` is in other hands, and the callers have others. -/
theorem MemoryOk.setHolder (h : MemoryOk m g) {block : Block} {o : Option τ}
    {live : List (Block × Nat)} (hnodup : (live.map Prod.fst).Nodup)
    (hlive : ∀ pData n, (pData, n) ∈ live → m.chunks pData.pChunk = some (bucketOf n) ∧
      pData.index ∈ g.out pData.pChunk ∧ (g.setHolder block o).holder pData = none) :
    MemoryOk { m with live := live } (g.setHolder block o) where
  chunk c b hc := (h.chunk c b hc).congr rfl rfl rfl fun _ => id
  index := h.index
  live := hlive
  nodup := hnodup
  links := h.links
  pooled := h.pooled
  apart := h.apart

theorem Rely.setHolder {block : Block} {o : Option τ} {live : List (Block × Nat)}
    (hblock : g.holder block ≠ some u) :
    Rely u m g { m with live := live } (g.setHolder block o) where
  chunks _ _ h := h
  fresh _ _ h := .inl h
  current _ _ _ := Iff.rfl
  recycling _ _ _ := Iff.rfl
  recycled _ _ _ _ := ⟨rfl, rfl, rfl⟩
  held _ pData hh := by
    refine ⟨hh.2.1, ?_, id⟩
    rw [Ghost.setHolder_other _ (by rintro rfl; exact hblock hh.2.2)]
    exact hh.2.2
  pool _ := .refl

theorem notMem_erase {live : List (Block × Nat)} (hnodup : (live.map Prod.fst).Nodup)
    (hmem : (pData, size) ∈ live) (n : Nat) : (pData, n) ∉ live.erase (pData, size) := by
  intro hmem'
  obtain ⟨hne, hin⟩ := (hnodup.of_map _).mem_erase_iff.1 hmem'
  exact hne (List.inj_on_of_nodup_map hnodup hin hmem rfl)

section Callers

variable [DecidableEq τ] {s : State τ}

/-- **`Alloc` returns a block**, which is its caller's from then on. -/
theorem Inv.ret (h : Inv s g) (hpc : (s.locals t).pc = .ret size (some pData)) :
    Inv (s.set t { s.shared with live := (pData, size) :: s.shared.live }
      ((s.locals t).goto .idle)) (g.setHolder pData none) := by
  have hok := (h.thread t).pc
  rw [hpc] at hok
  obtain ⟨_, hblock, hchunk, hout, hholder⟩ := hok
  cases hblock
  have hnot : ∀ block n, (block, n) ∈ s.shared.live → block ≠ pData := by
    rintro block n hmem rfl
    rw [(h.memory.live _ _ hmem).2.2] at hholder
    cases hholder
  refine h.set (fun u hu => .setHolder ?_) (h.memory.setHolder ?_ fun block n hmem => ?_) ?_
    fun b => (h.count b).set ?_ (.inr ?_)
  · rw [hholder]
    intro heq
    cases heq
    exact hu rfl
  · refine List.nodup_cons.2 ⟨fun hmem => ?_, h.memory.nodup⟩
    obtain ⟨⟨block, n⟩, hmem, hblock⟩ := List.mem_map.1 hmem
    exact hnot block n hmem hblock
  · rcases List.mem_cons.1 hmem with heq | hmem
    · cases heq
      exact ⟨hchunk, hout, Ghost.setHolder_self _⟩
    · obtain ⟨hchunk', hout', hholder'⟩ := h.memory.live _ _ hmem
      refine ⟨hchunk', hout', ?_⟩
      rw [Ghost.setHolder_other _ (hnot _ _ hmem)]
      exact hholder'
  · obtain ⟨-, htls, hcurrent, hrec⟩ := h.thread t
    rw [hpc] at htls hrec
    exact ⟨trivial, htls, hcurrent, hrec⟩
  · rw [hpc]
    rfl
  · rw [hpc]
    exact Int.le_refl _

/-- **`Free` is called**: the thread has the block. -/
theorem Inv.free (h : Inv s g) (hpc : (s.locals t).pc = .idle)
    (hmem : (pData, size) ∈ s.shared.live) :
    Inv (s.set t { s.shared with live := s.shared.live.erase (pData, size) }
      ((s.locals t).goto (.freeWithIsAllFreed size pData))) (g.setHolder pData (some t)) := by
  obtain ⟨hchunk, hout, hholder⟩ := h.memory.live _ _ hmem
  refine h.set (fun u hu => .setHolder ?_) (h.memory.setHolder ?_ fun block n hmem' => ?_) ?_
    fun b => (h.count b).set ?_ (.inr ?_)
  · rw [hholder]
    exact nofun
  · exact h.memory.nodup.sublist (List.erase_sublist.map _)
  · obtain ⟨hchunk', hout', hholder'⟩ := h.memory.live _ _ (List.mem_of_mem_erase hmem')
    refine ⟨hchunk', hout', ?_⟩
    rw [Ghost.setHolder_other]
    · exact hholder'
    · intro heq
      subst heq
      exact notMem_erase h.memory.nodup hmem n hmem'
  · obtain ⟨-, htls, hcurrent, hrec⟩ := h.thread t
    rw [hpc] at htls hrec
    exact ⟨⟨hchunk, hout, Ghost.setHolder_self _⟩, htls, hcurrent, hrec⟩
  · rw [hpc]
    rfl
  · rw [hpc]
    exact Int.le_refl _

end Callers

end CppNetEngine.MemoryAllocator
