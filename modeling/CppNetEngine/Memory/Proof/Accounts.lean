import CppNetEngine.Memory.Proof.Disjoint

/-!
# No chunk is lost

Where the chunks of the memory allocator are, in every run of any number of threads. As long as
nobody recycles a chunk, `mAllocCount` is what callers of `Free` have given back, what callers of
`Alloc` have, and what threads carry between the two (`Balanced`, kept by `Inv.account`). So a chunk
that is neither in its pool nor current is exhausted and has a block that is not yet freed, or one
thread is giving it to the pool (`chunks_accounted`). When no call is running and no block is out,
every chunk can be allocated from.
-/

namespace CppNetEngine.MemoryAllocator

open TopNode

variable {τ : Type} {s : State τ} {g : Ghost τ} {t : τ} {m : Memory} {l : Local} {c : Nat}
  {b : Bucket}

/-! ## Blocks of a chunk -/

/-- The blocks of a chunk that callers have. -/
def Memory.liveOf (m : Memory) (c : Nat) : Nat := m.live.countP fun x => x.1.pChunk = c

/-- The thread has a block of the chunk that `Alloc` will return, or that `Free` will count. -/
def Pc.carries (c : Nat) : Pc → Nat
  | .poolAlloc _ _ (some pData) | .ret _ (some pData) | .freeWithIsAllFreed _ pData =>
    if pData.pChunk = c then 1 else 0
  | _ => 0

/-- What was handed out of a chunk was freed, is with a caller, or is carried by a thread. -/
def Balanced (s : State τ) (c : Nat) : Prop :=
  ∃ n, Threads.Total s (fun l => l.pc.carries c) n ∧
    s.shared.mAllocCount c = s.shared.mFreeCount c + (s.shared.liveOf c + n)

/-- Every chunk that nobody recycles is balanced. -/
def Accounts (s : State τ) : Prop :=
  ∀ c b, s.shared.chunks c = some b → (∀ t, ¬ (s.locals t).pc.Recycles c) → Balanced s c

theorem carries_some {pc : Pc} (h : 0 < pc.carries c) :
    ∃ size pData, pData.pChunk = c ∧ ((∃ step, pc = .poolAlloc step size (some pData)) ∨
      pc = .ret size (some pData) ∨ pc = .freeWithIsAllFreed size pData) := by
  unfold Pc.carries at h
  split at h
  · rename_i step size pData
    exact ⟨size, pData, of_not_not fun hne => by simp [hne] at h, .inl ⟨step, rfl⟩⟩
  · rename_i size pData
    exact ⟨size, pData, of_not_not fun hne => by simp [hne] at h, .inr (.inl rfl)⟩
  · rename_i size pData
    exact ⟨size, pData, of_not_not fun hne => by simp [hne] at h, .inr (.inr rfl)⟩
  · exact absurd h (Nat.lt_irrefl 0)

theorem ThreadOk.holds_of_carries (h : ThreadOk m g t l) (hcarries : 0 < l.pc.carries c) :
    ∃ size pData, pData.pChunk = c ∧ Holds m g t size pData := by
  obtain ⟨size, pData, hc, hpc⟩ := carries_some hcarries
  have hok := h.pc
  refine ⟨size, pData, hc, ?_⟩
  rcases hpc with ⟨step, hpc⟩ | hpc | hpc <;> rw [hpc] at hok
  · exact hok.2.1
  · obtain ⟨block, hblock, hh⟩ := hok
    cases hblock
    exact hh
  · exact hok

/-- If no block of a chunk is out, no caller has one and no thread carries one. -/
theorem Inv.settled (h : Inv s g) (hout : g.out c = ∅) :
    s.shared.liveOf c = 0 ∧ ∀ t, (s.locals t).pc.carries c = 0 := by
  refine ⟨List.countP_eq_zero.2 fun x hx => ?_, fun t => ?_⟩
  · intro heq
    have hc : x.1.pChunk = c := of_decide_eq_true heq
    have hmem := (h.memory.live x.1 x.2 hx).2.1
    rw [hc, hout] at hmem
    exact Finset.notMem_empty _ hmem
  · by_contra hne
    obtain ⟨size, pData, hc, hh⟩ := (h.thread t).holds_of_carries (Nat.pos_of_ne_zero hne)
    have hmem := hh.2.1
    rw [hc, hout] at hmem
    exact Finset.notMem_empty _ hmem

/-- A chunk of which nothing was handed out is balanced. -/
theorem Inv.balanced_of_zero (h : Inv s g) (hc : s.shared.chunks c = some b)
    (halloc : s.shared.mAllocCount c = 0) (hfree : s.shared.mFreeCount c = 0) : Balanced s c := by
  have hout : g.out c = ∅ := by
    refine Finset.eq_empty_of_forall_notMem fun i hi => ?_
    have hlt := h.memory.index c b hc i hi
    omega
  obtain ⟨hlive, hcarries⟩ := h.settled hout
  exact ⟨0, .zero hcarries, by omega⟩

/-! ## A step -/

/-- What a step hands out, takes back and passes on of a chunk. -/
def Balances (c : Nat) (m : Memory) (l : Local) (m' : Memory) (l' : Local) : Prop :=
  m'.mAllocCount c + m.mFreeCount c + m.liveOf c + l.pc.carries c =
    m.mAllocCount c + m'.mFreeCount c + m'.liveOf c + l'.pc.carries c

/-- The step keeps the balance of a chunk that was there, and that its thread did not recycle. -/
structure Settles (c : Nat) (b : Bucket) (m : Memory) (l : Local) (m' : Memory) (l' : Local) :
    Prop where
  chunk : m.chunks c = some b
  recycles : ¬ l.pc.Recycles c
  balances : Balances c m l m' l'

theorem Balances.of_eq {m' : Memory} {l' : Local} (halloc : m'.mAllocCount c = m.mAllocCount c)
    (hfree : m'.mFreeCount c = m.mFreeCount c) (hlive : m'.live = m.live)
    (hcarries : l'.pc.carries c = l.pc.carries c) : Balances c m l m' l' := by
  unfold Balances Memory.liveOf
  rw [halloc, hfree, hlive, hcarries]

theorem carries_install {size a : Nat} {pData : Option Block} {step : AllocStep} :
    (l.install size pData a).pc.carries c = (Pc.poolAlloc step size pData).carries c := by
  cases pData <;> rfl

theorem poolAllocStep_account {k : Outside} {size : Nat} {pData : Option Block} {step : AllocStep}
    {m' : Memory} {l' : Local} (hpc : l.pc = .poolAlloc step size pData)
    (hs : poolAllocStep k m l size pData step = some (m', l')) (hc : m'.chunks c = some b) :
    (m'.mAllocCount c = 0 ∧ m'.mFreeCount c = 0) ∨ Settles c b m l m' l' := by
  have hrec : ¬ l.pc.Recycles c := by
    rw [hpc]
    exact id
  cases step with
  | fetchSub | fetchAdd =>
    cases hs
    exact .inr ⟨hc, hrec, .of_eq rfl rfl rfl (by rw [hpc]; cases pData <;> rfl)⟩
  | allocNode =>
    cases hs
    by_cases hne : c = k.address
    · subst hne
      exact .inl ⟨Function.update_self _ _ _, Function.update_self _ _ _⟩
    · refine .inr ⟨?_, hrec, .of_eq ?_ ?_ rfl ?_⟩
      · exact (Function.update_of_ne hne _ _).symm.trans hc
      · exact Function.update_of_ne hne _ _
      · exact Function.update_of_ne hne _ _
      · rw [hpc, carries_install]
  | pop step =>
    obtain ⟨⟨links, r⟩, -, hs⟩ := Option.map_eq_some_iff.1 hs
    cases hs
    refine .inr ⟨hc, hrec, .of_eq rfl rfl rfl ?_⟩
    rw [hpc]
    cases r with
    | inl step' => cases pData <;> rfl
    | inr pNode => exact carries_install

/-- A thread gives a chunk to the pool, whose counters are reset. -/
theorem poolFreeStep_account (k : Outside) {size pChunk : Nat} {step : PushStep}
    (hpc : l.pc = .poolFree step size pChunk)
    (hreset : m.mAllocCount pChunk = 0 ∧ m.mFreeCount pChunk = 0) (hc : m.chunks c = some b) :
    (m.mAllocCount c = 0 ∧ m.mFreeCount c = 0) ∨ Settles c b m l
      (poolFreeStep k m l size pChunk step).1 (poolFreeStep k m l size pChunk step).2 := by
  by_cases hne : pChunk = c
  · subst hne
    exact .inl hreset
  · refine .inr ⟨hc, by rw [hpc]; exact hne, .of_eq rfl rfl rfl ?_⟩
    rw [hpc]
    simp only [poolFreeStep, Local.goto]
    cases (pushStep k.spurious (m.links (bucketOf size)) pChunk step).2 <;> rfl

theorem getDataStep_account {size : Nat} (pChunk : Nat) (hpc : l.pc = .getData size)
    (hc : m.chunks c = some b) :
    Settles c b m l (getDataStep m l size pChunk).1 (getDataStep m l size pChunk).2 := by
  have hrec : ¬ l.pc.Recycles c := by
    rw [hpc]
    exact id
  unfold getDataStep
  dsimp only
  split
  · exact ⟨hc, hrec, .of_eq rfl rfl rfl (by rw [hpc]; rfl)⟩
  · refine ⟨hc, hrec, ?_⟩
    have hcarries : ((l.goto (if m.mAllocCount pChunk + 1 = chunkSize then
        .poolAlloc .fetchSub size (some ⟨pChunk, m.mAllocCount pChunk⟩)
        else .ret size (some ⟨pChunk, m.mAllocCount pChunk⟩))).pc.carries c) =
          if pChunk = c then 1 else 0 := by
      simp only [Local.goto]
      split <;> rfl
    unfold Balances
    rw [hcarries, hpc]
    simp only [Memory.liveOf, Pc.carries]
    by_cases hne : c = pChunk
    · subst hne
      rw [Function.update_self, if_pos rfl]
      omega
    · rw [Function.update_of_ne hne, if_neg fun heq => hne heq.symm]

theorem liveOf_cons {x : Block × Nat} {xs : List (Block × Nat)} :
    ({ m with live := x :: xs } : Memory).liveOf c =
      ({ m with live := xs } : Memory).liveOf c + if x.1.pChunk = c then 1 else 0 := by
  simp only [Memory.liveOf, List.countP_cons, decide_eq_true_eq]

/-- **Every action of a thread keeps the balance** of a chunk that it does not recycle. -/
theorem Inv.account (h : Inv s g) {a : Action} (hok : CallsGuard s t a)
    (hs : MemoryAllocator.act a s.shared (s.locals t) = some (m, l)) (hc : m.chunks c = some b)
    (hrec : ¬ l.pc.Recycles c) :
    (m.mAllocCount c = 0 ∧ m.mFreeCount c = 0) ∨ Settles c b s.shared (s.locals t) m l := by
  cases a with
  | alloc size =>
    obtain ⟨hpc, rfl, rfl⟩ := act_alloc hs
    exact .inr ⟨hc, by rw [hpc]; exact id, .of_eq rfl rfl rfl (by rw [hpc]; rfl)⟩
  | free pData size =>
    obtain ⟨hpc, rfl, rfl⟩ := act_free hs
    refine .inr ⟨hc, by rw [hpc]; exact id, ?_⟩
    have hlive : s.shared.liveOf c = _ :=
      ((List.perm_cons_erase hok).countP_eq _).trans (liveOf_cons (m := s.shared))
    unfold Balances
    rw [hpc, hlive]
    simp only [Local.goto, Pc.carries]
    omega
  | next k =>
    unfold MemoryAllocator.act MemoryAllocator.step at hs
    cases hpc : (s.locals t).pc <;> simp only [hpc] at hs
    case idle => cases hs
    case alloc size =>
      cases hs
      refine .inr ⟨hc, by rw [hpc]; exact id, .of_eq rfl rfl rfl ?_⟩
      rw [hpc, Local.goto]
      split <;> rfl
    case getData size =>
      obtain ⟨p, -, hs⟩ := Option.map_eq_some_iff.1 hs
      have hchunks : (getDataStep s.shared (s.locals t) size p).1.chunks = s.shared.chunks := by
        unfold getDataStep
        dsimp only
        split <;> rfl
      rw [hs] at hchunks
      have hstep := getDataStep_account p hpc (hchunks ▸ hc)
      rw [hs] at hstep
      exact .inr hstep
    case poolAlloc step size pData => exact poolAllocStep_account hpc hs hc
    case ret size pData =>
      cases hs
      refine .inr ⟨hc, by rw [hpc]; exact id, ?_⟩
      unfold Balances
      rw [hpc]
      cases pData with
      | none => rfl
      | some pData =>
        have hlive : ({ s.shared with live := (pData, size) :: s.shared.live } : Memory).liveOf c =
            s.shared.liveOf c + if pData.pChunk = c then 1 else 0 := liveOf_cons
        simp only [Option.toList_some, List.map_cons, List.map_nil, List.cons_append,
          List.nil_append, hlive, Local.goto, Pc.carries]
        omega
    case freeWithIsAllFreed size pData =>
      cases hs
      refine .inr ⟨hc, by rw [hpc]; exact id, ?_⟩
      have hcarries : ((s.locals t).goto (if s.shared.mFreeCount pData.pChunk = chunkSize - 1 then
          .resetAllocCount size pData.pChunk else .idle)).pc.carries c = 0 := by
        simp only [Local.goto]
        split <;> rfl
      unfold Balances
      rw [hcarries, hpc]
      simp only [Memory.liveOf, Pc.carries]
      by_cases hne : c = pData.pChunk
      · subst hne
        rw [Function.update_self, if_pos rfl]
        omega
      · rw [Function.update_of_ne hne, if_neg fun heq => hne heq.symm]
    case resetAllocCount size p =>
      cases hs
      have hne : c ≠ p := fun heq => hrec heq.symm
      refine .inr ⟨hc, by rw [hpc]; exact hrec, .of_eq ?_ rfl rfl (by rw [hpc]; rfl)⟩
      exact Function.update_of_ne hne _ _
    case resetFreeCount size p =>
      cases hs
      have hne : c ≠ p := fun heq => hrec heq.symm
      refine .inr ⟨hc, by rw [hpc]; exact hrec, .of_eq rfl ?_ rfl (by rw [hpc]; rfl)⟩
      exact Function.update_of_ne hne _ _
    case poolFree step size p =>
      have hok := (h.thread t).pc
      rw [hpc] at hok
      have hreset := ((h.thread t).recycling _ _ hok.1 hok.2.1).2
      rw [hpc] at hreset
      cases hs
      exact poolFreeStep_account k hpc hreset hc
    case poolCount size =>
      cases hs
      exact .inr ⟨hc, by rw [hpc]; exact id, .of_eq rfl rfl rfl (by rw [hpc]; rfl)⟩

/-! ## Every run -/

section Runs

variable [DecidableEq τ]

theorem Accounts.set {g' : Ghost τ} {a : Action} (hI : Inv s g) (hI' : Inv (s.set t m l) g')
    (h : Accounts s) (hok : CallsGuard s t a)
    (hs : act a s.shared (s.locals t) = some (m, l)) : Accounts (s.set t m l) := by
  intro c b hc hrec
  have hself := hrec t
  rw [Threads.set_self] at hself
  obtain ⟨halloc, hfree⟩ | ⟨hchunk, hnot, hbalances⟩ := hI.account hok hs hc hself
  · exact hI'.balanced_of_zero hc halloc hfree
  · obtain ⟨n, htotal, hn⟩ := h c b hchunk fun u => by
      by_cases hu : u = t
      · rw [hu]
        exact hnot
      · have hother := hrec u
        rw [Threads.set_other _ _ _ _ hu] at hother
        exact hother
    have hle := htotal.le t
    unfold Balances at hbalances
    refine ⟨n - (s.locals t).pc.carries c + l.pc.carries c, htotal.set (by omega), ?_⟩
    rw [Threads.set_shared]
    omega

/-- **Every run accounts for the blocks of its chunks.** -/
theorem RunsTo.accounts (h : RunsTo s) : (∃ g, Inv s g) ∧ Accounts s := by
  refine Threads.invariant (I := fun s => (∃ g, Inv s g) ∧ Accounts s) ?_ ?_ ?_ h
  · intro s hs
    refine ⟨⟨_, .init hs.1 hs.2⟩, fun c b hc => ?_⟩
    rw [hs.1] at hc
    cases hc
  · rintro s t a m l ⟨⟨g, hI⟩, haccounts⟩ hok hs
    obtain ⟨g', hI'⟩ := hI.act hok hs
    exact ⟨⟨g', hI'⟩, haccounts.set hI hI' hok hs⟩
  · exact fun _ e => e.elim

end Runs

/-! ## Where a chunk is -/

/-- What is out of a chunk in a state, if callers and threads have `n` of its blocks: of a current
chunk what was handed out and is not freed, of one in the pool nothing; and one that was handed out
has a block that is not freed, or nobody has one, because one thread gives it to the pool. -/
def OutOf (s : State τ) (c n : Nat) : ChunkState → Prop
  | .current => s.shared.mAllocCount c = s.shared.mFreeCount c + n
  | .handedOut => (0 < n ∧ s.shared.mFreeCount c + n = chunkSize) ∨
      ((∃! t, (s.locals t).pc.Recycles c) ∧ n = 0)
  | .pooled => n = 0

/-- What is known of a chunk of a bucket. -/
def Accounted (s : State τ) (b : Bucket) (c : Nat) : Prop :=
  ∃ state n, InState s b c state ∧ Threads.Total s (fun l => l.pc.carries c) n ∧
    OutOf s c (s.shared.liveOf c + n) state

theorem Inv.accounted (h : Inv s g) (haccounts : Accounts s) (hc : s.shared.chunks c = some b) :
    Accounted s b c := by
  have hstate := (h.inState_iff hc _).2 rfl
  have hchunk := h.memory.chunk c b hc
  by_cases hrec : ∃ t, (s.locals t).pc.Recycles c
  · obtain ⟨t, hrec⟩ := hrec
    have ho := (h.thread t).owner_of_recycles hrec
    rw [ho] at hchunk hstate
    obtain ⟨hlive, hcarries⟩ := h.settled hchunk
    refine ⟨.handedOut, 0, hstate, .zero hcarries, .inr ⟨⟨t, hrec, fun u hu => ?_⟩, by omega⟩⟩
    have hother := (h.thread u).owner_of_recycles hu
    rw [ho] at hother
    cases hother
    rfl
  · obtain ⟨n, htotal, hn⟩ := haccounts c b hc fun t ht => hrec ⟨t, ht⟩
    refine ⟨_, n, hstate, htotal, ?_⟩
    cases ho : g.owner c <;> rw [ho] at hchunk
    case current t => exact hn
    case handedOut =>
      obtain ⟨hall, -, hlt⟩ := hchunk
      exact .inl ⟨by omega, by omega⟩
    case recycling t => exact absurd ⟨t, ((h.thread t).recycling b c hc ho).1⟩ hrec
    case pooled =>
      have hzero : s.shared.mAllocCount c = 0 := hchunk.2.1
      exact Nat.eq_zero_of_add_eq_zero_left (hzero ▸ hn).symm

/-- **No chunk is lost.** -/
theorem chunks_accounted [DecidableEq τ] (h : RunsTo s) :
    (∀ c b, s.shared.chunks c = some b → Accounted s b c) ∧
      ((∀ t, (s.locals t).pc = .idle) → ∀ c b, s.shared.chunks c = some b →
        (∀ x ∈ s.shared.live, x.1.pChunk ≠ c) →
        InState s b c .pooled ∨ InState s b c .current) := by
  obtain ⟨⟨g, hI⟩, haccounts⟩ := h.accounts
  refine ⟨fun c b hc => hI.accounted haccounts hc, fun hidle c b hc hlive => ?_⟩
  obtain ⟨state, n, hstate, htotal, hout⟩ := hI.accounted haccounts hc
  have hn : n = 0 := htotal.eq_zero fun t => by rw [hidle t]; rfl
  have hzero : s.shared.liveOf c = 0 :=
    List.countP_eq_zero.2 fun x hx heq => hlive x hx (of_decide_eq_true heq)
  cases state with
  | current => exact .inr hstate
  | pooled => exact .inl hstate
  | handedOut =>
    rcases hout with ⟨hpos, -⟩ | ⟨⟨t, hrec, -⟩, -⟩
    · omega
    · rw [hidle t] at hrec
      exact hrec.elim

/-- A thread allocates a block of its first chunk, and another frees it. -/
theorem chunks_accounted_freed : ∃ s : State Bool,
    s.shared.mFreeCount 4096 = 1 ∧ Accounted s (bucketOf 512) 4096 ∧
      (InState s (bucketOf 512) 4096 .pooled ∨ InState s (bucketOf 512) 4096 .current) := by
  let start : State Bool := ⟨initial, fun _ => Local.new⟩
  let next (t : Bool) : ThreadAction Bool Action Empty := .thread t (.next ⟨false, 4096⟩)
  let run := [.thread true (.alloc 512), next true, next true, next true, next true, next true,
    next true, .thread false (.free ⟨4096, 0⟩ 512), next false]
  have hguard : (machine Bool).Allowed (Threads.Guard CallsGuard fun _ _ => True) start run := by
    refine ⟨⟨by decide, by decide⟩, nofun, nofun, nofun, fun _ _ _ => nofun, nofun, nofun, ?_,
      nofun, trivial⟩
    exact List.mem_cons_self
  have hrun : RunsTo _ := Machine.ReachableIf.exec run (.init (s := start) ⟨rfl, fun _ => rfl⟩)
    hguard rfl
  obtain ⟨haccounted, hidle⟩ := chunks_accounted hrun
  refine ⟨_, rfl, haccounted 4096 _ rfl, hidle ?_ 4096 _ rfl nofun⟩
  intro t
  cases t <;> rfl

end CppNetEngine.MemoryAllocator
