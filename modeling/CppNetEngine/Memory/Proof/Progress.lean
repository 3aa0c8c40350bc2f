import CppNetEngine.Memory.Proof.Disjoint
import CppNetEngine.Stack.Proof.Progress

/-!
# The memory allocator is lock-free

`Alloc` takes a chunk from the pool of a bucket twice at most, and `Free` gives one back once at
most; all else in them is done in a bounded number of steps. So a thread can make others start their
loops again only so often before its call returns, and among so many steps some call returns, of
whatever bucket (`calls_return`).
-/

namespace CppNetEngine.MemoryAllocator

open Threads TopNode

variable {τ : Type} {m m' : Memory} {l l' : Local} {b : Bucket} {k : Outside} {size : Nat}

/-! ## What is left to do -/

/-- The top of the pool of a bucket. -/
def Memory.top (m : Memory) (b : Bucket) : Node16 Nat := (m.links b).top

/-- The steps to the end of `ObjectPool::Alloc`, if nobody else changes the top. -/
def AllocStep.left (top : Node16 Nat) : AllocStep → Nat
  | .fetchSub => 5
  | .fetchAdd => 2
  | .allocNode => 1
  | .pop step => popLeft top step

/-- The steps to the return of a call, if nobody else changes the tops; a call for a thread without
one. -/
def Pc.left (m : Memory) : Pc → Nat
  | .idle => 14
  | .alloc _ => 13
  | .poolAlloc step size pData =>
    step.left (m.top (bucketOf size)) + if pData.isNone then 7 else 1
  | .getData _ => 7
  | .ret _ _ => 1
  | .freeWithIsAllFreed _ _ => 7
  | .resetAllocCount _ _ => 6
  | .resetFreeCount _ _ => 5
  | .poolFree step size _ => pushLeft (m.top (bucketOf size)) step + 1
  | .poolCount _ => 1

/-- How often the thread can still change a top before it returns. -/
def Pc.ways : Pc → Nat
  | .idle | .alloc _ => 2
  | .poolAlloc _ _ pData => if pData.isNone then 2 else 1
  | .getData _ => 1
  | .freeWithIsAllFreed _ _ | .resetAllocCount _ _ | .resetFreeCount _ _ | .poolFree _ _ _ => 1
  | .ret _ _ | .poolCount _ => 0

theorem AllocStep.left_le (top : Node16 Nat) (step : AllocStep) : step.left top ≤ 7 := by
  cases step <;> simp only [AllocStep.left] <;> first | exact popLeft_le _ _ | decide

theorem AllocStep.left_change (top top' : Node16 Nat) (step : AllocStep) :
    step.left top' ≤ step.left top + 4 := by
  cases step <;> simp only [AllocStep.left] <;> first | exact popLeft_change _ _ _ | omega

theorem Pc.left_le (m : Memory) (pc : Pc) : pc.left m ≤ 14 := by
  cases pc <;> simp only [Pc.left] <;> try decide
  case poolAlloc step size pData =>
    have := step.left_le (m.top (bucketOf size))
    split <;> omega
  case poolFree step size pChunk =>
    exact Nat.le_trans (Nat.succ_le_succ (pushLeft_le _ step)) (by decide)

theorem Pc.ways_le (pc : Pc) : pc.ways ≤ 2 := by
  cases pc <;> simp only [Pc.ways] <;> try decide
  split <;> decide

/-- Who leaves the tops as they are leaves the others alone. -/
theorem Pc.left_congr (htop : ∀ b, m'.top b = m.top b) (pc : Pc) : pc.left m' = pc.left m := by
  cases pc <;> simp only [Pc.left, htop]

theorem Pc.left_change (m m' : Memory) (pc : Pc) : pc.left m' ≤ pc.left m + 4 := by
  cases pc <;> simp only [Pc.left] <;> try omega
  case poolAlloc step size pData =>
    have := step.left_change (m.top (bucketOf size)) (m'.top (bucketOf size))
    omega
  case poolFree step size pChunk =>
    have := pushLeft_change (m.top (bucketOf size)) (m'.top (bucketOf size)) step
    omega

/-- A step that is not the last of a call has less left to do, or has changed a top, which it can do
once less. -/
abbrev Advances (m : Memory) (l : Local) (m' : Memory) (l' : Local) : Prop :=
  Quiet (fun m l => Pc.left m l.pc) (fun l => l.pc.ways) m m' l l' ∨
    InTheWay (fun m l => Pc.left m l.pc) (fun l => l.pc.ways) 4 m m' l l'

theorem Advances.of_top (htop : ∀ b, m'.top b = m.top b) (hleft : l'.pc.left m < l.pc.left m)
    (hways : l'.pc.ways ≤ l.pc.ways) : Advances m l m' l' :=
  .inl ⟨by rw [Pc.left_congr htop]; exact hleft, hways,
    fun l => Nat.le_of_eq (Pc.left_congr htop l.pc)⟩

theorem Advances.of_ways (hleft : l'.pc.left m' ≤ l.pc.left m + 4)
    (hways : l'.pc.ways < l.pc.ways) : Advances m l m' l' :=
  .inr ⟨hleft, hways, fun l => Pc.left_change m m' l.pc⟩

/-! ## Steps -/

theorem top_addPooling {n : Int} (b' : Bucket) : (m.addPooling b n).top b' = m.top b' :=
  congrArg Links.top addPooling_links

theorem top_setLinks {links : Links Nat} (hlinks : links.top = m.top b) (b' : Bucket) :
    (m.setLinks b links).top b' = m.top b' := by
  by_cases hb : b' = b
  · subst hb
    exact (congrArg Links.top setLinks_self).trans hlinks
  · exact setLinks_other hb

theorem left_install {pData : Option Block} {a : Nat} :
    (l.install size pData a).pc.left m = if pData.isNone then 7 else 1 := by
  unfold Local.install
  split <;> rfl

theorem ways_install {pData : Option Block} {a : Nat} :
    (l.install size pData a).pc.ways + 1 = if pData.isNone then 2 else 1 := by
  unfold Local.install
  split <;> rfl

/-- A step of `ObjectPool::Alloc` after which the thread is still in it. -/
theorem Advances.poolAlloc {pData : Option Block} {step step' : AllocStep}
    (hpc : l.pc = .poolAlloc step size pData) (htop : ∀ b, m'.top b = m.top b)
    (hleft : step'.left (m.top (bucketOf size)) < step.left (m.top (bucketOf size))) :
    Advances m l m' (l.goto (.poolAlloc step' size pData)) := by
  refine .of_top htop ?_ ?_
  · rw [hpc]
    exact Nat.add_lt_add_right hleft _
  · rw [hpc]
    exact Nat.le_refl _

theorem poolAllocStep_advances {pData : Option Block} {step : AllocStep} (hk : k.spurious = false)
    (hpc : l.pc = .poolAlloc step size pData)
    (hs : poolAllocStep k m l size pData step = some (m', l')) : Advances m l m' l' := by
  cases step with
  | fetchSub =>
    cases hs
    refine .poolAlloc hpc top_addPooling ?_
    split
    · exact (by decide : 2 < 5)
    · exact (by decide : 4 < 5)
  | fetchAdd =>
    cases hs
    exact .poolAlloc hpc top_addPooling (Nat.lt_succ_self 1)
  | allocNode =>
    cases hs
    refine .of_top (fun _ => rfl) ?_ ?_
    · rw [hpc, left_install]
      exact Nat.lt_add_of_pos_left Nat.one_pos
    · rw [hpc]
      exact Nat.le_trans (Nat.le_succ _) (Nat.le_of_eq ways_install)
  | pop step =>
    obtain ⟨⟨links, r⟩, hr, hs⟩ := Option.map_eq_some_iff.1 hs
    cases hs
    rw [hk] at hr
    obtain ⟨rfl, step', rfl, hleft⟩ | ⟨pNode, rfl⟩ := popStep_left hr
    · exact .poolAlloc hpc (top_setLinks rfl) hleft
    · refine .of_ways ?_ ?_
      · change ((l.install size pData pNode).pc.left _) ≤ _
        rw [hpc, left_install, Pc.left]
        omega
      · change (l.install size pData pNode).pc.ways < _
        rw [hpc, Pc.ways, ← ways_install]
        exact Nat.lt_succ_self _

theorem poolFreeStep_advances {pChunk : Nat} {step : PushStep} (hk : k.spurious = false)
    (hpc : l.pc = .poolFree step size pChunk) : Advances m l
      (poolFreeStep k m l size pChunk step).1 (poolFreeStep k m l size pChunk step).2 := by
  unfold poolFreeStep
  cases hr : pushStep k.spurious (m.links (bucketOf size)) pChunk step with
  | mk links r =>
    rw [hk] at hr
    obtain ⟨htop, step', rfl, hleft⟩ | rfl := pushStep_left hr
    · refine .of_top (top_setLinks htop) ?_ (by rw [hpc]; exact Nat.le_refl 1)
      rw [hpc]
      exact Nat.add_lt_add_right hleft 1
    · refine .of_ways ?_ ?_
      · exact Nat.le_trans (by decide : 1 ≤ 4) (Nat.le_add_left _ _)
      · rw [hpc]
        exact Nat.one_pos

theorem Advances.goto {pc pc' : Pc} (hpc : l.pc = pc) (htop : ∀ b, m'.top b = m.top b)
    (hleft : pc'.left m < pc.left m) (hways : pc'.ways ≤ pc.ways) : Advances m l m' (l.goto pc') :=
  .of_top htop (hpc ▸ hleft) (hpc ▸ hways)

theorem getDataStep_advances (pChunk : Nat) (hpc : l.pc = .getData size) :
    Advances m l (getDataStep m l size pChunk).1 (getDataStep m l size pChunk).2 := by
  have hret : ∀ pData, (Pc.ret size pData).left m < (Pc.getData size).left m :=
    fun _ => (by decide : 1 < 7)
  unfold getDataStep
  dsimp only
  split
  · exact .goto hpc (fun _ => rfl) (hret _) (Nat.zero_le _)
  · split
    · exact .goto hpc (fun _ => rfl) (by decide : 6 < 7) (Nat.le_refl 1)
    · exact .goto hpc (fun _ => rfl) (hret _) (Nat.zero_le _)

/-- The call of which the step is the last. -/
def finished (s : State τ) : ThreadAction τ Action Empty → List τ
  | .thread t a => match act a s.shared (s.locals t) with
    | some (_, ⟨_, .idle⟩) => [t]
    | _ => []

/-- A `compare_exchange_weak` does not fail without a reason. -/
def Fair : Action → Prop
  | .next k => k.spurious = false
  | .alloc _ | .free _ _ => True

variable {s : State τ} {t : τ}

theorem step_advances (hk : k.spurious = false) (hs : step k m l = some (m', l'))
    (hbusy : l'.pc ≠ .idle) : Advances m l m' l' := by
  unfold step at hs
  cases hpc : l.pc <;> simp only [hpc] at hs
  case idle => cases hs
  case alloc size =>
    cases hs
    split
    · exact .goto hpc (fun _ => rfl) (by decide : 12 < 13) (Nat.le_refl 2)
    · exact .goto hpc (fun _ => rfl) (by decide : 7 < 13) (Nat.le_succ 1)
  case getData size =>
    obtain ⟨p, -, hs⟩ := Option.map_eq_some_iff.1 hs
    have hstep := getDataStep_advances (m := m) p hpc
    rw [hs] at hstep
    exact hstep
  case poolAlloc step size pData => exact poolAllocStep_advances hk hpc hs
  case ret size pData =>
    cases hs
    exact absurd rfl hbusy
  case freeWithIsAllFreed size pData =>
    cases hs
    split at hbusy <;> rename_i hn
    · rw [if_pos hn]
      exact .goto hpc (fun _ => rfl) (Nat.lt_succ_self 6) (Nat.le_refl 1)
    · exact absurd rfl hbusy
  case resetAllocCount size p =>
    cases hs
    exact .goto hpc (fun _ => rfl) (Nat.lt_succ_self 5) (Nat.le_refl 1)
  case resetFreeCount size p =>
    cases hs
    exact .goto hpc (fun _ => rfl) (Nat.lt_succ_self 4) (Nat.le_refl 1)
  case poolFree step size p =>
    cases hs
    exact poolFreeStep_advances hk hpc
  case poolCount size =>
    cases hs
    exact absurd rfl hbusy

theorem act_advances {a : Action} (hfair : Fair a)
    (hsee : ∀ e ∈ finished s (.thread t a), ¬ True)
    (hs : act a s.shared (s.locals t) = some (m, l)) : Advances s.shared (s.locals t) m l := by
  have hbusy : l.pc ≠ .idle := by
    intro hidle
    obtain ⟨spTlsChunk, pc⟩ := l
    cases hidle
    refine hsee t ?_ trivial
    simp only [finished, hs]
    exact List.mem_singleton.2 rfl
  cases a with
  | next k => exact step_advances hfair hs hbusy
  | alloc size =>
    obtain ⟨hpc, rfl, rfl⟩ := act_alloc hs
    exact .goto hpc (fun _ => rfl) (Nat.lt_succ_self 13) (Nat.le_refl 2)
  | free pData size =>
    obtain ⟨hpc, rfl, rfl⟩ := act_free hs
    exact .goto hpc (fun _ => rfl) (by decide : 7 < 14) (Nat.le_succ 1)

/-- **Lock-freedom.** A thread can always go on with its call, and among so many steps of threads,
of which none fails without a reason, some call returns. -/
theorem calls_return [DecidableEq τ] [Fintype τ] (h : RunsTo s) :
    (∀ t k, (s.locals t).pc ≠ .idle → ((machine τ).step s (.thread t (.next k))).isSome) ∧
    ∀ as s', (machine τ).exec s as = some s' →
      (∀ t k, .thread t (.next k) ∈ as → k.spurious = false) →
      Fintype.card τ * (8 * Fintype.card τ + 16) < as.length →
      ∃ t, t ∈ (machine τ).watch finished s as := by
  constructor
  · intro t k hbusy
    obtain ⟨g, hI⟩ := h.inv
    have hkept := hI.kept fun t size hsize => by
      obtain ⟨hpos, hle⟩ := h.served.1 t size hsize
      exact bucketOf_exists hle hpos
    exact Option.isSome_map.trans (hkept.proceeds t k hbusy)
  · intro as s' he hspurious hlength
    have hseen := Threads.exists_seen _ _ 4 (fun m l => l.pc.left_le m) (fun l => l.pc.ways_le)
      (fun s t a m l hfair hsee hs => act_advances hfair hsee hs) as ?_ he ?_
    · obtain ⟨t, ht, -⟩ := hseen
      exact ⟨t, ht⟩
    · intro t a ha
      cases a with
      | next k => exact hspurious t k ha
      | alloc | free => trivial
    · refine Nat.lt_of_le_of_lt (Nat.le_of_eq ?_) hlength
      ring

/-- Eleven blocks of one chunk are allocated and freed. -/
def elevenBlocks : List (ThreadAction Bool Action Empty) :=
  (List.range 11).flatMap fun i =>
    List.replicate (if i = 0 then 6 else 3) (.thread true (.next ⟨false, 4096⟩)) ++
      [.thread false (.free ⟨4096, i⟩ 512), .thread false (.next ⟨false, 0⟩),
        .thread true (.alloc 512)]

/-- The thread that is in `Alloc` allocates them, and another frees them. -/
theorem calls_return_blocks : ∃ s : State Bool, (s.locals true).pc.size = some 512 ∧
    (∀ t k, (s.locals t).pc ≠ .idle → ((machine Bool).step s (.thread t (.next k))).isSome) ∧
    ∃ t, t ∈ (machine Bool).watch finished s elevenBlocks := by
  let start : State Bool := ⟨initial, fun _ => Local.new⟩
  let called : State Bool := start.set true initial (Local.new.goto (.alloc 512))
  have hguard : (machine Bool).Allowed (Threads.Guard CallsGuard fun _ _ => True) start
      [.thread true (.alloc 512)] := ⟨⟨by decide, by decide⟩, trivial⟩
  have hrun : RunsTo called :=
    Machine.ReachableIf.exec _ (.init (s := start) ⟨rfl, fun _ => rfl⟩) hguard rfl
  obtain ⟨hnext, hreturn⟩ := calls_return hrun
  obtain ⟨s', hs'⟩ := Option.isSome_iff_exists.1
    (show ((machine Bool).exec called elevenBlocks).isSome from by decide +kernel)
  refine ⟨_, rfl, hnext, hreturn _ s' hs' ?_ (by decide +kernel)⟩
  intro t k hk
  simp [elevenBlocks] at hk
  obtain ⟨-, -, ⟨-, -, rfl⟩ | ⟨-, rfl⟩⟩ := hk
  · rfl
  · rfl

end CppNetEngine.MemoryAllocator
