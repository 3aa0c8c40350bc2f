import CppNetEngine.Lib.Parts
import CppNetEngine.Memory.Proof.Disjoint
import CppNetEngine.Memory.TlsObjectPool

/-!
# Objects in use are not given again

A `TlsObjectPool` is, for its chunks, a `MemoryAllocator` that serves one size
(`RunsTo.chunks`), so its objects are blocks that no other caller has. With `mAllocCount` it counts
the objects in use, and those of calls that have counted (`objects_kept`).
-/

namespace CppNetEngine

namespace MemoryAllocator

variable {k : Outside} {m m' : Memory} {l l' : Local}

/-- The blocks with which `Alloc` returns. -/
def Pc.handsOut : Pc → List (Block × Nat)
  | .ret size pData => pData.toList.map (·, size)
  | _ => []

theorem handsOut_nil {pc : Pc} (h : ∀ size pData, pc ≠ .ret size pData) : pc.handsOut = [] := by
  cases pc with
  | ret size pData => exact absurd rfl (h size pData)
  | _ => rfl

/-- The thread is in `Alloc`. -/
def Pc.inAlloc : Pc → Bool
  | .alloc _ | .getData _ | .poolAlloc _ _ _ | .ret _ _ => true
  | _ => false

theorem inAlloc_install {size : Nat} {pData : Option Block} {c : Nat} :
    (l.install size pData c).pc.inAlloc = true := by
  unfold Local.install
  split <;> rfl

/-- **What a step does to the chunks and the live blocks.** -/
theorem step_effect (h : step k m l = some (m', l')) : m'.live = l.pc.handsOut ++ m.live ∧
    ∀ c b, m'.chunks c = some b → m.chunks c = some b ∨
      (c = k.address ∧ ∃ size, l.pc.size = some size ∧ b = bucketOf size) := by
  unfold step at h
  cases hpc : l.pc <;> simp only [hpc] at h
  case idle => cases h
  case getData size =>
    obtain ⟨c, -, h⟩ := Option.map_eq_some_iff.1 h
    unfold getDataStep at h
    dsimp only at h
    split at h <;> cases h <;> exact ⟨rfl, fun _ _ => .inl⟩
  case poolAlloc step size pData =>
    cases step with
    | fetchSub | fetchAdd =>
      cases h
      exact ⟨rfl, fun _ _ => .inl⟩
    | allocNode =>
      cases h
      refine ⟨rfl, fun c b hc => ?_⟩
      by_cases hca : c = k.address
      · subst hca
        rw [construct_self.1] at hc
        exact .inr ⟨rfl, size, rfl, (Option.some.inj hc).symm⟩
      · exact .inl ((construct_other hca).1.symm.trans hc)
    | pop step =>
      obtain ⟨r, -, h⟩ := Option.map_eq_some_iff.1 h
      cases h
      exact ⟨rfl, fun _ _ => .inl⟩
  all_goals
    cases h
    exact ⟨rfl, fun _ _ => .inl⟩

theorem inAlloc_step (h : step k m l = some (m', l'))
    (hret : ∀ size pData, l.pc ≠ .ret size pData) : l'.pc.inAlloc = l.pc.inAlloc := by
  unfold step at h
  cases hpc : l.pc <;> simp only [hpc] at h
  case idle => cases h
  case ret size pData => exact absurd hpc (hret size pData)
  case getData size =>
    obtain ⟨c, -, h⟩ := Option.map_eq_some_iff.1 h
    unfold getDataStep at h
    dsimp only at h
    split at h <;> cases h
    · rfl
    · simp only [Local.goto]
      split <;> rfl
  case poolAlloc step size pData =>
    cases step with
    | fetchSub | fetchAdd =>
      cases h
      rfl
    | allocNode =>
      cases h
      exact inAlloc_install
    | pop step =>
      obtain ⟨⟨links, r⟩, -, h⟩ := Option.map_eq_some_iff.1 h
      cases h
      cases r with
      | inl step' => rfl
      | inr c => exact inAlloc_install
  case poolFree step size c =>
    cases h
    simp only [Local.goto]
    cases (TopNode.pushStep k.spurious (m.links (bucketOf size)) c step).2 <;> rfl
  case alloc =>
    cases h
    simp only [Local.goto]
    split <;> rfl
  case freeWithIsAllFreed =>
    cases h
    simp only [Local.goto]
    split <;> rfl
  all_goals
    cases h
    rfl

end MemoryAllocator

namespace TlsObjectPool

open MemoryAllocator (Block bucketOf)

variable {τ : Type}

/-! ## Steps -/

/-- **What an action does.** -/
inductive Steps (m : Memory) (l : Local) : Action → Memory → Local → Prop
  | fetchAdd {k : Outside} : l.counting = .fetchAdd → Steps m l (.next k)
      { m with mAllocCount := m.mAllocCount + 1 } { l with counting := .none }
  | fetchSub {k : Outside} : l.counting = .fetchSub → Steps m l (.next k)
      { m with mAllocCount := m.mAllocCount - 1 } { l with counting := .none }
  | chunk {k : Outside} {chunks : MemoryAllocator.Memory} {chunk : MemoryAllocator.Local} :
      l.counting = .none →
      MemoryAllocator.step ⟨k.spurious, chunkAt k.chunk⟩ m.chunks l.chunk = some (chunks, chunk) →
      Steps m l (.next k) { m with chunks := chunks }
        ⟨chunk, countingAfter l.chunk.pc chunk.pc⟩
  | alloc : l.counting = .none → l.chunk.pc = .idle →
      Steps m l .alloc m ⟨l.chunk.goto (.alloc objectSize), .fetchAdd⟩
  | free (pData : Block) : l.counting = .none → l.chunk.pc = .idle → Steps m l (.free pData)
      { m with chunks := { m.chunks with live := m.chunks.live.erase (pData, objectSize) } }
      ⟨l.chunk.goto (.freeWithIsAllFreed objectSize pData), .none⟩

theorem enter_cases {a : MemoryAllocator.Action} {counting : Counting} {m m' : Memory}
    {l l' : Local} (h : enter a counting m l = some (m', l')) : l.counting = .none ∧
      ∃ chunks chunk, MemoryAllocator.act a m.chunks l.chunk = some (chunks, chunk) ∧
        m' = { m with chunks := chunks } ∧ l' = ⟨chunk, counting⟩ := by
  unfold enter at h
  split at h
  · rename_i hnone
    obtain ⟨⟨chunks, chunk⟩, hact, he⟩ := Option.map_eq_some_iff.1 h
    cases he
    exact ⟨hnone, chunks, chunk, hact, rfl, rfl⟩
  · cases h

theorem act_steps {a : Action} {m m' : Memory} {l l' : Local}
    (h : act a m l = some (m', l')) : Steps m l a m' l' := by
  cases a with
  | alloc =>
    obtain ⟨hnone, chunks, chunk, hact, rfl, rfl⟩ := enter_cases h
    obtain ⟨hpc, rfl, rfl⟩ := MemoryAllocator.act_alloc hact
    exact .alloc hnone hpc
  | free pData =>
    obtain ⟨hnone, chunks, chunk, hact, rfl, rfl⟩ := enter_cases h
    obtain ⟨hpc, rfl, rfl⟩ := MemoryAllocator.act_free hact
    exact .free pData hnone hpc
  | next k =>
    simp only [act, step] at h
    split at h <;> rename_i hcounting
    · cases h
      exact .fetchAdd hcounting
    · cases h
      exact .fetchSub hcounting
    · obtain ⟨⟨chunks, chunk⟩, hstep, he⟩ := Option.map_eq_some_iff.1 h
      cases he
      exact .chunk hcounting hstep

theorem calls_isSome {m : Memory} {l : Local} (hidle : l.isIdle = true) :
    (act .alloc m l).isSome ∧ ∀ pData, (act (.free pData) m l).isSome := by
  unfold Local.isIdle at hidle
  split at hidle
  · rename_i hcounting hpc
    simp only [act, enter, hcounting, MemoryAllocator.act, hpc]
    exact ⟨rfl, fun _ => rfl⟩
  · cases hidle

theorem alloc_effect {m m' : Memory} {l l' : Local} (h : act .alloc m l = some (m', l')) :
    m' = m ∧ l'.chunk.pc.inAlloc = true := by
  cases act_steps h
  exact ⟨rfl, rfl⟩

theorem free_inAlloc {pData : Block} {m m' : Memory} {l l' : Local}
    (h : act (.free pData) m l = some (m', l')) : l'.chunk.pc.inAlloc = false := by
  cases act_steps h
  rfl

theorem returns_eq_some {l : Local} {pData : Option Block} : l.returns = some pData ↔
    l.counting = .none ∧ ∃ size, l.chunk.pc = .ret size pData := by
  unfold Local.returns
  split
  · rename_i size pData' hcounting hpc
    rw [hpc]
    constructor
    · intro h
      cases h
      exact ⟨hcounting, size, rfl⟩
    · rintro ⟨-, size', heq⟩
      cases heq
      rfl
  · rename_i hno
    exact ⟨nofun, fun ⟨hcounting, size, hpc⟩ => (hno size pData hcounting hpc).elim⟩

theorem returns_eq_none {l : Local} (h : l.counting = .none) :
    l.returns = none ↔ ∀ size pData, l.chunk.pc ≠ .ret size pData := by
  rw [Option.eq_none_iff_forall_ne_some]
  constructor
  · exact fun hnone size pData hpc => hnone pData (returns_eq_some.2 ⟨h, size, hpc⟩)
  · intro hno pData hreturns
    obtain ⟨-, size, hpc⟩ := returns_eq_some.1 hreturns
    exact hno size pData hpc

/-- **What a step does to the objects in use**, and that a thread stays in `Alloc` until it
returns. -/
theorem next_effect {k : Outside} {m m' : Memory} {l l' : Local}
    (h : act (.next k) m l = some (m', l')) :
    m'.objects = (l.returns.bind id).toList ++ m.objects ∧
      l'.chunk.pc.inAlloc = (l.chunk.pc.inAlloc && l.returns.isNone) := by
  cases act_steps h with
  | fetchAdd hcounting | fetchSub hcounting =>
    have hnone : l.returns = none := by
      rw [Local.returns, hcounting]
    rw [hnone]
    exact ⟨rfl, (Bool.and_true _).symm⟩
  | @chunk k chunks chunk hcounting hstep =>
    cases hreturns : l.returns with
    | some pData =>
      obtain ⟨-, size, hpc⟩ := returns_eq_some.1 hreturns
      simp only [MemoryAllocator.step, hpc] at hstep
      cases hstep
      rw [hpc]
      refine ⟨?_, rfl⟩
      cases pData <;> rfl
    | none =>
      have hnot := (returns_eq_none hcounting).1 hreturns
      obtain ⟨hlive, -⟩ := MemoryAllocator.step_effect hstep
      rw [MemoryAllocator.handsOut_nil hnot, List.nil_append] at hlive
      refine ⟨congrArg (List.map Prod.fst) hlive, ?_⟩
      rw [Option.isNone_none, Bool.and_true]
      exact MemoryAllocator.inAlloc_step hstep hnot

/-! ## One size -/

/-- All chunks have objects, and a thread that is about to count has nothing else to do. -/
structure Sized (s : State τ) : Prop where
  pc : ∀ t size, (s.locals t).chunk.pc.size = some size → size = objectSize
  live : ∀ x ∈ s.shared.chunks.live, x.2 = objectSize
  chunk : ∀ c b, s.shared.chunks.chunks c = some b → b = bucketOf objectSize ∧ ∃ n, c = chunkAt n
  fetchAdd : ∀ t, (s.locals t).counting = .fetchAdd →
    (s.locals t).chunk.pc = .alloc objectSize
  fetchSub : ∀ t, (s.locals t).counting = .fetchSub → (s.locals t).chunk.pc = .idle

theorem countingAfter_cases (pc pc' : MemoryAllocator.Pc) :
    countingAfter pc pc' = .none ∨ (countingAfter pc pc' = .fetchSub ∧ pc' = .idle) := by
  unfold countingAfter
  split
  · exact .inl rfl
  · exact .inr ⟨rfl, rfl⟩
  · exact .inl rfl

section Runs

variable [DecidableEq τ] {s : State τ}

theorem Sized.set (h : Sized s) {t : τ} {m : Memory} {l : Local}
    (hpc : ∀ size, l.chunk.pc.size = some size → size = objectSize)
    (hlive : ∀ x ∈ m.chunks.live, x.2 = objectSize)
    (hchunk : ∀ c b, m.chunks.chunks c = some b → b = bucketOf objectSize ∧ ∃ n, c = chunkAt n)
    (hadd : l.counting = .fetchAdd → l.chunk.pc = .alloc objectSize)
    (hsub : l.counting = .fetchSub → l.chunk.pc = .idle) : Sized (s.set t m l) := by
  have hlocal : ∀ {P : Local → Prop}, P l → (∀ u, P (s.locals u)) →
      ∀ u, P ((s.set t m l).locals u) := by
    intro P hl hall u
    by_cases hu : u = t
    · subst hu
      rw [Threads.set_self]
      exact hl
    · rw [Threads.set_other _ _ _ _ hu]
      exact hall u
  exact ⟨hlocal (P := fun l => ∀ size, l.chunk.pc.size = some size → size = objectSize) hpc h.pc,
    hlive, hchunk,
    hlocal (P := fun l => l.counting = .fetchAdd → l.chunk.pc = .alloc objectSize) hadd h.fetchAdd,
    hlocal (P := fun l => l.counting = .fetchSub → l.chunk.pc = .idle) hsub h.fetchSub⟩

theorem RunsTo.sized (h : RunsTo s) : Sized s := by
  refine Threads.invariant (I := Sized) ?_ ?_ (fun _ e => e.elim) h
  · rintro s ⟨hshared, hlocals⟩
    refine ⟨fun t size hsize => ?_, ?_, ?_, fun t => ?_, fun t => ?_⟩
    · rw [hlocals t] at hsize
      cases hsize
    · rw [hshared]
      exact nofun
    · rw [hshared]
      exact nofun
    · rw [hlocals t]
      exact nofun
    · rw [hlocals t]
      exact nofun
  · intro s t a m l hI hok hact
    cases act_steps hact with
    | fetchAdd hcounting =>
      exact hI.set (fun size => hI.pc t size) hI.live hI.chunk nofun nofun
    | fetchSub hcounting =>
      exact hI.set (fun size => hI.pc t size) hI.live hI.chunk nofun nofun
    | @chunk k chunks chunk hcounting hstep =>
      obtain ⟨hsize, hlive⟩ := MemoryAllocator.step_size hstep
      obtain ⟨-, hchunks⟩ := MemoryAllocator.step_effect hstep
      refine hI.set (fun size hnew => ?_) (fun x hx => ?_) (fun c b hc => ?_) (fun hadd => ?_)
        (fun hsub => ?_)
      · rcases hsize with hsize | hsize <;> rw [hsize] at hnew
        · cases hnew
        · exact hI.pc t size hnew
      · exact (hlive x hx).elim (hI.live x) (hI.pc t x.2)
      · rcases hchunks c b hc with hold | ⟨rfl, size, hpc, rfl⟩
        · exact hI.chunk c b hold
        · rw [hI.pc t size hpc]
          exact ⟨rfl, k.chunk, rfl⟩
      · rcases countingAfter_cases (s.locals t).chunk.pc chunk.pc with hnone | ⟨hafter, -⟩
        · rw [hnone] at hadd
          cases hadd
        · rw [hafter] at hadd
          cases hadd
      · rcases countingAfter_cases (s.locals t).chunk.pc chunk.pc with hnone | ⟨-, hidle⟩
        · rw [hnone] at hsub
          cases hsub
        · exact hidle
    | alloc =>
      refine hI.set (fun size hsize => ?_) hI.live hI.chunk (fun _ => rfl) nofun
      exact (Option.some.inj hsize).symm
    | free pData =>
      refine hI.set (fun size hsize => ?_) (fun x hx => ?_) hI.chunk nofun nofun
      · exact (Option.some.inj hsize).symm
      · exact hI.live x (List.mem_of_mem_erase hx)

omit [DecidableEq τ] in
/-- Chunks that are not the same do not overlap. -/
theorem Sized.fits (h : Sized s) {n : Nat} (hnone : s.shared.chunks.chunks (chunkAt n) = none) :
    s.shared.chunks.Fits (bucketOf objectSize) (chunkAt n) := by
  intro c b hc
  obtain ⟨rfl, i, rfl⟩ := h.chunk c b hc
  have hne : n ≠ i := by
    rintro rfl
    rw [hnone] at hc
    cases hc
  unfold chunkAt MemoryAllocator.nodeSpan MemoryAllocator.Span.Disjoint
  generalize (bucketOf objectSize).nodeSize = size
  dsimp only
  rcases Nat.lt_or_gt_of_ne hne with hlt | hlt
  · have hle := Nat.mul_le_mul_right size hlt
    rw [Nat.succ_mul] at hle
    exact .inl hle
  · have hle := Nat.mul_le_mul_right size hlt
    rw [Nat.succ_mul] at hle
    exact .inr hle

/-- **For its chunks** the pool is a `MemoryAllocator`. -/
theorem RunsTo.chunks (h : RunsTo s) :
    MemoryAllocator.RunsTo (s.part Memory.chunks Local.chunk) := by
  refine Threads.reachable_part ?_ ?_ (fun _ e => e.elim) h
  · rintro s ⟨hshared, hlocals⟩
    refine ⟨?_, fun t => ?_⟩
    · rw [Threads.part_shared, hshared]
      rfl
    · rw [Threads.part_locals, hlocals t]
      rfl
  · intro s t a m l hr hok hact
    have hsized := RunsTo.sized hr
    cases act_steps hact with
    | fetchAdd | fetchSub => exact .inl ⟨rfl, rfl⟩
    | @chunk k chunks chunk hcounting hstep =>
      refine .inr ⟨.next ⟨k.spurious, chunkAt k.chunk⟩, fun size pData hpc => ?_, hstep⟩
      have hsize : size = objectSize := by
        refine hsized.pc t size ?_
        change (s.locals t).chunk.pc = _ at hpc
        rw [hpc]
        rfl
      subst hsize
      refine hsized.fits (hok ?_)
      change (s.locals t).chunk.pc = _ at hpc
      rw [Local.allocates, hcounting, hpc]
    | alloc hnone hidle =>
      refine .inr ⟨.alloc objectSize, ⟨by decide, by decide⟩, ?_⟩
      simp only [MemoryAllocator.act, hidle]
    | free pData hnone hidle =>
      refine .inr ⟨.free pData objectSize, ?_, ?_⟩
      · obtain ⟨⟨pData', size⟩, hmem, rfl⟩ := List.mem_map.1 hok
        cases hsized.live _ hmem
        exact hmem
      · simp only [MemoryAllocator.act, hidle]

/-! ## Objects in use -/

/-- The thread has counted an object that no caller has. -/
def Local.counted (l : Local) : Nat :=
  match l.counting, l.chunk.pc with
  | .fetchAdd, _ | .none, .idle => 0
  | _, _ => 1

/-- **What `Alloc` returns** is an object that nobody else has. -/
theorem RunsTo.returns (h : RunsTo s) {t : τ} {pData : Option Block}
    (hreturns : (s.locals t).returns = some pData) : ∃ object, pData = some object ∧
      object ∉ s.shared.objects ∧ ∀ u, (s.locals u).returns = some (some object) → u = t := by
  obtain ⟨g, hI⟩ := h.chunks.inv
  have hholds : ∀ {u pData}, (s.locals u).returns = some pData → ∃ object, pData = some object ∧
      g.holder object = some u := by
    intro u pData hu
    obtain ⟨-, size, hpc⟩ := returns_eq_some.1 hu
    have hok := (hI.thread u).pc
    rw [Threads.part_locals, hpc] at hok
    obtain ⟨object, hobject, -, -, hholder⟩ := hok
    exact ⟨object, hobject, hholder⟩
  obtain ⟨object, rfl, hholder⟩ := hholds hreturns
  refine ⟨object, rfl, fun hmem => ?_, fun u hu => ?_⟩
  · obtain ⟨⟨object', size⟩, hlive, rfl⟩ := List.mem_map.1 hmem
    rw [(hI.memory.live object' size hlive).2.2] at hholder
    cases hholder
  · obtain ⟨object', hobject, hholder'⟩ := hholds hu
    cases hobject
    rw [hholder] at hholder'
    exact (Option.some.inj hholder').symm

omit [DecidableEq τ] in
/-- A thread that goes on in a call stays counted, unless `Alloc` returns. -/
theorem counted_after {pc : MemoryAllocator.Pc} (hret : ∀ size pData, pc ≠ .ret size pData)
    (chunk : MemoryAllocator.Local) :
    Local.counted ⟨chunk, countingAfter pc chunk.pc⟩ = 1 := by
  unfold Local.counted countingAfter
  cases hpc : chunk.pc <;> cases pc <;> first | rfl | exact absurd rfl (hret _ _)

/-- **A step counts what it gives or takes.** -/
theorem counted_step (h : RunsTo s) {t : τ} {a : Action} {m : Memory} {l : Local}
    (hok : CallsGuard s t a) (hact : act a s.shared (s.locals t) = some (m, l)) :
    m.mAllocCount + s.shared.objects.length + (s.locals t).counted =
      s.shared.mAllocCount + m.objects.length + l.counted := by
  have hsized := h.sized
  cases act_steps hact with
  | fetchAdd hcounting =>
    simp only [Memory.objects, Local.counted, hcounting, hsized.fetchAdd t hcounting]
    omega
  | fetchSub hcounting =>
    simp only [Memory.objects, Local.counted, hcounting, hsized.fetchSub t hcounting]
    omega
  | alloc hnone hidle =>
    simp only [Local.counted, hnone, hidle]
  | free pData hnone hidle =>
    have hmem : (pData, objectSize) ∈ s.shared.chunks.live := by
      obtain ⟨⟨pData', size⟩, hmem, rfl⟩ := List.mem_map.1 hok
      cases hsized.live _ hmem
      exact hmem
    have hlength := List.length_erase_of_mem hmem
    have hpos := List.length_pos_of_mem hmem
    simp only [Memory.objects, List.length_map, Local.counted, hnone, hidle,
      MemoryAllocator.Local.goto, hlength]
    omega
  | @chunk k chunks chunk hcounting hstep =>
    obtain ⟨hobjects, -⟩ := next_effect hact
    cases hreturns : (s.locals t).returns with
    | some pData =>
      obtain ⟨-, size, hpc⟩ := returns_eq_some.1 hreturns
      obtain ⟨object, rfl, -⟩ := h.returns hreturns
      rw [hreturns] at hobjects
      have hlength := congrArg List.length hobjects
      rw [List.length_append] at hlength
      simp only [Option.bind_some, id_eq, Option.toList_some, List.length_singleton] at hlength
      have hidle : chunk = (s.locals t).chunk.goto .idle := by
        simp only [MemoryAllocator.step, hpc] at hstep
        cases hstep
        rfl
      simp only [Local.counted, hcounting, hpc, hidle, countingAfter, MemoryAllocator.Local.goto]
      omega
    | none =>
      have hnot := (returns_eq_none hcounting).1 hreturns
      have hbusy : (s.locals t).counted = 1 := by
        rw [Local.counted, hcounting]
        split
        · contradiction
        · rename_i hpc
          rw [MemoryAllocator.step, hpc] at hstep
          cases hstep
        · rfl
      rw [hreturns] at hobjects
      rw [counted_after hnot, hbusy, hobjects]
      rfl

theorem RunsTo.counted (h : RunsTo s) :
    ∃ n, s.Total Local.counted n ∧ s.shared.mAllocCount = s.shared.objects.length + n := by
  refine Machine.ReachableIf.invariant (I := fun s : State τ => ∃ n, s.Total Local.counted n ∧
    s.shared.mAllocCount = s.shared.objects.length + n) ?_ ?_ h
  · rintro s ⟨hshared, hlocals⟩
    refine ⟨0, .zero fun t => ?_, ?_⟩
    · rw [hlocals t]
      rfl
    · rw [hshared]
      rfl
  · intro s a s' hr hI hok hs
    obtain ⟨t, b, m, l, rfl, hact, rfl⟩ | ⟨e, -⟩ := Threads.step_cases hs
    · obtain ⟨n, htotal, hn⟩ := hI
      have hstep := counted_step hr hok hact
      have hle := htotal.le t
      refine ⟨n - (s.locals t).counted + l.counted, htotal.set (by omega), ?_⟩
      rw [Threads.set_shared]
      omega
    · exact e.elim

theorem RunsTo.nodup (h : RunsTo s) : s.shared.objects.Nodup := by
  obtain ⟨g, hI⟩ := h.chunks.inv
  exact hI.memory.nodup

theorem RunsTo.mem_free (h : RunsTo s) {t : τ} {pData object : Block} {m : Memory} {l : Local}
    (hact : act (.free pData) s.shared (s.locals t) = some (m, l)) :
    object ∈ m.objects ↔ object ∈ s.shared.objects ∧ object ≠ pData := by
  have hlive : s.shared.chunks.live.Nodup := h.nodup.of_map _
  have hsize : ∀ {x : Block × Nat}, x ∈ s.shared.chunks.live → x.2 = objectSize :=
    fun hx => h.sized.live _ hx
  cases act_steps hact
  simp only [Memory.objects, List.mem_map, hlive.mem_erase_iff]
  constructor
  · rintro ⟨⟨object', size⟩, ⟨hne, hmem⟩, rfl⟩
    refine ⟨⟨_, hmem, rfl⟩, fun heq => hne ?_⟩
    rw [← heq, ← hsize hmem]
  · rintro ⟨⟨⟨object', size⟩, hmem, rfl⟩, hne⟩
    exact ⟨_, ⟨fun heq => hne (congrArg Prod.fst heq), hmem⟩, rfl⟩

theorem RunsTo.proceeds (h : RunsTo s) {t : τ} (hbusy : (s.locals t).isIdle = false)
    (k : Outside) : (step k s.shared (s.locals t)).isSome := by
  obtain ⟨g, hI⟩ := h.chunks.inv
  have hkept := hI.kept fun t size hsize => by
    obtain ⟨hpos, hle⟩ := h.chunks.served.1 t size hsize
    exact MemoryAllocator.bucketOf_exists hle hpos
  unfold step
  split
  · rfl
  · rfl
  · rename_i hcounting
    rw [Option.isSome_map]
    refine hkept.proceeds t _ fun hidle => ?_
    change (s.locals t).chunk.pc = .idle at hidle
    rw [Local.isIdle, hcounting, hidle] at hbusy
    cases hbusy

/-- **Objects in use are not given again.** No object is with two callers; `Alloc` returns an object
that is with no caller, and that no other call returns; `AllocCount` is the number of the objects
with callers and of the calls in progress that have counted; and every call can go on. -/
theorem objects_kept (h : RunsTo s) :
    s.shared.objects.Nodup ∧
    (∀ t pData, (s.locals t).returns = some pData → ∃ object, pData = some object ∧
      object ∉ s.shared.objects ∧ ∀ u, (s.locals u).returns = some (some object) → u = t) ∧
    (∃ n, s.Total Local.counted n ∧ s.shared.mAllocCount = s.shared.objects.length + n) ∧
    ∀ t k, (s.locals t).isIdle = false → (step k s.shared (s.locals t)).isSome :=
  ⟨h.nodup, fun _ _ => h.returns, h.counted, fun _ k hbusy => h.proceeds hbusy k⟩

end Runs

/-- The steps of a thread in a call. -/
def steps (t : Bool) (n chunk : Nat) : List (ThreadAction Bool Action Empty) :=
  List.replicate n (.thread t (.next ⟨false, chunk⟩))

/-- Two threads allocate an object each, of chunks of their own, and one frees that of the other. -/
def twoObjects : List (ThreadAction Bool Action Empty) :=
  .thread true .alloc :: steps true 7 0 ++ .thread false .alloc :: steps false 7 1 ++
    .thread false (.free ⟨chunkAt 0, 0⟩) :: steps false 2 1

/-- One object is in use, and one is counted. -/
theorem objects_kept_two : ∃ s : State Bool, RunsTo s ∧
    s.shared.objects = [⟨chunkAt 1, 0⟩] ∧ s.shared.mAllocCount = 1 ∧ s.shared.objects.Nodup := by
  let start : State Bool := ⟨initial, fun _ => .new⟩
  obtain ⟨s, hs, hafter⟩ := (Option.any_eq_true (fun s : State Bool => decide
    (s.shared.objects = [⟨chunkAt 1, 0⟩] ∧ s.shared.mAllocCount = 1))
      ((machine Bool).exec start twoObjects)).1 (by decide +kernel)
  have hok : (machine Bool).Allowed (Threads.Guard CallsGuard fun _ _ => True) start
      twoObjects := by decide +kernel
  have hrun : RunsTo s := .exec twoObjects (.init ⟨rfl, fun _ => rfl⟩) hok hs
  obtain ⟨hobjects, hcount⟩ := of_decide_eq_true hafter
  exact ⟨s, hrun, hobjects, hcount, (objects_kept hrun).1⟩

end TlsObjectPool

end CppNetEngine
