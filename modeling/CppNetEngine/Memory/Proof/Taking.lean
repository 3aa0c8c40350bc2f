import CppNetEngine.Memory.Proof.Ownership

/-!
# Getting a chunk

The steps of `ObjectPool::Alloc` keep the invariant of the memory allocator. A thread that has
counted down a positive `mPoolingCount` finds a chunk in the pool (`Inv.pooled_pos`), and its loop
makes the top of the pool its current chunk (`Inv.popLoop`); the others get a new chunk from
`mi_malloc` (`Inv.allocNode`).
-/

namespace CppNetEngine.MemoryAllocator

open TopNode

variable {τ : Type} [DecidableEq τ] {s : State τ} {g : Ghost τ} {t : τ}

/-! ## Steps that only move on -/

omit [DecidableEq τ] in
theorem ThreadOk.goto {m : Memory} {l : Local} (h : ThreadOk m g t l) {pc : Pc}
    (hpc : PcOk m g t l pc) (hreplaces : ∀ c, l.pc.Replaces c → pc.Replaces c)
    (hrecycles : ∀ c, l.pc.Recycles c → l.pc.Reset m c → pc.Recycles c ∧ pc.Reset m c) :
    ThreadOk m g t (l.goto pc) where
  pc := hpc
  tls b c hc := (h.tls b c hc).imp_right fun ho => ho.imp_right (hreplaces c)
  current := h.current
  recycling b c hc ho := by
    obtain ⟨hrec, hreset⟩ := h.recycling b c hc ho
    exact hrecycles c hrec hreset

theorem Inv.goto (h : Inv s g) {pc : Pc} (hpc : PcOk s.shared g t (s.locals t) pc)
    (hreplaces : ∀ c, (s.locals t).pc.Replaces c → pc.Replaces c)
    (hrecycles : ∀ c, (s.locals t).pc.Recycles c → (s.locals t).pc.Reset s.shared c →
      pc.Recycles c ∧ pc.Reset s.shared c)
    (hclaims : ∀ b, pc.claims b = (s.locals t).pc.claims b)
    (hfails : ∀ b, pc.fails b = (s.locals t).pc.fails b) :
    Inv (s.set t s.shared ((s.locals t).goto pc)) g := by
  refine h.set (fun u _ => .refl) h.memory ((h.thread t).goto hpc hreplaces hrecycles)
    fun b => (h.count b).set ?_ (.inr ?_)
  · simp only [Local.goto, hclaims, hfails]
  · simp only [Local.goto, hfails, le_refl]

section Pooling

variable {m : Memory} {b b' : Bucket} {n : Int} {links : Links Nat}

@[simp] theorem addPooling_links : (m.addPooling b n).links b' = m.links b' := by
  by_cases hb : b' = b
  · subst hb
    simp [Memory.links, Memory.addPooling]
  · simp [Memory.links, Memory.addPooling, hb]

@[simp] theorem addPooling_pops : (m.addPooling b n).pops b' = m.pops b' :=
  congrArg (·.top.count) addPooling_links

theorem addPooling_mPoolingCount : ((m.addPooling b n).pool b').mPoolingCount =
    (m.pool b').mPoolingCount + if b' = b then n else 0 := by
  by_cases hb : b' = b
  · subst hb
    simp [Memory.addPooling]
  · simp [Memory.addPooling, hb]

@[simp] theorem setLinks_links : m.setLinks b (m.links b) = m := by
  simp [Memory.setLinks, Memory.links]

@[simp] theorem setLinks_self : (m.setLinks b links).links b = links := by
  simp [Memory.setLinks, Memory.links]

theorem setLinks_other (hb : b' ≠ b) :
    ((m.setLinks b links).links b').top = (m.links b').top := by
  simp [Memory.setLinks, Memory.links, hb]

@[simp] theorem setLinks_pops : (m.setLinks b links).pops b = links.top.count :=
  congrArg (·.top.count) setLinks_self

theorem setLinks_pops_other (hb : b' ≠ b) : (m.setLinks b links).pops b' = m.pops b' :=
  congrArg Node16.count (setLinks_other hb)

@[simp] theorem setLinks_mPoolingCount :
    ((m.setLinks b links).pool b').mPoolingCount = (m.pool b').mPoolingCount := by
  by_cases hb : b' = b
  · subst hb
    simp [Memory.setLinks]
  · simp [Memory.setLinks, hb]

omit [DecidableEq τ] in
/-- The pools of other buckets keep their chunks. -/
theorem MemoryOk.links_other (h : MemoryOk m g) (hb : b' ≠ b)
    (hnext : ∀ c ∈ g.pooled b', links.pNextNode c = m.pNextNode c) :
    LinksOk ((m.setLinks b links).links b') ((m.setLinks b links).pops b') (g.pooled b') := by
  rw [setLinks_pops_other hb]
  exact (h.links b').congr (setLinks_other hb) hnext

omit [DecidableEq τ] in
theorem Rely.addPooling {u : τ} : Rely u m g (m.addPooling b n) g where
  chunks _ _ h := h
  fresh _ _ h := .inl h
  current _ _ _ := Iff.rfl
  recycling _ _ _ := Iff.rfl
  recycled _ _ _ _ := ⟨rfl, rfl, rfl⟩
  held _ _ h := ⟨h.2.1, h.2.2, id⟩
  pool b' := by
    rw [addPooling_pops]
    exact .refl

omit [DecidableEq τ] in
theorem MemoryOk.addPooling (h : MemoryOk m g) : MemoryOk (m.addPooling b n) g where
  chunk c b' hc := (h.chunk c b' hc).congr rfl rfl rfl fun _ => id
  index := h.index
  live := h.live
  nodup := h.nodup
  links b' := by
    rw [addPooling_links, addPooling_pops]
    exact h.links b'
  pooled := h.pooled
  apart := h.apart

end Pooling

/-- A step that counts in `mPoolingCount` what it claims or gives back. -/
theorem Inv.addPooling (h : Inv s g) {pc : Pc} {b : Bucket} {n : Int}
    (hpc : PcOk s.shared g t (s.locals t) pc)
    (hreplaces : ∀ c, (s.locals t).pc.Replaces c → pc.Replaces c)
    (hrecycles : ∀ c, ¬ (s.locals t).pc.Recycles c)
    (hcount : ∀ b', ((s.locals t).pc.claims b' : Int) + (s.locals t).pc.fails b' =
      (if b' = b then n else 0) + pc.claims b' + pc.fails b')
    (hpos : 0 ≤ (s.shared.pool b).mPoolingCount + n ∨
      ∀ b', (s.locals t).pc.fails b' ≤ (if b' = b then n else 0) + pc.fails b')
    (hfails : ∀ b', b' ≠ b → pc.fails b' = (s.locals t).pc.fails b') :
    Inv (s.set t (s.shared.addPooling b n) ((s.locals t).goto pc)) g := by
  have hthread := (h.thread t).goto hpc hreplaces fun c hc => absurd hc (hrecycles c)
  refine h.set (fun u _ => .addPooling) h.memory.addPooling (hthread.stable .addPooling)
    fun b' => (h.count b').set ?_ ?_
  · rw [addPooling_mPoolingCount]
    have hone := hcount b'
    simp only [Local.goto]
    omega
  · rw [addPooling_mPoolingCount]
    simp only [Local.goto]
    by_cases hb : b' = b
    · subst hb
      rcases hpos with hpos | hpos
      · rw [if_pos rfl]
        exact .inl hpos
      · have hone := hpos b'
        exact .inr (by omega)
    · rw [if_neg hb, hfails b' hb]
      exact .inr (by omega)

theorem Inv.alloc (h : Inv s g) {size : Nat} (hpc : (s.locals t).pc = .alloc size) :
    Inv (s.set t s.shared ((s.locals t).goto
      (if (s.locals t).spTlsChunk (bucketOf size) = none then .poolAlloc .fetchSub size none
        else .getData size))) g := by
  refine h.goto ?_ (by rw [hpc]; exact fun _ => False.elim) (by rw [hpc]; exact fun _ => False.elim)
    ?_ ?_
  · split <;> rename_i htls
    · exact ⟨trivial, htls⟩
    · obtain ⟨c, hc⟩ := Option.ne_none_iff_exists'.1 htls
      refine ⟨c, hc, ((h.thread t).tls _ _ hc).2.resolve_right ?_⟩
      rw [hpc]
      exact id
  · intro b
    rw [hpc]
    split <;> rfl
  · intro b
    rw [hpc]
    split <;> rfl

/-! ## Taking a chunk from the pool -/

section Pop

variable {size : Nat} {pData : Option Block} {step step' : AllocStep}

omit [DecidableEq τ] in
theorem replaces_step {c : Nat} (h : (Pc.poolAlloc step size pData).Replaces c) :
    (Pc.poolAlloc step' size pData).Replaces c := by
  cases pData <;> exact h

theorem Inv.fetchSub (h : Inv s g) (hpc : (s.locals t).pc = .poolAlloc .fetchSub size pData) :
    Inv (s.set t (s.shared.addPooling (bucketOf size) (-1)) ((s.locals t).goto (.poolAlloc
      (if (s.shared.pool (bucketOf size)).mPoolingCount ≤ 0 then .fetchAdd else .pop .readCount)
        size pData))) g := by
  have hok := (h.thread t).pc
  rw [hpc] at hok
  by_cases hn : (s.shared.pool (bucketOf size)).mPoolingCount ≤ 0
  · rw [if_pos hn]
    refine h.addPooling ⟨trivial, hok.2⟩ ?_ ?_ ?_ (.inr ?_) ?_ <;> rw [hpc]
    · exact fun c => replaces_step
    · exact fun c => id
    · intro b'
      simp only [Pc.claims, Pc.fails, eq_comm (a := b')]
      split <;> rfl
    · intro b'
      simp only [Pc.fails, eq_comm (a := b')]
      split <;> decide
    · intro b' hb'
      simp [Pc.fails, Ne.symm hb']
  · rw [if_neg hn]
    refine h.addPooling ⟨trivial, hok.2⟩ ?_ ?_ ?_ (.inl (by omega)) ?_ <;> rw [hpc]
    · exact fun c => replaces_step
    · exact fun c => id
    · intro b'
      simp only [Pc.claims, Pc.fails, eq_comm (a := b')]
      split <;> rfl
    · exact fun b' _ => rfl

theorem Inv.fetchAdd (h : Inv s g) (hpc : (s.locals t).pc = .poolAlloc .fetchAdd size pData) :
    Inv (s.set t (s.shared.addPooling (bucketOf size) 1)
      ((s.locals t).goto (.poolAlloc .allocNode size pData))) g := by
  have hok := (h.thread t).pc
  rw [hpc] at hok
  refine h.addPooling ⟨trivial, hok.2⟩ ?_ ?_ ?_ (.inr ?_) ?_ <;> rw [hpc]
  · exact fun c => replaces_step
  · exact fun c => id
  · intro b'
    simp only [Pc.claims, Pc.fails, eq_comm (a := b')]
    split <;> rfl
  · intro b'
    simp only [Pc.fails, eq_comm (a := b')]
    split <;> decide
  · intro b' hb'
    simp [Pc.fails, Ne.symm hb']

/-- Where a thread has a claim, there is a chunk in the pool. -/
theorem Inv.pooled_pos (h : Inv s g) {b : Bucket} (hclaim : (s.locals t).pc.claims b = 1) :
    0 < (g.pooled b).length := by
  obtain ⟨n₁, n₂, h₁, h₂, hsum, hneg⟩ := h.count b
  have hle := h₁.le t
  omega

theorem Inv.popRead (h : Inv s g) {step step' : PopStep Nat}
    (hpc : (s.locals t).pc = .poolAlloc (.pop step) size pData)
    (hstep : AllocOk s.shared g (bucketOf size) (.pop step')) :
    Inv (s.set t s.shared ((s.locals t).goto (.poolAlloc (.pop step') size pData))) g := by
  have hok := (h.thread t).pc
  rw [hpc] at hok
  refine h.goto ⟨hstep, hok.2⟩ ?_ ?_ ?_ ?_ <;> rw [hpc]
  · exact fun c => replaces_step
  · exact fun c => False.elim
  · exact fun b => rfl
  · exact fun b => rfl

theorem install_self {l : Local} {c : Nat} :
    (l.install size pData c).spTlsChunk (bucketOf size) = some c := Function.update_self _ _ _

theorem install_other {l : Local} {c : Nat} {b : Bucket} (hb : b ≠ bucketOf size) :
    (l.install size pData c).spTlsChunk b = l.spTlsChunk b := Function.update_of_ne hb _ _

omit [DecidableEq τ] in
/-- A chunk that nobody had becomes the current chunk of the thread. -/
theorem ThreadOk.install {m m' : Memory} {g' : Ghost τ} {l : Local} (h : ThreadOk m g t l)
    (hpc : l.pc = .poolAlloc step size pData) {c : Nat}
    (hc : m'.chunks c = some (bucketOf size)) (ho : g'.owner c = .current t)
    (hnot : ∀ b, l.spTlsChunk b ≠ some c)
    (hchunks : ∀ c', c' ≠ c → m'.chunks c' = m.chunks c')
    (howner : ∀ c', c' ≠ c → g'.owner c' = g.owner c')
    (hholds : ∀ block, Holds m g t size block → Holds m' g' t size block) :
    ThreadOk m' g' t (l.install size pData c) := by
  have hok := h.pc
  rw [hpc] at hok
  obtain ⟨-, hdata⟩ := hok
  refine ⟨?_, fun b' c' htls => ?_, fun b' c' hc' ho' => ?_, fun b' c' hc' ho' => ?_⟩
  · cases pData with
    | none => exact ⟨c, install_self, ho⟩
    | some block => exact ⟨block, rfl, hholds block hdata.1⟩
  · by_cases hb : b' = bucketOf size
    · subst hb
      rw [install_self] at htls
      cases htls
      exact ⟨hc, .inl ho⟩
    · rw [install_other hb] at htls
      have hne : c' ≠ c := by
        intro heq
        subst heq
        exact hnot b' htls
      obtain ⟨hchunk, howns⟩ := h.tls b' c' htls
      refine ⟨(hchunks c' hne).trans hchunk, .inl ?_⟩
      rw [howner c' hne]
      refine howns.resolve_right fun hrep => ?_
      -- the chunk to be replaced is of the same bucket
      rw [hpc] at hrep
      cases pData with
      | none => exact hrep
      | some block =>
        cases (hrep : block.pChunk = c')
        rw [hdata.1.1] at hchunk
        cases hchunk
        exact hb rfl
  · by_cases hne : c' = c
    · subst hne
      rw [hc] at hc'
      cases hc'
      exact install_self
    · rw [hchunks c' hne] at hc'
      rw [howner c' hne] at ho'
      have htls := h.current b' c' hc' ho'
      by_cases hb : b' = bucketOf size
      · subst hb
        cases pData with
        | none =>
          rw [(hdata : l.spTlsChunk (bucketOf size) = none)] at htls
          cases htls
        | some block =>
          obtain ⟨-, hcurrent, hout⟩ := hdata
          rw [hcurrent] at htls
          cases htls
          rw [hout] at ho'
          cases ho'
      · rw [install_other hb]
        exact htls
  · have hne : c' ≠ c := by
      intro heq
      subst heq
      rw [ho] at ho'
      cases ho'
    rw [hchunks c' hne] at hc'
    rw [howner c' hne] at ho'
    have hrec := (h.recycling b' c' hc' ho').1
    rw [hpc] at hrec
    exact hrec.elim

omit [DecidableEq τ] in
/-- Chunks that belong to a pool, or to nobody yet, are not current. -/
theorem ThreadOk.not_tls {m : Memory} {l : Local} (h : ThreadOk m g t l)
    (hpc : l.pc = .poolAlloc step size pData) {c : Nat}
    (hc : ∀ b, m.chunks c = some b → g.owner c = .pooled) (b : Bucket) :
    l.spTlsChunk b ≠ some c := by
  intro htls
  obtain ⟨hchunk, ho⟩ := h.tls b c htls
  have hpooled := hc b hchunk
  rcases ho with ho | hrep
  · rw [hpooled] at ho
    cases ho
  · have hok := h.pc
    rw [hpc] at hok hrep
    cases pData with
    | none => exact hrep
    | some block =>
      cases (hrep : block.pChunk = c)
      rw [hok.2.2.2] at hpooled
      cases hpooled

omit [DecidableEq τ] in
theorem install_claims {l : Local} {c : Nat} {b : Bucket} :
    (l.install size pData c).pc.claims b = 0 ∧ (l.install size pData c).pc.fails b = 0 := by
  cases pData <;> exact ⟨rfl, rfl⟩

section Top

variable {m : Memory} {b : Bucket} {c : Nat} {l : List Nat}

omit [DecidableEq τ] in
theorem MemoryOk.pooled_ne (h : MemoryOk m g) {b' : Bucket} (hb : b' ≠ b) {c' : Nat}
    (hc : c ∈ g.pooled b) (hc' : c' ∈ g.pooled b') : c' ≠ c := by
  intro heq
  subst heq
  have hchunk := (h.pooled b c' hc).1
  rw [(h.pooled b' c' hc').1] at hchunk
  cases hchunk
  exact hb rfl

omit [DecidableEq τ] in
theorem MemoryOk.pop (h : MemoryOk m g) (hl : g.pooled b = c :: l) {links : Links Nat}
    (hnext : links.pNextNode = m.pNextNode) (hlinks : LinksOk links (m.pops b + 1) l) :
    MemoryOk (m.setLinks b links) ((g.give c (.current t)).setPooled b l) := by
  have hc : c ∈ g.pooled b := by
    rw [hl]
    exact List.mem_cons_self
  have hstate := h.chunk c b (h.pooled b c hc).1
  rw [(h.pooled b c hc).2] at hstate
  obtain ⟨-, halloc, hfree, hout⟩ := hstate
  have hnodup := (h.links b).nodup
  rw [hl] at hnodup
  have hcl := (List.nodup_cons.1 hnodup).1
  refine ⟨fun c' b' hc' => ?_, h.index, h.live, h.nodup, fun b' => ?_, fun b' c' hmem => ?_,
    h.apart⟩
  · rw [Ghost.setPooled_owner]
    by_cases hne : c' = c
    · subst hne
      rw [Ghost.give_self]
      refine ⟨Nat.lt_of_le_of_lt (Nat.le_of_eq halloc) (by decide), ?_⟩
      simp only [Ghost.setPooled_out, Ghost.give_out, Memory.setLinks, hout, hfree, halloc,
        Finset.card_empty]
    · rw [Ghost.give_other _ hne]
      refine (h.chunk c' b' hc').congr rfl rfl rfl fun _ hmem => ?_
      by_cases hb : b' = b
      · subst hb
        rw [hl] at hmem
        rw [Ghost.setPooled_self]
        exact (List.mem_cons.1 hmem).resolve_left hne
      · rw [Ghost.setPooled_other _ hb]
        exact hmem
  · by_cases hb : b' = b
    · subst hb
      rw [setLinks_self, setLinks_pops, Ghost.setPooled_self, hlinks.count]
      exact hlinks
    · rw [Ghost.setPooled_other _ hb]
      exact h.links_other hb fun c' _ => congrFun hnext c'
  · have hbefore : c' ∈ g.pooled b' ∧ c' ≠ c := by
      by_cases hb : b' = b
      · subst hb
        rw [Ghost.setPooled_self] at hmem
        refine ⟨hl ▸ List.mem_cons_of_mem _ hmem, ?_⟩
        intro heq
        subst heq
        exact hcl hmem
      · rw [Ghost.setPooled_other _ hb] at hmem
        exact ⟨hmem, h.pooled_ne hb hc hmem⟩
    rw [Ghost.setPooled_owner, Ghost.give_other _ hbefore.2]
    exact h.pooled b' c' hbefore.1

omit [DecidableEq τ] in
theorem Rely.pop {u : τ} (h : MemoryOk m g) (hl : g.pooled b = c :: l) (hu : u ≠ t)
    {links : Links Nat} (hnext : links.pNextNode = m.pNextNode)
    (hlinks : LinksOk links (m.pops b + 1) l) :
    Rely u m g (m.setLinks b links) ((g.give c (.current t)).setPooled b l) := by
  have hc : c ∈ g.pooled b := by
    rw [hl]
    exact List.mem_cons_self
  have howner := (h.pooled b c hc).2
  refine ⟨fun _ _ h => h, fun _ _ h => .inl h, fun _ _ _ => ?_, fun _ _ _ => ?_,
    fun c' _ _ _ => ⟨rfl, rfl, congrFun hnext c'⟩, fun n block hh => ⟨hh.2.1, hh.2.2, fun ho => ?_⟩,
    fun b' => ?_⟩
  · refine g.give_iff (by rw [howner]; exact nofun) ?_
    intro heq
    cases heq
    exact hu rfl
  · exact g.give_iff (by rw [howner]; exact nofun) nofun
  · rw [Ghost.setPooled_owner, Ghost.give_other, ho]
    rintro heq
    rw [heq, howner] at ho
    cases ho
  · by_cases hb : b' = b
    · subst hb
      rw [setLinks_pops, Ghost.setPooled_self, hl, hlinks.count]
      exact .pop
    · rw [setLinks_pops_other hb, Ghost.setPooled_other _ hb]
      exact .refl

end Top

section Construct

variable {m : Memory} {b : Bucket} {a c : Nat}

omit [DecidableEq τ] in
theorem fits_none (h : m.Fits b a) : m.chunks a = none := by
  cases ha : m.chunks a with
  | none => rfl
  | some b' =>
    have hdisjoint := h a b' ha
    simp only [Span.Disjoint, nodeSpan, Bucket.nodeSize] at hdisjoint
    omega

theorem construct_self : (m.construct b a).chunks a = some b ∧
    (m.construct b a).mAllocCount a = 0 ∧ (m.construct b a).mFreeCount a = 0 :=
  ⟨Function.update_self _ _ _, Function.update_self _ _ _, Function.update_self _ _ _⟩

theorem construct_other (hc : c ≠ a) : (m.construct b a).chunks c = m.chunks c ∧
    (m.construct b a).mAllocCount c = m.mAllocCount c ∧
    (m.construct b a).mFreeCount c = m.mFreeCount c ∧
    (m.construct b a).pNextNode c = m.pNextNode c :=
  ⟨Function.update_of_ne hc _ _, Function.update_of_ne hc _ _, Function.update_of_ne hc _ _,
    Function.update_of_ne hc _ _⟩

omit [DecidableEq τ] in
theorem MemoryOk.construct (h : MemoryOk m g) (hfits : m.Fits b a) :
    MemoryOk (m.construct b a) ((g.give a (.current t)).setOut a ∅) := by
  have hnone := fits_none hfits
  have hne : ∀ c b', m.chunks c = some b' → c ≠ a := by
    rintro c b' hc rfl
    rw [hnone] at hc
    cases hc
  have hcases : ∀ c b', (m.construct b a).chunks c = some b' →
      (c = a ∧ b' = b) ∨ (c ≠ a ∧ m.chunks c = some b') := by
    intro c b' hc
    by_cases hca : c = a
    · subst hca
      rw [construct_self.1] at hc
      cases hc
      exact .inl ⟨rfl, rfl⟩
    · rw [(construct_other hca).1] at hc
      exact .inr ⟨hca, hc⟩
  refine ⟨fun c b' hc => ?_, fun c b' hc => ?_, fun block n hlive => ?_, h.nodup, fun b' => ?_,
    fun b' c hmem => ?_, fun c c' b₁ b₂ hc hc' hcc => ?_⟩
  · obtain ⟨rfl, rfl⟩ | ⟨hca, hc⟩ := hcases c b' hc
    · obtain ⟨-, halloc, hfree⟩ := construct_self (m := m) (b := b') (a := c)
      rw [Ghost.setOut_owner, Ghost.give_self]
      simp only [ChunkOk, halloc, hfree, Ghost.setOut_self, Finset.card_empty]
      decide
    · obtain ⟨-, halloc, hfree, -⟩ := construct_other (m := m) (b := b) hca
      rw [Ghost.setOut_owner, Ghost.give_other _ hca]
      exact (h.chunk c b' hc).congr halloc hfree (Ghost.setOut_other _ hca) fun _ => id
  · obtain ⟨rfl, rfl⟩ | ⟨hca, hc⟩ := hcases c b' hc
    · rw [Ghost.setOut_self]
      exact fun i hi => absurd hi (Finset.notMem_empty i)
    · rw [Ghost.setOut_other _ hca, (construct_other hca).2.1]
      exact h.index c b' hc
  · obtain ⟨hc, hout, hholder⟩ := h.live block n hlive
    have hca := hne _ _ hc
    rw [(construct_other hca).1, Ghost.setOut_other _ hca]
    exact ⟨hc, hout, hholder⟩
  · refine (h.links b').congr rfl fun c hmem => ?_
    exact (construct_other (b := b) (hne c b' (h.pooled b' c hmem).1)).2.2.2
  · obtain ⟨hc, ho⟩ := h.pooled b' c hmem
    have hca := hne c b' hc
    rw [(construct_other hca).1, Ghost.setOut_owner, Ghost.give_other _ hca]
    exact ⟨hc, ho⟩
  · obtain ⟨rfl, rfl⟩ | ⟨-, hold⟩ := hcases c b₁ hc <;>
      obtain ⟨rfl, rfl⟩ | ⟨-, hold'⟩ := hcases c' b₂ hc'
    · exact absurd rfl hcc
    · exact hfits c' b₂ hold'
    · exact (hfits c b₁ hold).symm
    · exact h.apart c c' b₁ b₂ hold hold' hcc

omit [DecidableEq τ] in
theorem Rely.construct {u : τ} (hfits : m.Fits b a) (hu : u ≠ t) :
    Rely u m g (m.construct b a) ((g.give a (.current t)).setOut a ∅) := by
  have hnone := fits_none hfits
  have hne : ∀ c b', m.chunks c = some b' → c ≠ a := by
    rintro c b' hc rfl
    rw [hnone] at hc
    cases hc
  refine ⟨fun c b' hc => ?_, fun c b' hc => ?_, fun c b' hc => ?_, fun c b' hc => ?_,
    fun c b' hc _ => ?_, fun n block hh => ?_, fun b' => .refl⟩
  · rw [(construct_other (hne c b' hc)).1, hc]
  · by_cases hca : c = a
    · subst hca
      rw [Ghost.setOut_owner, Ghost.give_self]
      refine .inr ⟨?_, nofun⟩
      intro heq
      cases heq
      exact hu rfl
    · rw [(construct_other hca).1] at hc
      exact .inl hc
  · rw [Ghost.setOut_owner, Ghost.give_other _ (hne c b' hc)]
  · rw [Ghost.setOut_owner, Ghost.give_other _ (hne c b' hc)]
  · exact (construct_other (hne c b' hc)).2
  · have hca := hne _ _ hh.1
    rw [Ghost.setOut_other _ hca, Ghost.setOut_owner, Ghost.give_other _ hca]
    exact ⟨hh.2.1, hh.2.2, id⟩

end Construct

theorem Inv.allocNode (h : Inv s g) {a : Nat}
    (hpc : (s.locals t).pc = .poolAlloc .allocNode size pData)
    (hfits : s.shared.Fits (bucketOf size) a) :
    ∃ g', Inv (s.set t (s.shared.construct (bucketOf size) a) ((s.locals t).install size pData a))
      g' := by
  have hnone := fits_none hfits
  have hpooled : ∀ b, s.shared.chunks a = some b → g.owner a = .pooled := by
    intro b hb
    rw [hnone] at hb
    cases hb
  refine ⟨(g.give a (.current t)).setOut a ∅, h.set (fun u hu => .construct hfits hu)
    (h.memory.construct hfits) ?_ fun b => (h.count b).set ?_ (.inr ?_)⟩
  · refine (h.thread t).install hpc construct_self.1 (g.give_self)
      ((h.thread t).not_tls hpc hpooled) (fun c' hne => (construct_other hne).1)
      (fun c' hne => g.give_other hne) fun block hh => ?_
    have hne : block.pChunk ≠ a := by
      intro heq
      rw [Holds, heq, hnone] at hh
      cases hh.1
    refine ⟨(construct_other hne).1.trans hh.1, ?_, hh.2.2⟩
    rw [Ghost.setOut_other _ hne]
    exact hh.2.1
  · rw [install_claims.1, install_claims.2, hpc]
    rfl
  · rw [install_claims.2, hpc]
    exact Int.le_refl _

theorem Inv.pop (h : Inv s g) {step : PopStep Nat} {c : Nat} {l : List Nat} {links : Links Nat}
    (hpc : (s.locals t).pc = .poolAlloc (.pop step) size pData)
    (hl : g.pooled (bucketOf size) = c :: l) (hnext : links.pNextNode = s.shared.pNextNode)
    (hlinks : LinksOk links (s.shared.pops (bucketOf size) + 1) l) :
    ∃ g', Inv (s.set t (s.shared.setLinks (bucketOf size) links)
      ((s.locals t).install size pData c)) g' := by
  obtain ⟨hchunk, howner⟩ := h.memory.pooled _ c (hl ▸ List.mem_cons_self)
  refine ⟨(g.give c (.current t)).setPooled (bucketOf size) l,
    h.set (fun u hu => .pop h.memory hl hu hnext hlinks) (h.memory.pop hl hnext hlinks) ?_
      fun b => (h.count b).set ?_ (.inr ?_)⟩
  · exact (h.thread t).install hpc hchunk (g.give_self) ((h.thread t).not_tls hpc fun _ _ => howner)
      (fun _ _ => rfl) (fun c' hne => g.give_other hne) fun _ hh => hh
  · rw [install_claims.1, install_claims.2, hpc, setLinks_mPoolingCount]
    by_cases hb : b = bucketOf size
    · subst hb
      rw [Ghost.setPooled_self, hl]
      simp [Pc.claims, Pc.fails]
      omega
    · rw [Ghost.setPooled_other _ hb]
      simp [Pc.claims, Pc.fails, Ne.symm hb]
  · rw [install_claims.2, hpc, setLinks_mPoolingCount]
    exact Int.le_refl _

/-- **A step of the loop of `ObjectPool::Alloc`** reads, or takes the top of the pool. -/
theorem Inv.popLoop (h : Inv s g) {spurious : Bool} {step : PopStep Nat} {links : Links Nat}
    {r : PopStep Nat ⊕ Nat} (hpc : (s.locals t).pc = .poolAlloc (.pop step) size pData)
    (hs : popStep spurious (s.shared.links (bucketOf size)) step = some (links, r)) :
    ∃ g', Inv (s.set t (s.shared.setLinks (bucketOf size) links)
      (r.elim (fun step => (s.locals t).goto (.poolAlloc (.pop step) size pData))
        ((s.locals t).install size pData))) g' := by
  have hok := (h.thread t).pc
  rw [hpc] at hok
  have hclaim : (s.locals t).pc.claims (bucketOf size) = 1 := by
    rw [hpc]
    exact if_pos rfl
  obtain ⟨rfl, step', rfl, hstep'⟩ | ⟨c, l, rfl, hl, hnext, hlinks⟩ :=
    popStep_cases hs (h.memory.links _) hok.1 (h.pooled_pos hclaim) fun _ _ => id
  · rw [setLinks_links]
    exact ⟨g, h.popRead hpc hstep'⟩
  · exact h.pop hpc hl hnext hlinks

end Pop

end CppNetEngine.MemoryAllocator
