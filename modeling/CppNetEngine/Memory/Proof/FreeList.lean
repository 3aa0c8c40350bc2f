import CppNetEngine.Memory.ObjectPool
import CppNetEngine.Stack.Proof.TopNode

/-!
# The free list of an object pool

Every object of a pool is in its list, with a caller, or with one thread in `Alloc` or `Free`
(`Inv`), whatever the order of the steps, as long as the count at the top does not overflow: a stale
compare-and-swap of `Alloc` fails though pushes are not counted, and a thread that has counted down
a positive `mPoolingCount` finds an object (`safe_of_observed`).
-/

namespace CppNetEngine.ObjectPool

open TopNode

variable {τ : Type*}

/-- The object that a thread has in `Alloc` or in `Free`. -/
def Pc.hand : Pc → Option Nat
  | .alloc (.ret p) | .free p (.push _) => some p
  | _ => none

/-- What holds of a pool in every state. -/
structure Safe (s : State τ) : Prop where
  /-- No object is held twice, by callers or by calls in progress. -/
  heldOnce : s.shared.held.Nodup ∧
    (∀ t p, (s.locals t).hand = some p → p ∉ s.shared.held) ∧
    ∀ t u p, (s.locals t).hand = some p → (s.locals u).hand = some p → t = u
  /-- The list ends, goes through no object twice and through none that is held. Whatever was
  allocated and is not held is in it. At rest `mPoolingCount` is its length. -/
  list : ∃ l, Linked s.shared.links.pNextNode s.shared.links.top.pNode l ∧ l.Nodup ∧
    (∀ p ∈ l, p ∉ s.shared.held ∧ ∀ t, (s.locals t).hand ≠ some p) ∧
    (∀ p, p ∈ s.shared.allocated ↔
      p ∈ l ∨ p ∈ s.shared.held ∨ ∃ t, (s.locals t).hand = some p) ∧
    ((∀ t, s.locals t = .idle) → s.shared.mPoolingCount = l.length)
  /-- No call follows a null pointer. -/
  notNull : ∀ t k, s.locals t ≠ .idle → (step k s.shared (s.locals t)).isSome

/-- What the threads of a pool have to do with its list. -/
def users : Users Pc Memory (BitVec 64) where
  links := Memory.links
  count := Memory.mPoolingCount
  allocated := Memory.allocated
  popping
    | .alloc (.pop step) => some step
    | _ => none
  pushing
    | .free _ (.push step) => some step
    | _ => none
  holds := Pc.hand
  fails
    | .alloc .fetchAdd => 1
    | _ => 0
  pending
    | .free _ .fetchAdd => 1
    | _ => 0

/-- The invariant, after `pops` objects were popped: of the list `l`, and of who has an object that
is not in it. -/
structure Inv (s : State τ) (pops : Nat) (l : List Nat) : Prop where
  nodes : users.Inv s pops l
  nodup : (l ++ s.shared.held).Nodup
  apart : ∀ t p, (s.locals t).hand = some p → p ∉ l ++ s.shared.held
  covered : ∀ p, p ∈ s.shared.allocated ↔
    p ∈ l ++ s.shared.held ∨ ∃ t, (s.locals t).hand = some p

variable {s : State τ} {t : τ} {m : Memory} {pc : Pc} {k : Outside} {pops pops' : Nat}
  {l l' : List Nat}

namespace Inv

theorem nodup_hand (h : Inv s pops l) (t : τ) :
    (l ++ s.shared.held ++ (s.locals t).hand.toList).Nodup := by
  refine List.nodup_append.2 ⟨h.nodup, ?_, fun p hp p' hp' heq => ?_⟩
  · cases (s.locals t).hand with
    | none => exact List.nodup_nil
    | some p => exact List.nodup_singleton p
  · rw [Option.mem_toList] at hp'
    exact h.apart t p' hp' (heq ▸ hp)

variable [DecidableEq τ]

/-- **A step of a thread** moves objects between the list, the callers and the thread, and adds
those that are new. -/
theorem move (new : List Nat) (h : Inv s pops l) (hnodes : users.Inv (s.set t m pc) pops' l')
    (hperm : (l' ++ m.held ++ pc.hand.toList).Perm
      (new ++ (l ++ s.shared.held ++ (s.locals t).hand.toList)))
    (hnew : new.Nodup ∧ ∀ p ∈ new, p ∉ s.shared.allocated)
    (halloc : ∀ p, p ∈ m.allocated ↔ p ∈ new ∨ p ∈ s.shared.allocated) :
    Inv (s.set t m pc) pops' l' := by
  have hold : ∀ p ∈ l ++ s.shared.held ++ (s.locals t).hand.toList, p ∈ s.shared.allocated := by
    intro p hp
    refine (h.covered p).2 ((List.mem_append.1 hp).imp_right fun hhand => ⟨t, ?_⟩)
    exact Option.mem_toList.1 hhand
  have hnodup : (l' ++ m.held ++ pc.hand.toList).Nodup := by
    refine hperm.nodup_iff.2 (List.nodup_append.2 ⟨hnew.1, h.nodup_hand t, ?_⟩)
    intro p hp p' hp' heq
    exact hnew.2 p hp (hold p (heq ▸ hp'))
  have hother : ∀ u, u ≠ t → ∀ p, (s.locals u).hand = some p →
      p ∉ l' ++ m.held ++ pc.hand.toList := by
    intro u hu p hp hin
    have hmem : p ∈ s.shared.allocated := (h.covered p).2 (.inr ⟨u, hp⟩)
    rcases List.mem_append.1 (hperm.mem_iff.1 hin) with hin | hin
    · exact hnew.2 p hin hmem
    · rcases List.mem_append.1 hin with hin | hin
      · exact h.apart u p hp hin
      · exact hu (h.nodes.apart u t p hp (Option.mem_toList.1 hin))
  refine ⟨hnodes, (List.nodup_append.1 hnodup).1, fun u p hp hin => ?_, fun p => ?_⟩
  · by_cases hu : u = t
    · subst hu
      rw [Threads.set_self] at hp
      exact (List.nodup_append.1 hnodup).2.2 p hin p (Option.mem_toList.2 hp) rfl
    · rw [Threads.set_other _ _ _ _ hu] at hp
      exact hother u hu p hp (List.mem_append_left _ hin)
  · rw [Threads.set_shared, halloc]
    constructor
    · intro hp
      have hplace : p ∈ l' ++ m.held ++ pc.hand.toList ∨
          ∃ u, u ≠ t ∧ (s.locals u).hand = some p := by
        rcases hp with hp | hp
        · exact .inl (hperm.mem_iff.2 (List.mem_append_left _ hp))
        · rcases (h.covered p).1 hp with hp | ⟨u, hu⟩
          · exact .inl (hperm.mem_iff.2 (List.mem_append_right _ (List.mem_append_left _ hp)))
          · by_cases hut : u = t
            · subst hut
              refine .inl (hperm.mem_iff.2 (List.mem_append_right _ ?_))
              exact List.mem_append_right _ (Option.mem_toList.2 hu)
            · exact .inr ⟨u, hut, hu⟩
      rcases hplace with hp | ⟨u, hut, hu⟩
      · refine (List.mem_append.1 hp).imp_right fun hp => ⟨t, ?_⟩
        rw [Threads.set_self]
        exact Option.mem_toList.1 hp
      · refine .inr ⟨u, ?_⟩
        rw [Threads.set_other _ _ _ _ hut]
        exact hu
    · rintro (hp | ⟨u, hu⟩)
      · exact (List.mem_append.1 (hperm.mem_iff.1 (List.mem_append_left _ hp))).imp_right (hold p)
      · by_cases hut : u = t
        · subst hut
          rw [Threads.set_self] at hu
          have hin := hperm.mem_iff.1 (List.mem_append_right _ (Option.mem_toList.2 hu))
          exact (List.mem_append.1 hin).imp_right (hold p)
        · rw [Threads.set_other _ _ _ _ hut] at hu
          exact .inr ((h.covered p).2 (.inr ⟨u, hu⟩))

theorem stay (h : Inv s pops l) (hnodes : users.Inv (s.set t m pc) pops l)
    (hheld : m.held = s.shared.held) (halloc : m.allocated = s.shared.allocated)
    (hhand : pc.hand = (s.locals t).hand) : Inv (s.set t m pc) pops l := by
  refine h.move [] hnodes ?_ ⟨List.nodup_nil, nofun⟩ fun p => ?_
  · rw [hheld, hhand]
    exact .refl _
  · rw [halloc]
    exact ⟨.inr, fun hp => hp.resolve_left nofun⟩

end Inv

/-! ## Steps -/

/-- The count at the top does not come back to what it was. -/
theorem cast_count (hpops : pops < 2 ^ 63) (n : Nat) (hn : n ≤ pops)
    (heq : (n : BitVec 64) = pops) : n = pops := by
  have hmod := congrArg BitVec.toNat heq
  simp only [BitVec.natCast_eq_ofNat, BitVec.toNat_ofNat] at hmod
  omega

theorem popped_eq {step : PopStep (BitVec 64)} {links : Links (BitVec 64)}
    {r : PopStep (BitVec 64) ⊕ Nat} (hs : popStep k.spurious m.links step = some (links, r)) :
    popped k m (.alloc (.pop step)) = r.elim (fun _ => []) fun p => [p] := by
  cases step with
  | readCount | readNode =>
    cases hs
    rfl
  | readNext count pNode =>
    obtain ⟨p, -, heq⟩ := Option.map_eq_some_iff.1 hs
    cases heq
    rfl
  | swap count pNode pNextNode =>
    simp only [popStep] at hs
    simp only [popped]
    split at hs <;> rename_i hcond <;> cases hs
    · exact if_pos hcond
    · exact if_neg hcond

variable [DecidableEq τ]

theorem Inv.allocStep (h : Inv s pops l) {step : AllocStep} (hpc : s.locals t = .alloc step)
    (hguard : CallsGuard s t (.next k)) (hpops : pops < 2 ^ 63)
    (hs : allocStep k s.shared step = some (m, pc)) :
    ∃ l', Inv (s.set t m pc) (pops + (popped k s.shared (.alloc step)).length) l' := by
  cases step with
  | fetchSub =>
    simp only [ObjectPool.allocStep] at hs
    split at hs <;> rename_i hn <;> cases hs
    · refine ⟨l, h.stay (h.nodes.addCount ⟨rfl, rfl⟩ (by rintro _ ⟨⟩) rfl rfl ?_ (.inr ?_))
        rfl rfl ?_⟩
      · simp [users, Users.claims, hpc]
      · simp [users, hpc]
      · rw [hpc]
        rfl
    · refine ⟨l, h.stay (h.nodes.addCount ⟨rfl, rfl⟩ (fun step hstep => ?_) rfl rfl ?_ (.inl ?_))
        rfl rfl ?_⟩
      · cases hstep
        rfl
      · simp [users, Users.claims, hpc]
      · simp only [users]
        omega
      · rw [hpc]
        rfl
  | fetchAdd =>
    cases hs
    refine ⟨l, h.stay (h.nodes.addCount ⟨rfl, rfl⟩ (by rintro _ ⟨⟩) rfl rfl ?_ (.inr ?_))
      rfl rfl ?_⟩
    · simp [users, Users.claims, hpc]
    · simp [users, hpc]
    · rw [hpc]
      rfl
  | allocNode =>
    cases hs
    have hfresh : k.address ∉ s.shared.allocated := hguard (by rw [hpc]; rfl)
    obtain ⟨hnot, hnobody⟩ := h.nodes.fresh hfresh
    refine ⟨l, h.move [k.address] (h.nodes.keep rfl (fun p hp => ?_) (fun p hp => .inl ?_)
      (by rintro _ ⟨⟩) (by rintro _ ⟨⟩) (fun p hp => ?_) ?_ (.inr ?_)) ?_
      ⟨List.nodup_singleton _, fun p hp => ?_⟩ fun p => ?_⟩
    · refine Links.setNext_other _ _ fun heq => ?_
      exact hfresh (heq ▸ hp)
    · exact Finset.mem_insert_of_mem hp
    · cases hp
      exact ⟨Finset.mem_insert_self _ _, hnot, fun u _ => hnobody u⟩
    · rw [hpc]
      rfl
    · rw [hpc]
      exact Int.le_refl _
    · rw [hpc]
      refine List.perm_iff_count.2 fun x => ?_
      simp [Pc.hand, List.count_cons]
      omega
    · rw [List.mem_singleton.1 hp]
      exact hfresh
    · rw [Finset.mem_insert, List.mem_singleton]
  | pop step =>
    obtain ⟨⟨links, r⟩, hpop, heq⟩ := Option.map_eq_some_iff.1 hs
    cases heq
    rw [popped_eq hpop]
    have hI := h.nodes.pop (m := { s.shared with links := links })
      (fun r => .alloc (r.elim .pop .ret)) (by rw [hpc]; rfl) hpop (cast_count hpops)
      ⟨rfl, rfl, rfl⟩ (fun _ => ⟨rfl, rfl⟩) (fun _ => ⟨rfl, rfl, rfl⟩)
      (fun r => by rw [hpc]; cases r <;> exact ⟨rfl, rfl⟩)
    rcases hI with ⟨hI, step', rfl⟩ | ⟨p, l', rfl, rfl, hI⟩
    · refine ⟨l, h.stay hI rfl rfl ?_⟩
      rw [hpc]
      rfl
    · refine ⟨l', h.move [] hI ?_ ⟨List.nodup_nil, by rintro _ ⟨⟩⟩ fun p => by simp⟩
      rw [hpc]
      refine List.perm_iff_count.2 fun x => ?_
      simp [Pc.hand, List.count_cons]
      omega
  | ret p =>
    cases hs
    refine ⟨l, h.move [] (h.nodes.keep rfl (fun _ _ => rfl) (fun _ hp => .inl hp) (by rintro _ ⟨⟩)
      (by rintro _ ⟨⟩) (by rintro _ ⟨⟩) ?_ (.inr ?_)) ?_ ⟨List.nodup_nil, by rintro _ ⟨⟩⟩ fun p => by simp⟩
    · rw [hpc]
      rfl
    · rw [hpc]
      exact Int.le_refl _
    · rw [hpc]
      refine List.perm_iff_count.2 fun x => ?_
      simp [Pc.hand, List.count_cons]

theorem Inv.freeStep (h : Inv s pops l) {p : Nat} {step : FreeStep}
    (hpc : s.locals t = .free p step) :
    ∃ l', Inv (s.set t (freeStep k s.shared p step).1 (freeStep k s.shared p step).2) pops l' := by
  cases step with
  | push step =>
    simp only [ObjectPool.freeStep]
    cases hs : pushStep k.spurious s.shared.links p step with
    | mk links r =>
      have hI := h.nodes.push (m := { s.shared with links := links })
        (fun r => .free p (r.elim .fetchAdd .push)) (by rw [hpc]; rfl) (by rw [hpc]; rfl) hs
        ⟨rfl, rfl, rfl⟩ (fun _ => ⟨rfl, rfl⟩) rfl (fun r => by cases r <;> rfl) (by rw [hpc]; rfl)
        (fun r => by rw [hpc]; cases r <;> exact ⟨rfl, rfl⟩)
      rcases hI with ⟨hI, step', rfl⟩ | ⟨rfl, hI⟩
      · refine ⟨l, h.stay hI rfl rfl ?_⟩
        rw [hpc]
        rfl
      · refine ⟨p :: l, h.move [] hI ?_ ⟨List.nodup_nil, nofun⟩ fun p => by simp⟩
        rw [hpc]
        refine List.perm_iff_count.2 fun x => ?_
        simp [Pc.hand, List.count_cons]
        omega
  | fetchAdd =>
    refine ⟨l, h.stay (h.nodes.addCount ⟨rfl, rfl⟩ nofun rfl rfl ?_ (.inr ?_)) rfl rfl ?_⟩
    · simp [users, Users.claims, hpc, ObjectPool.freeStep]
    · simp [users, hpc, ObjectPool.freeStep]
    · rw [hpc]
      rfl

theorem Inv.act (h : Inv s pops l) {a : Action} (hguard : CallsGuard s t a)
    (hpops : pops < 2 ^ 63) (hs : act a s.shared (s.locals t) = some (m, pc)) :
    ∃ l', Inv (s.set t m pc) (pops + (watched s (.thread t a)).length) l' := by
  cases a with
  | next k =>
    change step k s.shared (s.locals t) = some (m, pc) at hs
    simp only [watched]
    cases hpc : s.locals t with
    | idle =>
      rw [hpc] at hs
      cases hs
    | alloc step =>
      rw [hpc] at hs
      exact h.allocStep hpc hguard hpops hs
    | free p step =>
      rw [hpc] at hs
      have hI := h.freeStep hpc (k := k)
      rw [Option.some.inj hs] at hI
      exact hI
  | alloc =>
    cases hpc : s.locals t <;> rw [hpc] at hs <;> cases hs
    refine ⟨l, h.stay (h.nodes.goto ⟨rfl, rfl, rfl⟩ ?_ nofun nofun ?_) rfl rfl ?_⟩ <;> rw [hpc]
    · exact ⟨rfl, rfl⟩
    · exact ⟨rfl, rfl⟩
    · rfl
  | free p =>
    cases hpc : s.locals t <;> rw [hpc] at hs <;> cases hs
    have hin : p ∈ l ++ s.shared.held := List.mem_append_right l hguard
    have hnot : p ∉ l := fun hl => (List.nodup_append.1 h.nodup).2.2 p hl p hguard rfl
    refine ⟨l, h.move [] (h.nodes.keep rfl (fun _ _ => rfl) (fun _ hp => .inl hp) nofun
      (fun step hstep => ?_) (fun p' hp' => ?_) ?_ (.inr ?_)) ?_ ⟨List.nodup_nil, nofun⟩
      fun p => by simp⟩
    · cases hstep
      rfl
    · cases hp'
      exact ⟨(h.covered p).2 (.inl hin), hnot, fun u _ hu => h.apart u p hu hin⟩
    · rw [hpc]
      rfl
    · rw [hpc]
      exact Int.le_refl _
    · rw [hpc]
      refine List.perm_iff_count.2 fun x => ?_
      have hcount := List.perm_iff_count.1 (List.perm_cons_erase hguard) x
      simp [Pc.hand, List.count_cons] at hcount ⊢
      omega

/-! ## Runs -/

omit [DecidableEq τ] in
theorem construct_links (nodes : List Nat) : ∀ (m : Memory) (l : List Nat),
    LinksOk m.links 0 l → (nodes.reverse ++ l).Nodup → (∀ p, p ∈ m.allocated ↔ p ∈ l) →
    m.held = [] →
    LinksOk (nodes.foldl Memory.addNode m).links 0 (nodes.reverse ++ l) ∧
      (∀ p, p ∈ (nodes.foldl Memory.addNode m).allocated ↔ p ∈ nodes.reverse ++ l) ∧
      (nodes.foldl Memory.addNode m).held = [] ∧
      (nodes.foldl Memory.addNode m).mPoolingCount = m.mPoolingCount := by
  induction nodes with
  | nil => exact fun m l hlinks _ halloc hheld => ⟨hlinks, halloc, hheld, rfl⟩
  | cons a nodes ih =>
    intro m l hlinks hnodup halloc hheld
    rw [List.reverse_cons, List.append_assoc, List.singleton_append] at hnodup ⊢
    have htail := (List.nodup_append.1 hnodup).2.1
    obtain ⟨hnot, -⟩ := List.nodup_cons.1 htail
    refine ih (m.addNode a) (a :: l) ⟨⟨rfl, ?_⟩, htail, hlinks.count⟩ hnodup (fun p => ?_) hheld
    · rw [show (m.addNode a).links.pNextNode a = m.links.top.pNode from Links.setNext_self _ _ _]
      exact hlinks.linked.update hnot _
    · rw [List.mem_cons, ← halloc]
      exact Finset.mem_insert

omit [DecidableEq τ] in
theorem Inv.init {nodes : List Nat} (hnodup : nodes.Nodup) (hshared : s.shared = .construct nodes)
    (hidle : ∀ t, s.locals t = .idle) : Inv s 0 nodes.reverse := by
  obtain ⟨hlinks, halloc, hheld, hcount⟩ :=
    construct_links nodes ⟨⟨⟨none, 0⟩, fun _ => none⟩, nodes.length, ∅, []⟩ []
      ⟨rfl, List.nodup_nil, rfl⟩ (by simpa using hnodup) (fun p => by simp) rfl
  rw [List.append_nil] at hlinks halloc
  have hnone : ∀ t p, (s.locals t).hand = some p → False := by
    intro t p hp
    rw [hidle t] at hp
    cases hp
  change LinksOk (Memory.construct nodes).links 0 nodes.reverse at hlinks
  change ∀ p, p ∈ (Memory.construct nodes).allocated ↔ p ∈ nodes.reverse at halloc
  change (Memory.construct nodes).held = [] at hheld
  change (Memory.construct nodes).mPoolingCount = nodes.length at hcount
  rw [← hshared] at hlinks halloc hheld hcount
  refine ⟨⟨hlinks, fun p hp => (halloc p).2 hp, fun t step hstep => ?_,
    fun t p step hp => (hnone t p hp).elim, fun t p hp => (hnone t p hp).elim,
    fun t u p hp => (hnone t p hp).elim, ?_⟩, ?_, fun t p hp => (hnone t p hp).elim, fun p => ?_⟩
  · rw [hidle t] at hstep
    cases hstep
  · change Threads.Counted s users.claims users.fails users.pending s.shared.mPoolingCount _
    rw [hcount, List.length_reverse]
    refine .init fun t => ?_
    rw [hidle t]
    exact ⟨rfl, rfl, rfl⟩
  · rw [hheld, List.append_nil]
    exact List.nodup_reverse.2 hnodup
  · rw [halloc, hheld, List.append_nil]
    exact ⟨.inl, fun hp => hp.resolve_right fun ⟨t, ht⟩ => hnone t p ht⟩

omit [DecidableEq τ] in
/-- No call follows a null pointer. -/
theorem Inv.step_isSome (h : Inv s pops l) (k : Outside) (hpc : s.locals t ≠ .idle) :
    (step k s.shared (s.locals t)).isSome := by
  cases heq : s.locals t with
  | idle => exact absurd heq hpc
  | alloc step =>
    cases step with
    | pop step =>
      change (ObjectPool.allocStep k s.shared (.pop step)).isSome
      rw [ObjectPool.allocStep, Option.isSome_map]
      exact h.nodes.popStep_isSome (t := t) (by rw [heq]; rfl) _ _
    | fetchSub | fetchAdd | allocNode | ret => rfl
  | free p step => rfl

omit [DecidableEq τ] in
theorem Inv.safe (h : Inv s pops l) : Safe s := by
  obtain ⟨-, hheld, hdisjoint⟩ := List.nodup_append.1 h.nodup
  refine ⟨⟨hheld, fun t p hp hin => h.apart t p hp (List.mem_append_right l hin),
    fun t u p => h.nodes.apart t u p⟩, ⟨l, h.nodes.links.linked, h.nodes.links.nodup,
    fun p hp => ⟨fun hin => hdisjoint p hp p hin rfl, fun t ht => ?_⟩, fun p => ?_, fun hidle => ?_⟩,
    fun t k hpc => h.step_isSome k hpc⟩
  · exact h.apart t p ht (List.mem_append_left _ hp)
  · rw [h.covered, List.mem_append, or_assoc]
  · refine h.nodes.count.atRest fun t => ?_
    rw [hidle t]
    exact ⟨rfl, rfl, rfl⟩

/-- **The free list of a pool is safe** in every run of fewer than `2 ^ 63` pops in which objects
are freed by who holds them. -/
theorem safe_of_observed {pops : List Nat} (h : Observed pops s) (hpops : pops.length < 2 ^ 63) :
    Safe s := by
  have hinv : pops.length < 2 ^ 63 → ∃ l, Inv s pops.length l := by
    refine Threads.observed
      (I := fun pops s => pops.length < 2 ^ 63 → ∃ l, Inv s pops.length l) ?_ ?_ ?_ h
    · rintro s ⟨⟨nodes, hnodup, hshared⟩, hidle⟩ -
      exact ⟨_, .init hnodup hshared hidle⟩
    · intro pops s t a m pc hI hguard hs hlt
      rw [List.length_append] at hlt ⊢
      obtain ⟨l, hl⟩ := hI (by omega)
      exact hl.act hguard (by omega) hs
    · exact fun _ _ e => e.elim
  obtain ⟨l, hl⟩ := hinv hpops
  exact hl.safe

/-- A pool without nodes. -/
def empty : State Bool := ⟨.construct [], fun _ => .idle⟩

/-- A thread takes steps; `mi_malloc` gives it the address. -/
def steps (t : Bool) (n address : Nat) : List (ThreadAction Bool Action Empty) :=
  List.replicate n (.thread t (.next ⟨false, address⟩))

/-- A thread has read the top, 1, and what is next to it. The other thread takes 1, allocates 3, and
frees 3 and then 1: the same object is at the top again, and the compare-and-swap fails. -/
theorem safe_of_observed_staleTop : ∃ (pops : List Nat) (s : State Bool), Observed pops s ∧
    pops = [1, 1] ∧ s.shared.held = [1] ∧ s.shared.mPoolingCount = 2 ∧ Safe s := by
  let run := .thread true .alloc :: steps true 4 1 ++ .thread true .alloc :: steps true 4 2 ++
    .thread true (.free 2) :: steps true 4 0 ++ .thread true (.free 1) :: steps true 4 0 ++
    .thread false .alloc :: steps false 4 0 ++
    .thread true .alloc :: steps true 6 0 ++ .thread true .alloc :: steps true 4 3 ++
    .thread true (.free 3) :: steps true 4 0 ++ .thread true (.free 1) :: steps true 4 0 ++
    steps false 6 0
  have hguard : (machine Bool).Allowed (Threads.Guard CallsGuard fun _ _ => True) empty run := by
    decide +kernel
  have hrun : Observed _ _ :=
    Machine.Observed.exec run (.init (s := empty) ⟨⟨[], List.nodup_nil, rfl⟩, fun _ => rfl⟩)
      hguard rfl
  exact ⟨_, _, hrun, rfl, rfl, rfl, safe_of_observed hrun (by decide)⟩

end CppNetEngine.ObjectPool
