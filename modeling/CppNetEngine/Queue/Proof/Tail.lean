import CppNetEngine.Queue.Proof.Steps

/-!
# Moving the tail, linking a node

`moveTail` moves the tail by one node or leaves it as it is (`moveTail_cases`); both keep the
invariant, wherever it is called from (`Inv.moveTail`). The compare-and-swap of `TryEnqueue` links
its node behind the last one (`Inv.link`), if the node it is done on still is at the tail.
-/

namespace CppNetEngine.LockFreeQueue

variable {τ κ α : Type*} [DecidableEq κ] {m m' : Memory κ α} {g : κ → List Nat} {q : κ}

theorem setTail_constructed {tail : Node16} {q' : κ} :
    Constructed (m.setTail q tail) q' ↔ Constructed m q' := by
  unfold Constructed
  rw [Memory.setTail_mHead]

/-- **What a step of `moveTail` does**: it moves the tail to the next node and returns, or leaves
the memory as it is; it does not return where a node is beyond the tail that it has read. -/
theorem moveTail_cases {step : MoveStep} {next : Option MoveStep}
    (h : moveTail m q step = some (m', next)) (hok : MoveOk m q step)
    (htail : (m.queue q).mTail.pNode ≠ none) :
    (m' = m ∧ (∀ step', next = some step' → MoveOk m q step') ∧
      (Lagging m q → step.Current m q → ∃ step', next = some step' ∧ step'.Current m q)) ∨
    (next = none ∧ ∃ b n, (m.queue q).mTail.pNode = some b ∧ m.pNextNode b = some n ∧
      m' = m.setTail q ⟨some n, (m.queue q).mTail.count + 1⟩) := by
  cases step with
  | readCount =>
    cases h
    refine .inl ⟨rfl, fun step' hs => ?_, fun _ _ => ⟨_, rfl, rfl⟩⟩
    cases hs
    exact Nat.le_refl _
  | readNode count =>
    cases h
    refine .inl ⟨rfl, fun step' hs => ?_, fun _ hcur => ⟨_, rfl, hcur⟩⟩
    cases hs
    exact ⟨.of_count hok, htail⟩
  | readNext e =>
    obtain ⟨hwas, -⟩ := hok
    obtain ⟨b, hb, hnext⟩ := Option.map_eq_some_iff.1 h
    cases hnext
    refine .inl ⟨rfl, fun step' hs => ?_, fun hlag hcur => ?_⟩
    · obtain ⟨n, hn, rfl⟩ := Option.map_eq_some_iff.1 hs
      exact ⟨hwas, fun _ => ⟨b, hb, hn⟩⟩
    · obtain ⟨b', n, hb', hn⟩ := hlag
      rw [← hwas.2 hcur, hb] at hb'
      cases hb'
      rw [hn]
      exact ⟨_, rfl, hcur⟩
  | swap e n =>
    obtain ⟨hwas, hnext⟩ := hok
    cases h
    by_cases heq : (m.queue q).mTail = e
    · obtain ⟨b, hb, hn⟩ := hnext heq.symm
      refine .inr ⟨rfl, b, n, ?_, hn, ?_⟩
      · rw [heq]
        exact hb
      · rw [if_pos heq, heq]
    · refine .inl ⟨if_neg heq, nofun, fun _ hcur => ?_⟩
      exact absurd (hwas.2 hcur).symm heq

theorem MemoryOk.advance (h : MemoryOk m g) (hc : Constructed m q) {b n k : Nat}
    (hb : (m.queue q).mTail.pNode = some b) (hn : m.pNextNode b = some n) :
    MemoryOk (m.setTail q ⟨some n, k⟩) g ∧ ¬ Lagging (m.setTail q ⟨some n, k⟩) q := by
  obtain ⟨before, ⟨-, hnone⟩ | ⟨n', hl, hn', hend⟩⟩ := (h.queue q).tail_cases hb hc
  · rw [hn] at hnone
    cases hnone
  · rw [hn] at hn'
    cases hn'
    refine ⟨⟨fun q' => ?_, h.apart, h.allocated⟩, ?_⟩
    · obtain ⟨hlinked, hnodup, htail, hempty⟩ := h.queue q'
      refine ⟨?_, hnodup, fun hne => ?_, fun hnil => ?_⟩
      · rw [Memory.setTail_mHead]
        exact hlinked
      · by_cases hq : q' = q
        · subst hq
          refine ⟨before ++ [b], n, [], ?_, ?_, Nat.zero_le _⟩
          · rw [hl, List.append_assoc]
            rfl
          · rw [Memory.setTail_self]
        · rw [Memory.setTail_other hq]
          exact htail hne
      · rw [Memory.setTail_mCount]
        exact hempty hnil
    · intro hlag
      obtain ⟨b', n', hb', hn'⟩ := hlag
      rw [Memory.setTail_self] at hb'
      cases hb'
      cases hend.symm.trans hn'

theorem Rely.advance {tail : Node16} (ht : (m.queue q).mTail.count < tail.count)
    {mine : Option Nat} (hown : ∀ n, mine = some n → Free m g n) :
    Rely m (m.setTail q tail) g mine where
  head q' hc := by
    rw [setTail_constructed, Memory.setTail_mHead]
    exact ⟨.refl, hc⟩
  tail q' _ := by
    by_cases hq : q' = q
    · subst hq
      rw [Memory.setTail_self]
      exact .of_lt ht
    · rw [Memory.setTail_other hq]
      exact .refl
  headNext _ _ _ _ _ _ hn := ⟨hn, rfl⟩
  tailNext _ _ _ _ _ _ hn := hn
  own n hn := ⟨rfl, rfl, hown n hn⟩

/-- **A step of `moveTail`**, from wherever it is called. -/
theorem Inv.moveTail [DecidableEq τ] {l : List (Event κ α)} {s : State τ κ α} {t : τ}
    (h : Inv l s g) {pc₀ : Pc κ α} {step : MoveStep} {next : Option MoveStep}
    (K : Option MoveStep → Pc κ α) (hpc : s.locals t = pc₀)
    (hs : moveTail s.shared q step = some (m', next)) (hok : MoveOk s.shared q step)
    (hc : Constructed s.shared q)
    (hK : ∀ next, (∀ step', next = some step' → MoveOk s.shared q step') →
      PcOk s.shared (K next))
    (howns : ∀ next, (K next).owns = pc₀.owns) (hweigh : ∀ next, pc₀.Weighs (K next))
    (hmoves : ∀ q', Moves s.shared q' pc₀ → q' = q ∧ step.Current s.shared q ∧
      ∀ step', step'.Current s.shared q → Moves s.shared q (K (some step'))) :
    Inv (l ++ []) (s.set t m' (K next)) g := by
  subst hpc
  have htail := (h.memory.queue q).tail_ne_none hc
  rcases moveTail_cases hs hok htail with ⟨rfl, hstep, hcur⟩ | ⟨rfl, b, n, hb, hn, rfl⟩
  · refine h.goto rfl (hK next hstep) (.inl (howns next)) (hweigh next) fun q' hlag hm => ?_
    obtain ⟨rfl, hcurrent, hto⟩ := hmoves q' hm
    obtain ⟨step', rfl, hcurrent'⟩ := hcur hlag hcurrent
    exact hto step' hcurrent'
  · obtain ⟨hmemory, hlag⟩ := h.memory.advance (k := (s.shared.queue q).mTail.count + 1) hc hb hn
    have hrely : ∀ mine : Option Nat, (∀ n, mine = some n → Free s.shared g n) →
        Rely s.shared (s.shared.setTail q ⟨some n, (s.shared.queue q).mTail.count + 1⟩) g mine :=
      fun mine hmine => .advance (Nat.lt_succ_self _) hmine
    have howned : ∀ n, (K none).owns = some n → Free s.shared g n := by
      intro n hn
      rw [howns none] at hn
      exact (h.thread t).owned n hn
    refine h.set (fun u _ => hrely _ (h.thread u).owned) hmemory
      (ThreadOk.stable (hrely _ howned) ⟨hK none nofun, howned⟩) (fun u n hu hn hn' => ?_)
      (fun q' => (h.count q').set ?_ (.inr ?_)) (fun q' hc' hlag' => ?_) fun q' => ?_
    · rw [howns none] at hn
      exact hu (h.apart u t n hn' hn)
    · obtain ⟨hclaims, hfails, hpending⟩ := hweigh none q'
      rw [Memory.setTail_mCount, hclaims, hfails, hpending]
    · rw [Memory.setTail_mCount, (hweigh none q').2.1]
    · have hne : q' ≠ q := by
        intro heq
        rw [heq] at hlag'
        exact hlag hlag'
      obtain ⟨b', n', hb', hn'⟩ := hlag'
      rw [Memory.setTail_other hne] at hb'
      obtain ⟨u, hu⟩ := h.mover q' (setTail_constructed.1 hc') ⟨b', n', hb', hn'⟩
      refine .inr ⟨u, ?_, hu.congr (Memory.setTail_other hne)⟩
      intro hut
      rw [hut] at hu
      exact hne (hmoves q' hu).1
    · rw [List.append_nil]
      exact h.order q'

/-! ## Linking a node -/

section Link

variable {b n : Nat}

/-- The node is behind the last of the queue. -/
def linkNodes (g : κ → List Nat) (q : κ) (n : Nat) : κ → List Nat :=
  Function.update g q (g q ++ [n])

theorem linkNodes_self : linkNodes g q n q = g q ++ [n] := Function.update_self _ _ _

theorem linkNodes_other {q' : κ} (hq : q' ≠ q) : linkNodes g q n q' = g q' :=
  Function.update_of_ne hq _ _

theorem mem_linkNodes {q' : κ} {n' : Nat} :
    n' ∈ linkNodes g q n q' ↔ n' ∈ g q' ∨ (q' = q ∧ n' = n) := by
  by_cases hq : q' = q
  · subst hq
    rw [linkNodes_self, List.mem_append, List.mem_singleton]
    exact ⟨fun h => h.imp_right fun heq => ⟨rfl, heq⟩, fun h => h.imp_right And.right⟩
  · rw [linkNodes_other hq]
    exact ⟨.inl, fun h => h.resolve_right fun heq => hq heq.1⟩

omit [DecidableEq κ] in
theorem MemoryOk.tail_mem (h : MemoryOk m g) (hc : Constructed m q)
    (hb : (m.queue q).mTail.pNode = some b) : b ∈ g q := by
  obtain ⟨before, b', after, hl, hb', -⟩ := (h.queue q).tail ((h.queue q).constructed.1 hc)
  rw [hb] at hb'
  cases hb'
  rw [hl]
  exact List.mem_append_right _ List.mem_cons_self

theorem MemoryOk.link (h : MemoryOk m g) (hc : Constructed m q)
    (hb : (m.queue q).mTail.pNode = some b) (hlast : m.pNextNode b = none)
    (hn : Free m g n) (hnext : m.pNextNode n = none) :
    MemoryOk (m.setNext b (some n)) (linkNodes g q n) := by
  have hmem := h.tail_mem hc hb
  obtain ⟨before, ⟨hl, -⟩ | ⟨n', -, hn', -⟩⟩ := (h.queue q).tail_cases hb hc
  · refine ⟨fun q' => ?_, fun q₁ q₂ n' h₁ h₂ => ?_, fun q' n' hn' => ?_⟩
    · obtain ⟨hlinked, hnodup, htail, hempty⟩ := h.queue q'
      by_cases hq : q' = q
      · subst hq
        have hfresh := hn.2 q'
        rw [linkNodes_self]
        rw [hl] at hlinked hnodup hfresh ⊢
        have hbefore : b ∉ before := fun hin =>
          (List.nodup_append.1 hnodup).2.2 b hin b (List.mem_singleton_self b) rfl
        obtain ⟨hnb, hne⟩ := not_or.1 fun hor => hfresh (List.mem_append.2 hor)
        have hconcat : (before ++ [b] ++ [n]).Nodup :=
          List.concat_eq_append ▸ hnodup.concat hfresh
        refine ⟨?_, hconcat, fun _ => ⟨before, b, [n], ?_, hb, ?_⟩, ?_⟩
        · rw [List.append_assoc]
          refine hlinked.concat hbefore hnb (fun heq => hne ?_) hnext
          rw [heq]
          exact List.mem_singleton_self n
        · rw [List.append_assoc]
          rfl
        · exact Nat.le_refl _
        · intro hnil
          simp at hnil
      · rw [linkNodes_other hq]
        exact ⟨hlinked.update (fun hin => hq (h.apart q' q b hin hmem)) _, hnodup, htail, hempty⟩
    · rcases mem_linkNodes.1 h₁ with h₁ | ⟨hq₁, hn₁⟩ <;>
        rcases mem_linkNodes.1 h₂ with h₂ | ⟨hq₂, hn₂⟩
      · exact h.apart q₁ q₂ n' h₁ h₂
      · rw [hn₂] at h₁
        exact absurd h₁ (hn.2 q₁)
      · rw [hn₁] at h₂
        exact absurd h₂ (hn.2 q₂)
      · rw [hq₁, hq₂]
    · rcases mem_linkNodes.1 hn' with hn' | ⟨-, rfl⟩
      · exact h.allocated q' n' hn'
      · exact hn.1
  · rw [hlast] at hn'
    cases hn'

theorem Rely.link (hlast : m.pNextNode b = none) {mine : Option Nat} (hmem : b ∈ g q)
    (hown : ∀ n', mine = some n' → Free m g n' ∧ n' ≠ n) :
    Rely m (m.setNext b (some n)) (linkNodes g q n) mine := by
  have hnext : ∀ p n', m.pNextNode p = some n' →
      (m.setNext b (some n)).pNextNode p = some n' := by
    intro p n' hp
    refine (Function.update_of_ne ?_ _ _).trans hp
    intro heq
    rw [heq, hlast] at hp
    cases hp
  refine ⟨fun q' hc => ⟨.refl, hc⟩, fun q' _ => .refl,
    fun q' _ _ p n' _ hn' => ⟨hnext p n' hn', rfl⟩,
    fun q' _ _ b' n' _ hn' => hnext b' n' hn', fun n' hn' => ?_⟩
  obtain ⟨hfree, hne⟩ := hown n' hn'
  refine ⟨rfl, Function.update_of_ne ?_ _ _, hfree.1, fun q' hin => ?_⟩
  · intro heq
    rw [heq] at hfree
    exact hfree.2 q hmem
  · rcases mem_linkNodes.1 hin with hin | ⟨-, heq⟩
    · exact hfree.2 q' hin
    · exact hne heq

/-- **The compare-and-swap of `TryEnqueue`** on the node at the tail. -/
theorem Inv.link [DecidableEq τ] {l : List (Event κ α)} {s : State τ κ α} {t : τ} {data : α}
    (h : Inv l s g) (hpc : s.locals t = .enqueue q data (.swap n (some b)))
    (hb : (s.shared.queue q).mTail.pNode = some b) (hlast : s.shared.pNextNode b = none) :
    Inv (l ++ [.linked q data])
      (s.set t (s.shared.setNext b (some n)) (.enqueue q data (.moveTail .readCount)))
      (linkNodes g q n) := by
  have hown : (s.locals t).owns = some n := by rw [hpc]; rfl
  have hfree := (h.thread t).owned n hown
  have hok := (h.thread t).ok
  rw [hpc] at hok
  obtain ⟨hc, hdata, hnext, -⟩ := hok
  have hmem := h.memory.tail_mem hc hb
  refine h.set (fun u hu => .link hlast hmem fun n' hn' => ⟨(h.thread u).owned n' hn', ?_⟩)
    (h.memory.link hc hb hlast hfree hnext) ⟨⟨hc, trivial⟩, nofun⟩ nofun
    (fun q' => (h.count q').set ?_ (.inr ?_)) (fun q' hc' hlag => ?_) fun q' => ?_
  · intro heq
    rw [heq] at hn'
    exact hu (h.apart u t n hn' hown)
  · rw [hpc]
    by_cases hq : q' = q
    · subst hq
      have hlen : (linkNodes g q' n q').tail.length = (g q').tail.length + 1 := by
        rw [linkNodes_self, List.tail_append_of_ne_nil ((h.memory.queue q').constructed.1 hc),
          List.length_append, List.length_singleton]
      rw [hlen]
      simp [Pc.claims, Pc.fails, Pc.pending, Memory.setNext]
      omega
    · rw [linkNodes_other hq]
      simp [Pc.claims, Pc.fails, Pc.pending, Memory.setNext, Ne.symm hq]
  · rw [hpc]
    exact Int.le_refl _
  · by_cases hq : q' = q
    · exact .inl ⟨hq.symm, trivial⟩
    · obtain ⟨b', n', hb', hn'⟩ := hlag
      have hne : b' ≠ b := by
        intro heq
        rw [heq] at hb'
        exact hq (h.memory.apart q' q b (h.memory.tail_mem hc' hb') hmem)
      obtain ⟨u, hu⟩ := h.mover q' hc' ⟨b', n', hb', (Function.update_of_ne hne _ _).symm.trans hn'⟩
      refine .inr ⟨u, ?_, hu.congr rfl⟩
      intro hut
      rw [hut, hpc] at hu
      exact hu
  · have horder := h.order q'
    unfold linkedTo takenFrom at horder ⊢
    rw [List.filterMap_append, List.filterMap_append, horder]
    by_cases hq : q' = q
    · subst hq
      rw [linkNodes_self, List.tail_append_of_ne_nil ((h.memory.queue q').constructed.1 hc)]
      simp [Memory.setNext, hdata]
    · rw [linkNodes_other hq]
      simp [Memory.setNext, Ne.symm hq]

end Link

end CppNetEngine.LockFreeQueue
