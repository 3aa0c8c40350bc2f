import CppNetEngine.Queue.Proof.Head

/-!
# Every step keeps the invariant

`TryEnqueue` and `TryDequeue`, step by step (`Inv.enqueueStep`, `Inv.dequeueStep`). The one step
that has to be watched is the compare-and-swap of `TryEnqueue` (`LinkGuard`): the node whose
`pNextNode` it sets was read from the tail without a count.
-/

namespace CppNetEngine.LockFreeQueue

variable {τ κ α : Type*} [DecidableEq κ]

/-- The queue and the node of the compare-and-swap of `TryEnqueue`, if that is next. -/
def Pc.links : Pc κ α → Option (κ × Nat)
  | .enqueue q _ (.swap _ pNode) => pNode.map (q, ·)
  | _ => none

/-- If the compare-and-swap of `TryEnqueue` succeeds, the node it is done on still is at the
tail. -/
def LinkGuard (s : State τ κ α) (t : τ) : Prop :=
  ∀ link ∈ (s.locals t).links, s.shared.pNextNode link.2 = none →
    (s.shared.queue link.1).mTail.pNode = some link.2

instance (s : State τ κ α) (t : τ) : Decidable (LinkGuard s t) :=
  Option.decidableForallMem _

variable [DecidableEq τ] {l : List (Event κ α)} {s : State τ κ α} {g : κ → List Nat} {t : τ}
  {q : κ} {m : Memory κ α} {pc : Pc κ α} {k : Outside}

theorem Inv.addCount (h : Inv l s g) {pc₀ : Pc κ α} {n : Int} {new : List (Event κ α)}
    (hpc₀ : s.locals t = pc₀) (hc : Constructed s.shared q) (hpc : PcOk s.shared pc)
    (howns : pc.owns = none)
    (hweigh : ∀ q', (pc₀.claims q' : Int) + pc₀.fails q' + pc₀.pending q' =
      (if q = q' then n else 0) + pc.claims q' + pc.fails q' + pc.pending q')
    (hpos : ∀ q', 0 ≤ (s.shared.queue q').mCount + (if q = q' then n else 0) ∨
      (pc₀.fails q' : Int) ≤ (if q = q' then n else 0) + pc.fails q')
    (hmoves : ∀ q', ¬ Moves s.shared q' pc₀)
    (hnew : ∀ q', linkedTo q' new = [] ∧ takenFrom q' new = []) :
    Inv (l ++ new) (s.set t (s.shared.addCount q n) pc) g := by
  subst hpc₀
  have hkeeps : Keeps s.shared (s.shared.addCount q n) g := by
    refine ⟨fun _ => Memory.addCount_mHead, fun _ => Memory.addCount_mTail, fun q' hnil => ?_,
      fun q' n hn => ⟨rfl, rfl, h.memory.allocated q' n hn⟩⟩
    rw [Memory.addCount_mCount, if_neg, add_zero]
    intro heq
    exact (h.memory.queue q').constructed.1 (heq ▸ hc) hnil
  have hnone : ∀ n, pc.owns = some n → False := by
    intro n hn
    rw [howns] at hn
    cases hn
  have hthread : ThreadOk s.shared g pc := ⟨hpc, fun n hn => (hnone n hn).elim⟩
  refine h.keep hkeeps (fun u n _ hn => ⟨rfl, rfl, ((h.thread u).owned n hn).1⟩)
    (hthread.stable (hkeeps.rely h.memory fun n hn => (hnone n hn).elim))
    (fun u n _ hn => (hnone n hn).elim) (fun q' => ?_) (fun q' => ?_)
    (fun q' _ hm => absurd hm (hmoves q')) hnew
  · have hq := hweigh q'
    rw [Memory.addCount_mCount]
    omega
  · rw [Memory.addCount_mCount]
    rcases hpos q' with hq | hq
    · exact .inl hq
    · exact .inr (by omega)

/-- A step that writes to the node that the thread owns, or takes or gives back a node. -/
theorem Inv.own (h : Inv l s g) {pc₀ : Pc κ α} {a : Nat} {new : List (Event κ α)}
    (hpc₀ : s.locals t = pc₀) (hqueue : m.queue = s.shared.queue)
    (hnode : ∀ n, n ≠ a → m.pNextNode n = s.shared.pNextNode n ∧ m.data n = s.shared.data n ∧
      (n ∈ s.shared.allocated → n ∈ m.allocated))
    (ha : (∀ q, a ∉ g q) ∧ ∀ u, u ≠ t → (s.locals u).owns ≠ some a)
    (hpc : PcOk m pc) (howns : ∀ n, pc.owns = some n → n = a ∧ a ∈ m.allocated)
    (hweigh : pc₀.Weighs pc) (hmoves : ∀ q, ¬ Moves s.shared q pc₀)
    (hnew : ∀ q', linkedTo q' new = [] ∧ takenFrom q' new = []) :
    Inv (l ++ new) (s.set t m pc) g := by
  subst hpc₀
  have hne : ∀ q n, n ∈ g q → n ≠ a := by
    intro q n hn heq
    rw [heq] at hn
    exact ha.1 q hn
  refine h.keep ⟨fun q => by rw [hqueue], fun q => by rw [hqueue], fun q _ => by rw [hqueue],
      fun q n hn => ?_⟩ (fun u n hu hn => ?_) ⟨hpc, fun n hn => ?_⟩ (fun u n hu hn => ?_)
    (fun q => ?_) (fun q => .inr ?_) (fun q _ hm => absurd hm (hmoves q)) hnew
  · obtain ⟨hnext, hdata, halloc⟩ := hnode n (hne q n hn)
    exact ⟨hnext, hdata, halloc (h.memory.allocated q n hn)⟩
  · have hna : n ≠ a := by
      intro heq
      rw [heq] at hn
      exact ha.2 u hu hn
    obtain ⟨hnext, hdata, halloc⟩ := hnode n hna
    exact ⟨hdata, hnext, halloc ((h.thread u).owned n hn).1⟩
  · obtain ⟨rfl, halloc⟩ := howns n hn
    exact ⟨halloc, ha.1⟩
  · obtain ⟨rfl, -⟩ := howns n hn
    exact ha.2 u hu
  · obtain ⟨hclaims, hfails, hpending⟩ := hweigh q
    rw [hqueue, hclaims, hfails, hpending]
  · rw [hqueue, (hweigh q).2.1]

omit [DecidableEq τ] in
theorem Inv.own_of (h : Inv l s g) {pc₀ : Pc κ α} {a : Nat} (hpc₀ : s.locals t = pc₀)
    (ha : pc₀.owns = some a) :
    (∀ q, a ∉ g q) ∧ ∀ u, u ≠ t → (s.locals u).owns ≠ some a := by
  subst hpc₀
  exact ⟨((h.thread t).owned a ha).2, fun u hu hown => hu (h.apart u t a hown ha)⟩

omit [DecidableEq τ] in
theorem Inv.own_fresh (h : Inv l s g) {a : Nat} (ha : a ∉ s.shared.allocated) :
    (∀ q, a ∉ g q) ∧ ∀ u, u ≠ t → (s.locals u).owns ≠ some a :=
  ⟨h.memory.fresh ha, fun u _ hown => ha ((h.thread u).owned a hown).1⟩

/-! ## `TryEnqueue` -/

theorem Inv.enqueueStep (h : Inv l s g) {data : α} {step : EnqueueStep}
    (hpc : s.locals t = .enqueue q data step) (hguard : CallsGuard s t (.next k))
    (hlink : LinkGuard s t) (hs : enqueueStep k s.shared q data step = some (m, pc)) :
    ∃ g', Inv (l ++ seen s.shared (s.locals t)) (s.set t m pc) g' := by
  obtain ⟨hok, howned⟩ := h.thread t
  rw [hpc] at hok howned
  obtain ⟨hc, hok⟩ := hok
  have htail := (h.memory.queue q).tail_ne_none hc
  rw [hpc]
  cases step with
  | loadCount =>
    cases hs
    split
    · exact ⟨g, h.goto hpc trivial (.inl rfl) (fun _ => ⟨rfl, rfl, rfl⟩) fun _ _ => False.elim⟩
    · exact ⟨g, h.goto hpc ⟨hc, trivial⟩ (.inl rfl) (fun _ => ⟨rfl, rfl, rfl⟩)
        fun _ _ => False.elim⟩
  | newObject =>
    cases hs
    have hfresh := hguard (by rw [hpc]; rfl)
    refine ⟨g, h.own (a := k.address) hpc rfl (fun n _ => ⟨rfl, rfl, ?_⟩) (h.own_fresh hfresh)
      ⟨hc, trivial⟩ (fun n hn => ?_) (fun _ => ⟨rfl, rfl, rfl⟩) (fun _ => id) fun _ => ⟨rfl, rfl⟩⟩
    · exact Finset.mem_insert_of_mem
    · cases hn
      exact ⟨rfl, Finset.mem_insert_self _ _⟩
  | setData a =>
    cases hs
    refine ⟨g, h.own (a := a) hpc rfl (fun n hn => ⟨rfl, ?_, id⟩) (h.own_of hpc rfl) ⟨hc, ?_⟩
      (fun n hn => ?_) (fun _ => ⟨rfl, rfl, rfl⟩) (fun _ => id) fun _ => ⟨rfl, rfl⟩⟩
    · exact Function.update_of_ne hn _ _
    · exact Function.update_self _ _ _
    · cases hn
      exact ⟨rfl, (howned a rfl).1⟩
  | setNext a =>
    cases hs
    refine ⟨g, h.own (a := a) hpc rfl (fun n hn => ⟨?_, rfl, id⟩) (h.own_of hpc rfl) ⟨hc, hok, ?_⟩
      (fun n hn => ?_) (fun _ => ⟨rfl, rfl, rfl⟩) (fun _ => id) fun _ => ⟨rfl, rfl⟩⟩
    · exact Function.update_of_ne hn _ _
    · exact Function.update_self _ _ _
    · cases hn
      exact ⟨rfl, (howned a rfl).1⟩
  | readTail a =>
    cases hs
    exact ⟨g, h.goto hpc ⟨hc, hok.1, hok.2, htail⟩ (.inl rfl) (fun _ => ⟨rfl, rfl, rfl⟩)
      fun _ _ => False.elim⟩
  | readNext a pNode =>
    obtain ⟨b, rfl, hnext⟩ := Option.map_eq_some_iff.1 hs
    cases hnext
    exact ⟨g, h.goto hpc ⟨hc, hok.1, hok.2.1⟩ (.inl rfl) (fun _ => ⟨rfl, rfl, rfl⟩)
      fun _ _ => False.elim⟩
  | readTailAgain a pExpected =>
    cases hs
    split
    · exact ⟨g, h.goto hpc ⟨hc, hok.1, hok.2, htail⟩ (.inl rfl) (fun _ => ⟨rfl, rfl, rfl⟩)
        fun _ _ => False.elim⟩
    · exact ⟨g, h.goto hpc ⟨hc, hok.1, hok.2, trivial⟩ (.inl rfl) (fun _ => ⟨rfl, rfl, rfl⟩)
        fun _ _ => False.elim⟩
  | swap a pNode =>
    obtain ⟨b, rfl, hswap⟩ := Option.map_eq_some_iff.1 hs
    have hlast := hlink (q, b) (by rw [hpc]; rfl)
    by_cases hnone : s.shared.pNextNode b = none
    · rw [if_pos hnone] at hswap
      cases hswap
      rw [seen, if_pos hnone]
      exact ⟨_, h.link hpc (hlast hnone) hnone⟩
    · rw [if_neg hnone] at hswap
      cases hswap
      rw [seen, if_neg hnone]
      exact ⟨g, h.goto hpc ⟨hc, hok.1, hok.2.1, trivial⟩ (.inl rfl) (fun _ => ⟨rfl, rfl, rfl⟩)
        fun _ _ => False.elim⟩
  | retry a step =>
    obtain ⟨⟨m', next⟩, hmove, hs⟩ := Option.map_eq_some_iff.1 hs
    cases hs
    refine ⟨g, h.moveTail (fun next => .enqueue q data (next.elim (.readTail a) (.retry a))) hpc
      hmove hok.2.2 hc (fun next hnext => ?_) (fun next => ?_) (fun next _ => ?_)
      fun _ => False.elim⟩
    · cases next with
      | none => exact ⟨hc, hok.1, hok.2.1⟩
      | some step' => exact ⟨hc, hok.1, hok.2.1, hnext step' rfl⟩
    · cases next <;> rfl
    · cases next <;> exact ⟨rfl, rfl, rfl⟩
  | moveTail step =>
    obtain ⟨⟨m', next⟩, hmove, hs⟩ := Option.map_eq_some_iff.1 hs
    cases hs
    refine ⟨g, h.moveTail (fun next => .enqueue q data (next.elim .fetchAdd .moveTail)) hpc hmove
      hok hc (fun next hnext => ?_) (fun next => ?_) (fun next _ => ?_) fun q' hm => ?_⟩
    · cases next with
      | none => exact ⟨hc, trivial⟩
      | some step' => exact ⟨hc, hnext step' rfl⟩
    · cases next <;> rfl
    · cases next <;> exact ⟨rfl, rfl, rfl⟩
    · obtain ⟨rfl, hcur⟩ := hm
      exact ⟨rfl, hcur, fun step' hcur' => ⟨rfl, hcur'⟩⟩
  | fetchAdd =>
    cases hs
    refine ⟨g, h.addCount hpc hc trivial rfl (fun q' => ?_) (fun q' => .inr ?_) (fun _ => id)
      fun _ => ⟨rfl, rfl⟩⟩
    · simp only [Pc.claims, Pc.fails, Pc.pending]
      split <;> rfl
    · simp only [Pc.fails]
      split <;> decide

/-! ## `TryDequeue` -/

omit [DecidableEq κ] in
/-- What the head was, and is not, never is again. -/
theorem gone_of_ne {e v : Node16} (hwas : e.Was v) (hne : e ≠ v) : e.Gone v :=
  .inr (Nat.lt_of_le_of_ne hwas.1 fun heq => hne (hwas.2 heq))

omit [DecidableEq κ] in
/-- What was expected, and is not at the head, never is again. -/
theorem past_gone {e : Node16} (hpast : e.pNode = none ∨ e.Was (m.queue q).mHead)
    (hne : e ≠ (m.queue q).mHead) : e.Gone (m.queue q).mHead :=
  hpast.elim .inl fun hwas => gone_of_ne hwas hne

/-- The count is counted down: there is a claim, or the count has to be counted up again. -/
theorem Inv.fetchSub (h : Inv l s g) {outData : α} {e d : Node16}
    (hpc : s.locals t = .dequeue q outData e d .fetchSub) :
    Inv (l ++ []) (s.set t (s.shared.addCount q (-1)) (.dequeue q outData e d
      (if (s.shared.queue q).mCount ≤ 0 then .fetchAdd else .compare))) g := by
  have hok := (h.thread t).ok
  rw [hpc] at hok
  obtain ⟨hc, hok⟩ := hok
  split <;> rename_i hn
  · refine h.addCount hpc hc ⟨hc, hok⟩ rfl (fun q' => ?_) (fun q' => .inr ?_) (fun _ => id)
      fun _ => ⟨rfl, rfl⟩
    · simp only [Pc.claims, Pc.fails, Pc.pending]
      split <;> rfl
    · simp only [Pc.fails]
      split <;> decide
  · refine h.addCount hpc hc ⟨hc, .inl hok⟩ rfl (fun q' => ?_) (fun q' => ?_) (fun _ => id)
      fun _ => ⟨rfl, rfl⟩
    · simp only [Pc.claims, Pc.fails, Pc.pending]
      split <;> rfl
    · by_cases hq : q = q'
      · subst hq
        rw [if_pos rfl]
        exact .inl (by omega)
      · rw [if_neg hq]
        exact .inr (Int.le_refl _)

/-- The node after the expected one is read: where that is the head, there is one. -/
theorem Inv.readNext (h : Inv l s g) {outData : α} {e d : Node16}
    (hpc : s.locals t = .dequeue q outData e d .readNext) {p : Nat} (hp : e.pNode = some p) :
    Inv (l ++ []) (s.set t s.shared (.dequeue q outData e ⟨s.shared.pNextNode p, e.count + 1⟩
      (if s.shared.pNextNode p = none then .swap else .readData))) g := by
  have hok := (h.thread t).ok
  rw [hpc] at hok
  obtain ⟨hc, hwas, -⟩ := hok
  obtain ⟨p', n, rest, -, hp', hn⟩ := h.head_next hc (t := t) (by rw [hpc]; exact if_pos rfl)
  have hhead : e = (s.shared.queue q).mHead → s.shared.pNextNode p = some n := by
    intro heq
    rw [← heq, hp] at hp'
    cases hp'
    exact hn
  split <;> rename_i hnone
  · refine h.goto hpc ⟨hc, .inl (gone_of_ne hwas fun heq => ?_)⟩ (.inr rfl)
      (fun _ => ⟨rfl, rfl, rfl⟩) fun _ _ => False.elim
    rw [hhead heq] at hnone
    cases hnone
  · refine h.goto hpc ⟨hc, hwas, hnone, fun heq => ⟨p, n, hp, hhead heq, ?_, trivial⟩⟩
      (.inr rfl) (fun _ => ⟨rfl, rfl, rfl⟩) fun _ _ => False.elim
    rw [hhead heq]

theorem Inv.deleteObject (h : Inv l s g) {outData : α} {e d : Node16}
    (hpc : s.locals t = .dequeue q outData e d .deleteObject) :
    Inv (l ++ [.dequeued q outData]) (s.set t (s.shared.deleteObject e.pNode) .idle) g := by
  cases hp : e.pNode with
  | none =>
    refine h.keep ⟨fun _ => rfl, fun _ => rfl, fun _ _ => rfl, fun q' n hn => ⟨rfl, rfl, ?_⟩⟩
      (fun u n _ hn => ⟨rfl, rfl, ?_⟩) ⟨trivial, by rintro _ ⟨⟩⟩
      (by rintro _ _ _ ⟨⟩) ?_ (fun q' => .inr ?_) ?_ ?_ <;>
      try rw [hpc]
    · exact h.memory.allocated q' n hn
    · exact ((h.thread u).owned n hn).1
    · exact fun q' => rfl
    · exact Int.le_refl _
    · exact fun q' _ hm => hm.elim
    · exact fun q' => ⟨rfl, rfl⟩
  | some p =>
    refine h.own (a := p) hpc rfl (fun n hn => ⟨rfl, rfl, fun hmem => ?_⟩)
      (h.own_of hpc hp) trivial (by rintro _ ⟨⟩) (fun _ => ⟨rfl, rfl, rfl⟩) (fun _ => id)
      fun _ => ⟨rfl, rfl⟩
    exact Finset.mem_erase.2 ⟨hn, hmem⟩

theorem Inv.dequeueStep (h : Inv l s g) {outData : α} {e d : Node16} {step : DequeueStep}
    (hpc : s.locals t = .dequeue q outData e d step)
    (hs : dequeueStep k s.shared q outData e d step = some (m, pc)) :
    ∃ g', Inv (l ++ seen s.shared (s.locals t)) (s.set t m pc) g' := by
  have hok := (h.thread t).ok
  rw [hpc] at hok
  obtain ⟨hc, hok⟩ := hok
  -- a thread in the loop has a claim, so the tail is not at the head
  have hclaim : (s.locals t).claims q = 1 →
      (s.shared.queue q).mHead.pNode ≠ (s.shared.queue q).mTail.pNode := h.head_ne_tail hc
  rw [hpc] at hclaim ⊢
  cases step with
  | fetchSub =>
    cases hs
    exact ⟨g, h.fetchSub hpc⟩
  | fetchAdd =>
    cases hs
    refine ⟨g, h.addCount hpc hc trivial rfl (fun q' => ?_) (fun q' => .inr ?_) (fun _ => id)
      fun _ => ⟨rfl, rfl⟩⟩
    · simp only [Pc.claims, Pc.fails, Pc.pending]
      split <;> rfl
    · simp only [Pc.fails]
      split <;> decide
  | compare =>
    cases hs
    have hne := hclaim (if_pos rfl)
    split
    · refine ⟨g, h.goto hpc ⟨hc, hok, fun heq => ?_⟩ (.inr rfl) (fun _ => ⟨rfl, rfl, rfl⟩)
        fun _ _ => False.elim⟩
      rw [heq]
      exact hne.symm
    · refine ⟨g, h.goto hpc ⟨hc, hok, fun heq => ?_⟩ (.inr rfl) (fun _ => ⟨rfl, rfl, rfl⟩)
        fun _ _ => False.elim⟩
      rw [heq]
  | compareTail pHead =>
    cases hs
    have hne := hclaim (if_pos rfl)
    obtain ⟨hpast, hhead⟩ := hok
    split <;> rename_i heq
    · refine ⟨g, h.goto hpc ⟨hc, past_gone hpast fun he => hne ?_, trivial⟩ (.inr rfl)
        (fun _ => ⟨rfl, rfl, rfl⟩) fun _ _ => False.elim⟩
      rw [← heq, hhead he, he]
    · exact ⟨g, h.goto hpc ⟨hc, trivial⟩ (.inr rfl) (fun _ => ⟨rfl, rfl, rfl⟩)
        fun _ _ => False.elim⟩
  | compareHead pTail =>
    cases hs
    obtain ⟨hpast, htail⟩ := hok
    split <;> rename_i heq
    · refine ⟨g, h.goto hpc ⟨hc, past_gone hpast fun he => htail he ?_, trivial⟩ (.inr rfl)
        (fun _ => ⟨rfl, rfl, rfl⟩) fun _ _ => False.elim⟩
      rw [← heq, he]
    · exact ⟨g, h.goto hpc ⟨hc, trivial⟩ (.inr rfl) (fun _ => ⟨rfl, rfl, rfl⟩)
        fun _ _ => False.elim⟩
  | moveTail step =>
    obtain ⟨⟨m', next⟩, hmove, hs⟩ := Option.map_eq_some_iff.1 hs
    cases hs
    refine ⟨g, h.moveTail (fun next => .dequeue q outData e d (next.elim .swap .moveTail)) hpc
      hmove hok.2 hc (fun next hnext => ?_) (fun next => ?_) (fun next _ => ?_) fun _ => False.elim⟩
    · cases next with
      | none => exact ⟨hc, .inl hok.1⟩
      | some step' => exact ⟨hc, hok.1, hnext step' rfl⟩
    · cases next <;> rfl
    · cases next <;> exact ⟨rfl, rfl, rfl⟩
  | readCount =>
    cases hs
    exact ⟨g, h.goto hpc ⟨hc, Nat.le_refl _⟩ (.inr rfl) (fun _ => ⟨rfl, rfl, rfl⟩)
      fun _ _ => False.elim⟩
  | readNode =>
    cases hs
    rw [if_neg hc]
    exact ⟨g, h.goto hpc ⟨hc, .of_count hok, hc⟩ (.inr rfl) (fun _ => ⟨rfl, rfl, rfl⟩)
      fun _ _ => False.elim⟩
  | readNext =>
    obtain ⟨p, hp, hnext⟩ := Option.map_eq_some_iff.1 hs
    cases hnext
    exact ⟨g, h.readNext hpc hp⟩
  | readData =>
    obtain ⟨n', hn', hdata⟩ := Option.map_eq_some_iff.1 hs
    cases hdata
    obtain ⟨hwas, -, hnext⟩ := hok
    refine ⟨g, h.goto hpc ⟨hc, .inr ⟨hwas, fun heq => ?_⟩⟩ (.inr rfl) (fun _ => ⟨rfl, rfl, rfl⟩)
      fun _ _ => False.elim⟩
    obtain ⟨p, n, hp, hn, hd, -⟩ := hnext heq
    refine ⟨p, n, hp, hn, hd, ?_⟩
    rw [hd] at hn'
    cases hn'
    rfl
  | swap =>
    simp only [LockFreeQueue.dequeueStep] at hs
    by_cases hhead : (s.shared.queue q).mHead = e
    · rw [if_pos hhead] at hs
      cases hs
      rw [seen, if_pos hhead]
      exact ⟨_, h.take hpc hhead⟩
    · rw [if_neg hhead] at hs
      cases hs
      rw [seen, if_neg hhead]
      exact ⟨g, h.goto hpc ⟨hc, .inr .refl⟩ (.inr rfl) (fun _ => ⟨rfl, rfl, rfl⟩)
        fun _ _ => False.elim⟩
  | deleteObject =>
    cases hs
    exact ⟨g, h.deleteObject hpc⟩

end CppNetEngine.LockFreeQueue
