import CppNetEngine.Queue.Proof.Nodes

/-!
# Steps that leave the queues as they are

Most steps of `TryEnqueue` and `TryDequeue` leave heads, tails and the nodes in queues as they are
(`Keeps`): they read, count, or write to a node that is the thread's own. They keep the invariant if
the thread knows afterwards what it has to (`Inv.keep`, `Inv.goto`).
-/

namespace CppNetEngine.LockFreeQueue

variable {τ κ α : Type*} {m m' : Memory κ α} {g : κ → List Nat} {q : κ}

/-- The queues have the same heads, tails and nodes. -/
structure Keeps (m m' : Memory κ α) (g : κ → List Nat) : Prop where
  head : ∀ q, (m'.queue q).mHead = (m.queue q).mHead
  tail : ∀ q, (m'.queue q).mTail = (m.queue q).mTail
  count : ∀ q, g q = [] → (m'.queue q).mCount = (m.queue q).mCount
  node : ∀ q, ∀ n ∈ g q, m'.pNextNode n = m.pNextNode n ∧ m'.data n = m.data n ∧
    n ∈ m'.allocated

namespace Keeps

theorem constructed (h : Keeps m m' g) : Constructed m' q ↔ Constructed m q := by
  unfold Constructed
  rw [h.head]

theorem memory (h : Keeps m m' g) (hm : MemoryOk m g) : MemoryOk m' g where
  queue q := by
    obtain ⟨hlinked, hnodup, htail, hempty⟩ := hm.queue q
    refine ⟨?_, hnodup, ?_, fun hnil => (h.count q hnil).trans (hempty hnil)⟩
    · rw [h.head]
      exact hlinked.congr fun n hn => (h.node q n hn).1
    · rw [h.tail]
      exact htail
  apart := hm.apart
  allocated q n hn := (h.node q n hn).2.2

theorem lagging (h : Keeps m m' g) (hm : MemoryOk m g) (hc : Constructed m q)
    (hlag : Lagging m' q) : Lagging m q := by
  obtain ⟨b, n, hb, hn⟩ := hlag
  rw [h.tail] at hb
  obtain ⟨before, b', after, hl, hb', -⟩ :=
    (hm.queue q).tail ((hm.queue q).constructed.1 hc)
  rw [hb] at hb'
  cases hb'
  have hmem : b ∈ g q := by
    rw [hl]
    exact List.mem_append_right _ List.mem_cons_self
  exact ⟨b, n, hb, (h.node q b hmem).1 ▸ hn⟩

theorem rely (h : Keeps m m' g) (hm : MemoryOk m g) {mine : Option Nat}
    (hown : ∀ n, mine = some n → Free m g n ∧ m'.data n = m.data n ∧
      m'.pNextNode n = m.pNextNode n ∧ n ∈ m'.allocated) : Rely m m' g mine where
  head q hc := by
    rw [h.constructed, h.head]
    exact ⟨.refl, hc⟩
  tail q _ := by
    rw [h.tail]
    exact .refl
  headNext q hc _ p n hp hn := by
    obtain ⟨p', rest, hg, hp'⟩ := (hm.queue q).cons_of_constructed hc
    rw [hp] at hp'
    cases hp'
    have hlinked := (hm.queue q).linked
    rw [hg] at hlinked
    cases rest with
    | nil =>
      rw [(hlinked.2 : m.pNextNode p = none)] at hn
      cases hn
    | cons n' rest =>
      obtain ⟨-, hn', -⟩ := hlinked
      rw [hn] at hn'
      cases hn'
      have hmem : p ∈ g q ∧ n ∈ g q := by
        rw [hg]
        exact ⟨List.mem_cons_self, List.mem_cons_of_mem _ List.mem_cons_self⟩
      exact ⟨(h.node q p hmem.1).1.trans hn, (h.node q n hmem.2).2.1⟩
  tailNext q hc _ b n hb hn := by
    obtain ⟨before, b', after, hl, hb', -⟩ :=
      (hm.queue q).tail ((hm.queue q).constructed.1 hc)
    rw [hb] at hb'
    cases hb'
    have hmem : b ∈ g q := by
      rw [hl]
      exact List.mem_append_right _ List.mem_cons_self
    exact (h.node q b hmem).1.trans hn
  own n hn := by
    obtain ⟨hfree, hdata, hnext, halloc⟩ := hown n hn
    exact ⟨hdata, hnext, halloc, hfree.2⟩

end Keeps

variable [DecidableEq τ] [DecidableEq κ] {l : List (Event κ α)} {s : State τ κ α} {t : τ}

theorem Inv.keep (h : Inv l s g) {pc : Pc κ α} {new : List (Event κ α)}
    (hkeeps : Keeps s.shared m g)
    (hother : ∀ u n, u ≠ t → (s.locals u).owns = some n → m.data n = s.shared.data n ∧
      m.pNextNode n = s.shared.pNextNode n ∧ n ∈ m.allocated)
    (hthread : ThreadOk m g pc)
    (hapart : ∀ u n, u ≠ t → pc.owns = some n → (s.locals u).owns ≠ some n)
    (hcount : ∀ q, ((s.shared.queue q).mCount : Int) + (s.locals t).claims q +
        (s.locals t).fails q + (s.locals t).pending q =
      (m.queue q).mCount + pc.claims q + pc.fails q + pc.pending q)
    (hpos : ∀ q, 0 ≤ (m.queue q).mCount ∨
      (s.shared.queue q).mCount + (s.locals t).fails q ≤ (m.queue q).mCount + pc.fails q)
    (hmoves : ∀ q, Lagging s.shared q → Moves s.shared q (s.locals t) → Moves s.shared q pc)
    (hnew : ∀ q, linkedTo q new = [] ∧ takenFrom q new = []) :
    Inv (l ++ new) (s.set t m pc) g := by
  refine h.set (fun u hu => hkeeps.rely h.memory fun n hn => ?_) (hkeeps.memory h.memory) hthread
    hapart (fun q => (h.count q).set ?_ (hpos q)) (fun q hc hlag => ?_) fun q => ?_
  · exact ⟨(h.thread u).owned n hn, hother u n hu hn⟩
  · have hq := hcount q
    omega
  · have hc' := hkeeps.constructed.1 hc
    have hlag' := hkeeps.lagging h.memory hc' hlag
    obtain ⟨u, hu⟩ := h.mover q hc' hlag'
    by_cases hut : u = t
    · subst hut
      exact .inl ((hmoves q hlag' hu).congr (hkeeps.tail q))
    · exact .inr ⟨u, hut, hu.congr (hkeeps.tail q)⟩
  · have hdata : (g q).tail.map m.data = (g q).tail.map s.shared.data :=
      List.map_congr_left fun n hn => (hkeeps.node q n (List.mem_of_mem_tail hn)).2.1
    unfold linkedTo takenFrom at hnew ⊢
    rw [List.filterMap_append, List.filterMap_append, (hnew q).1, (hnew q).2, List.append_nil,
      List.append_nil, hdata]
    exact h.order q

theorem Inv.goto (h : Inv l s g) {pc₀ pc : Pc κ α} (hpc₀ : s.locals t = pc₀)
    (hpc : PcOk s.shared pc) (howns : pc.owns = pc₀.owns ∨ pc.owns = none) (hweigh : pc₀.Weighs pc)
    (hmoves : ∀ q, Lagging s.shared q → Moves s.shared q pc₀ → Moves s.shared q pc) :
    Inv (l ++ []) (s.set t s.shared pc) g := by
  subst hpc₀
  have hown : ∀ n, pc.owns = some n → (s.locals t).owns = some n := by
    intro n hn
    rcases howns with heq | heq
    · rw [← heq, hn]
    · rw [heq] at hn
      cases hn
  refine h.keep ⟨fun _ => rfl, fun _ => rfl, fun _ _ => rfl, fun q n hn => ⟨rfl, rfl, ?_⟩⟩
    (fun u n _ hn => ⟨rfl, rfl, ((h.thread u).owned n hn).1⟩)
    ⟨hpc, fun n hn => (h.thread t).owned n (hown n hn)⟩ (fun u n hu hn hn' => ?_)
    (fun q => ?_) (fun q => .inr ?_) hmoves fun q => ⟨rfl, rfl⟩
  · exact h.memory.allocated q n hn
  · exact hu (h.apart u t n hn' (hown n hn))
  · obtain ⟨hclaims, hfails, hpending⟩ := hweigh q
    rw [hclaims, hfails, hpending]
  · rw [(hweigh q).2.1]

end CppNetEngine.LockFreeQueue
