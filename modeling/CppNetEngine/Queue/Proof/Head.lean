import CppNetEngine.Queue.Proof.Tail

/-!
# Moving the head

The compare-and-swap of `TryDequeue` takes the node at the head (`Inv.take`): where the head still
is what was expected, what was read of the nodes is so as well. A new queue has one node, its dummy
(`Inv.construct`).
-/

namespace CppNetEngine.LockFreeQueue

variable {τ κ α : Type*} [DecidableEq κ] {m : Memory κ α} {g : κ → List Nat} {q q' : κ}

section Take

variable {p n k : Nat} {rest : List Nat}

/-- The nodes after the head is moved on. -/
def takeNode (g : κ → List Nat) (q : κ) : κ → List Nat := Function.update g q (g q).tail

theorem takeNode_self : takeNode g q q = (g q).tail := Function.update_self _ _ _

theorem takeNode_other (hq : q' ≠ q) : takeNode g q q' = g q' := Function.update_of_ne hq _ _

theorem mem_of_takeNode {n' : Nat} (h : n' ∈ takeNode g q q') : n' ∈ g q' := by
  by_cases hq : q' = q
  · subst hq
    rw [takeNode_self] at h
    exact List.mem_of_mem_tail h
  · rw [takeNode_other hq] at h
    exact h

theorem MemoryOk.take (h : MemoryOk m g) (hg : g q = p :: n :: rest)
    (hp : (m.queue q).mHead.pNode = some p) (hne : (m.queue q).mTail.pNode ≠ some p) :
    MemoryOk (m.setHead q ⟨some n, k⟩) (takeNode g q) := by
  refine ⟨fun q' => ?_, fun q₁ q₂ n' h₁ h₂ => ?_, fun q' n' hn' => ?_⟩
  · obtain ⟨hlinked, hnodup, htail, hempty⟩ := h.queue q'
    by_cases hq : q' = q
    · subst hq
      obtain ⟨before, b, after, hl, hb, hafter⟩ := htail (by rw [hg]; exact nofun)
      rw [hg] at hlinked hnodup hl
      rw [takeNode_self, hg, List.tail_cons]
      obtain ⟨-, hnext, hrest⟩ := hlinked
      refine ⟨?_, (List.nodup_cons.1 hnodup).2, fun _ => ?_, nofun⟩
      · rw [Memory.setHead_self]
        exact ⟨rfl, hrest⟩
      · rw [Memory.setHead_mTail]
        cases before with
        | nil =>
          cases hl
          exact absurd hb hne
        | cons p' before =>
          obtain ⟨-, hl⟩ := List.cons.inj hl
          exact ⟨before, b, after, hl, hb, hafter⟩
    · rw [takeNode_other hq]
      refine ⟨?_, hnodup, ?_, ?_⟩
      · rw [Memory.setHead_other hq]
        exact hlinked
      · rw [Memory.setHead_mTail]
        exact htail
      · rw [Memory.setHead_mCount]
        exact hempty
  · exact h.apart q₁ q₂ n' (mem_of_takeNode h₁) (mem_of_takeNode h₂)
  · exact h.allocated q' n' (mem_of_takeNode hn')

theorem Rely.take {head : Node16} (hlt : (m.queue q).mHead.count < head.count)
    (hsome : head.pNode ≠ none) {mine : Option Nat} (hown : ∀ n, mine = some n → Free m g n) :
    Rely m (m.setHead q head) (takeNode g q) mine where
  head q' hc := by
    unfold Constructed at hc ⊢
    by_cases hq : q' = q
    · subst hq
      rw [Memory.setHead_self]
      exact ⟨.of_lt hlt, hsome⟩
    · rw [Memory.setHead_other hq]
      exact ⟨.refl, hc⟩
  tail q' _ := by
    rw [Memory.setHead_mTail]
    exact .refl
  headNext _ _ _ _ _ _ hn := ⟨hn, rfl⟩
  tailNext _ _ _ _ _ _ hn := hn
  own n hn := by
    obtain ⟨halloc, hnot⟩ := hown n hn
    exact ⟨rfl, rfl, halloc, fun q' hin => hnot q' (mem_of_takeNode hin)⟩

/-- **The compare-and-swap of `TryDequeue`** on the head that was expected. -/
theorem Inv.take [DecidableEq τ] {l : List (Event κ α)} {s : State τ κ α} {t : τ} {outData : α}
    {e d : Node16} (h : Inv l s g) (hpc : s.locals t = .dequeue q outData e d .swap)
    (hhead : (s.shared.queue q).mHead = e) :
    Inv (l ++ [.taken q outData])
      (s.set t (s.shared.setHead q d) (.dequeue q outData e d .deleteObject)) (takeNode g q) := by
  have hok := (h.thread t).ok
  rw [hpc] at hok
  obtain ⟨hc, hok⟩ := hok
  have hclaim : (s.locals t).claims q = 1 := by
    rw [hpc]
    exact if_pos rfl
  have hnext : NextOk s.shared q e d fun n => s.shared.data n = outData := by
    rcases hok with hgone | ⟨-, hnext⟩
    · rw [← hhead] at hgone
      exact absurd hgone fun hor => hor.elim (fun hnone => hc hnone) (Nat.lt_irrefl _)
    · exact hnext
  obtain ⟨p, n, hp, hn, hd, hdata⟩ := hnext hhead.symm
  obtain ⟨p', n', rest, hg, hp', hn'⟩ := h.head_next hc hclaim
  have hpp : p' = p := by
    rw [hhead, hp] at hp'
    exact (Option.some.inj hp').symm
  subst hpp
  cases hn.symm.trans hn'
  have hne : (s.shared.queue q).mTail.pNode ≠ some p' := by
    intro heq
    exact h.head_ne_tail hc hclaim (hp'.trans heq.symm)
  have hlt : (s.shared.queue q).mHead.count < d.count := by
    rw [hhead, hd]
    exact Nat.lt_succ_self _
  have hmem : p' ∈ g q := by
    rw [hg]
    exact List.mem_cons_self
  have hnotin : ∀ q', p' ∉ takeNode g q q' := by
    intro q' hin
    have heq := h.memory.apart q' q p' (mem_of_takeNode hin) hmem
    rw [heq, takeNode_self, hg] at hin
    have hnodup := (h.memory.queue q).nodup
    rw [hg] at hnodup
    exact (List.nodup_cons.1 hnodup).1 hin
  have hmemory := h.memory.take (k := e.count + 1) hg hp' hne
  rw [← hd] at hmemory
  refine h.set (fun u _ => .take hlt (by rw [hd]; exact nofun) (h.thread u).owned) hmemory
    ⟨⟨?_, trivial⟩, fun n' hn' => ?_⟩ (fun u n' _ hn' hu => ?_)
    (fun q' => (h.count q').set ?_ (.inr ?_)) (fun q' hc' hlag => ?_) fun q' => ?_
  · unfold Constructed
    rw [Memory.setHead_self, hd]
    exact nofun
  · have heq : p' = n' := Option.some.inj (hp.symm.trans hn')
    rw [← heq]
    exact ⟨h.memory.allocated q p' hmem, hnotin⟩
  · have heq : p' = n' := Option.some.inj (hp.symm.trans hn')
    rw [← heq] at hu
    exact ((h.thread u).owned p' hu).2 q hmem
  · rw [hpc, Memory.setHead_mCount]
    by_cases hq : q' = q
    · subst hq
      rw [takeNode_self, hg]
      simp [Pc.claims, Pc.fails, Pc.pending]
      omega
    · rw [takeNode_other hq]
      simp [Pc.claims, Pc.fails, Pc.pending, Ne.symm hq]
  · rw [hpc, Memory.setHead_mCount]
    exact Int.le_refl _
  · have hc'' : Constructed s.shared q' := by
      by_cases hq : q' = q
      · rw [hq]
        exact hc
      · unfold Constructed at hc'
        rw [Memory.setHead_other hq] at hc'
        exact hc'
    obtain ⟨b, n', hb, hn'⟩ := hlag
    rw [Memory.setHead_mTail] at hb
    obtain ⟨u, hu⟩ := h.mover q' hc'' ⟨b, n', hb, hn'⟩
    refine .inr ⟨u, ?_, hu.congr Memory.setHead_mTail⟩
    intro hut
    rw [hut, hpc] at hu
    exact hu
  · have horder := h.order q'
    unfold linkedTo takenFrom at horder ⊢
    rw [List.filterMap_append, List.filterMap_append, horder]
    by_cases hq : q' = q
    · subst hq
      rw [takeNode_self, hg]
      simp [Memory.setHead, Memory.setQueue, hdata]
    · rw [takeNode_other hq]
      simp [Memory.setHead, Memory.setQueue, Ne.symm hq]

end Take

/-! ## The constructor -/

section Construct

variable {a : Nat} {maxCount : Int}

theorem construct_self : (m.construct q maxCount a).queue q =
    ⟨maxCount, 0, ⟨some a, 0⟩, ⟨some a, 0⟩⟩ := Memory.setQueue_self

theorem construct_other (hq : q' ≠ q) : (m.construct q maxCount a).queue q' = m.queue q' :=
  Memory.setQueue_other hq

theorem construct_next {n : Nat} (hn : n ≠ a) :
    (m.construct q maxCount a).pNextNode n = m.pNextNode n := Function.update_of_ne hn _ _

theorem construct_next_self : (m.construct q maxCount a).pNextNode a = none :=
  Function.update_self _ _ _

/-- The nodes after a queue is constructed. -/
def dummyNode (g : κ → List Nat) (q : κ) (a : Nat) : κ → List Nat := Function.update g q [a]

theorem dummyNode_self : dummyNode g q a q = [a] := Function.update_self _ _ _

theorem dummyNode_other (hq : q' ≠ q) : dummyNode g q a q' = g q' := Function.update_of_ne hq _ _

omit [DecidableEq κ] in
theorem MemoryOk.fresh (h : MemoryOk m g) (ha : a ∉ m.allocated) (q : κ) : a ∉ g q :=
  fun hin => ha (h.allocated q a hin)

theorem MemoryOk.construct (h : MemoryOk m g) (ha : a ∉ m.allocated) :
    MemoryOk (m.construct q maxCount a) (dummyNode g q a) := by
  have hcases : ∀ q' n, n ∈ dummyNode g q a q' → (q' = q ∧ n = a) ∨ (q' ≠ q ∧ n ∈ g q') := by
    intro q' n hn
    by_cases hq : q' = q
    · rw [hq, dummyNode_self] at hn
      exact .inl ⟨hq, List.mem_singleton.1 hn⟩
    · rw [dummyNode_other hq] at hn
      exact .inr ⟨hq, hn⟩
  refine ⟨fun q' => ?_, fun q₁ q₂ n h₁ h₂ => ?_, fun q' n hn => ?_⟩
  · by_cases hq : q' = q
    · subst hq
      rw [dummyNode_self]
      refine ⟨?_, List.nodup_singleton a, fun _ => ⟨[], a, [], rfl, ?_, Nat.zero_le _⟩, nofun⟩
      · rw [construct_self]
        exact ⟨rfl, construct_next_self⟩
      · rw [construct_self]
    · obtain ⟨hlinked, hnodup, htail, hempty⟩ := h.queue q'
      rw [dummyNode_other hq]
      refine ⟨?_, hnodup, ?_, ?_⟩ <;> rw [construct_other hq]
      · refine hlinked.congr fun n hn => construct_next ?_
        intro heq
        rw [heq] at hn
        exact h.fresh ha q' hn
      · exact htail
      · exact hempty
  · rcases hcases q₁ n h₁ with ⟨hq₁, hn₁⟩ | ⟨-, h₁⟩ <;>
      rcases hcases q₂ n h₂ with ⟨hq₂, hn₂⟩ | ⟨-, h₂⟩
    · rw [hq₁, hq₂]
    · rw [hn₁] at h₂
      exact absurd h₂ (h.fresh ha q₂)
    · rw [hn₂] at h₁
      exact absurd h₁ (h.fresh ha q₁)
    · exact h.apart q₁ q₂ n h₁ h₂
  · rcases hcases q' n hn with ⟨-, rfl⟩ | ⟨-, hn⟩
    · exact Finset.mem_insert_self _ _
    · exact Finset.mem_insert_of_mem (h.allocated q' n hn)

theorem Rely.construct (h : MemoryOk m g) (hq : ¬ Constructed m q) (ha : a ∉ m.allocated)
    {mine : Option Nat} (hown : ∀ n, mine = some n → Free m g n) :
    Rely m (m.construct q maxCount a) (dummyNode g q a) mine := by
  have hne : ∀ q', Constructed m q' → q' ≠ q := by
    intro q' hc heq
    rw [heq] at hc
    exact hq hc
  have hmem : ∀ {q' : κ} {n : Nat}, n ∈ g q' → n ≠ a := by
    intro q' n hn heq
    rw [heq] at hn
    exact h.fresh ha q' hn
  refine ⟨fun q' hc => ?_, fun q' hc => ?_, fun q' hc _ p n hp hn => ?_,
    fun q' hc _ b n hb hn => ?_, fun n hn => ?_⟩
  · unfold Constructed at hc ⊢
    rw [construct_other (hne q' hc)]
    exact ⟨.refl, hc⟩
  · rw [construct_other (hne q' hc)]
    exact .refl
  · obtain ⟨p', rest, hg, hp'⟩ := (h.queue q').cons_of_constructed hc
    rw [hp] at hp'
    cases hp'
    have hpmem : p ∈ g q' := by
      rw [hg]
      exact List.mem_cons_self
    exact ⟨(construct_next (hmem hpmem)).trans hn, rfl⟩
  · exact (construct_next (hmem (h.tail_mem hc hb))).trans hn
  · obtain ⟨halloc, hnot⟩ := hown n hn
    have hna : n ≠ a := by
      intro heq
      rw [heq] at halloc
      exact ha halloc
    refine ⟨rfl, construct_next hna, Finset.mem_insert_of_mem halloc, fun q' hin => ?_⟩
    by_cases hqq : q' = q
    · rw [hqq, dummyNode_self] at hin
      exact hna (List.mem_singleton.1 hin)
    · rw [dummyNode_other hqq] at hin
      exact hnot q' hin

theorem Inv.construct [DecidableEq τ] {l : List (Event κ α)} {s : State τ κ α} {t : τ}
    (h : Inv l s g) (hpc : s.locals t = .idle) (hq : ¬ Constructed s.shared q)
    (ha : a ∉ s.shared.allocated) :
    Inv (l ++ []) (s.set t (s.shared.construct q maxCount a) .idle) (dummyNode g q a) := by
  have hnil : g q = [] := by
    by_contra hne
    exact hq ((h.memory.queue q).constructed.2 hne)
  refine h.set (fun u _ => .construct h.memory hq ha (h.thread u).owned) (h.memory.construct ha)
    ⟨trivial, nofun⟩ nofun (fun q' => (h.count q').set ?_ ?_) (fun q' hc' hlag => ?_) fun q' => ?_
  · rw [hpc]
    by_cases hqq : q' = q
    · subst hqq
      rw [construct_self, dummyNode_self, hnil, (h.memory.queue q').empty hnil]
      rfl
    · rw [construct_other hqq, dummyNode_other hqq]
  · rw [hpc]
    by_cases hqq : q' = q
    · subst hqq
      rw [construct_self]
      exact .inl (Int.le_refl _)
    · rw [construct_other hqq]
      exact .inr (Int.le_refl _)
  · obtain ⟨b, n, hb, hn⟩ := hlag
    by_cases hqq : q' = q
    · subst hqq
      rw [construct_self] at hb
      cases hb
      rw [construct_next_self] at hn
      cases hn
    · unfold Constructed at hc'
      rw [construct_other hqq] at hb hc'
      have hna : b ≠ a := by
        intro heq
        rw [heq] at hb
        exact h.memory.fresh ha q' (h.memory.tail_mem hc' hb)
      rw [construct_next hna] at hn
      obtain ⟨u, hu⟩ := h.mover q' hc' ⟨b, n, hb, hn⟩
      refine .inr ⟨u, ?_, hu.congr (by rw [construct_other hqq])⟩
      intro hut
      rw [hut, hpc] at hu
      exact hu
  · rw [List.append_nil, h.order q']
    by_cases hqq : q' = q
    · subst hqq
      rw [dummyNode_self, hnil]
      rfl
    · rw [dummyNode_other hqq]
      rfl

end Construct

end CppNetEngine.LockFreeQueue
