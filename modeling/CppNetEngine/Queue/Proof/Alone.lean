import CppNetEngine.Queue.Alone
import CppNetEngine.Queue.Proof.Head

/-!
# What calls do that are not interrupted

Between the calls of one thread no tail lags, and `mCount` is the number of elements (`AloneOk`).
`TryEnqueue` links its node at the end if the queue is not full, `TryDequeue` takes the node at the
head if it is not empty (`tryEnqueue_eq`, `tryDequeue_eq`); both keep this (`AloneOk.enqueue`,
`AloneOk.dequeue`). `Clear` deletes every node of the queue, once (`clear_eq`).
-/

namespace CppNetEngine.LockFreeQueue

variable {κ α : Type*} [DecidableEq κ] {m m' : Memory κ α} {g : κ → List Nat} {q q' : κ}
  {k : Outside} {pc pc' : Pc κ α} {fuel : Nat}

/-- The queues between the calls of one thread. -/
structure AloneOk (m : Memory κ α) (g : κ → List Nat) : Prop where
  memory : MemoryOk m g
  tail : ∀ q, Constructed m q → ¬ Lagging m q
  count : ∀ q, (m.queue q).mCount = (g q).tail.length

omit [DecidableEq κ] in
theorem AloneOk.init (h : ∀ q, m.queue q = ⟨0, 0, ⟨none, 0⟩, ⟨none, 0⟩⟩) :
    AloneOk m fun _ => [] := by
  refine ⟨.init h, fun q hc => ?_, fun q => ?_⟩
  · unfold Constructed at hc
    rw [h] at hc
    exact absurd rfl hc
  · rw [h]
    rfl

/-- The next step of a call that does not return with it, and what is left of the call. -/
theorem finish_next (hs : step k m pc = some (m', pc')) (hpc : pc ≠ .idle) :
    finish k (fuel + 1) m pc = (finish k fuel m' pc').map fun r =>
      ⟨r.memory, seen m pc ++ r.events, pc.deletes ++ r.deleted⟩ := by
  cases pc with
  | idle => exact absurd rfl hpc
  | enqueue | dequeue => rw [finish, hs, Option.bind_some]; exact nofun

omit [DecidableEq κ] in
theorem AloneOk.last [DecidableEq κ] (h : AloneOk m g) (hc : Constructed m q) :
    ∃ before b, g q = before ++ [b] ∧ (m.queue q).mTail.pNode = some b ∧
      m.pNextNode b = none := by
  obtain ⟨b, hb⟩ := Option.ne_none_iff_exists'.1 ((h.memory.queue q).tail_ne_none hc)
  obtain ⟨before, ⟨hl, hlast⟩ | ⟨n, -, hn, -⟩⟩ := (h.memory.queue q).tail_cases hb hc
  · exact ⟨before, b, hl, hb, hlast⟩
  · exact absurd ⟨b, n, hb, hn⟩ (h.tail q hc)

theorem addCount_keeps {c : Int} (hne : g q ≠ []) (hm : MemoryOk m g) :
    Keeps m (m.addCount q c) g := by
  refine ⟨fun _ => Memory.addCount_mHead, fun _ => Memory.addCount_mTail, fun q' hnil => ?_,
    fun q' n hn => ⟨rfl, rfl, hm.allocated q' n hn⟩⟩
  rw [Memory.addCount_mCount, if_neg, Int.add_zero]
  rintro rfl
  exact hne hnil

/-! ## `TryEnqueue` -/

/-- The memory after a node was linked, moved the tail to, and counted. -/
def enqueueNode (m : Memory κ α) (q : κ) (data : α) (b a : Nat) : Memory κ α :=
  (((((m.newObject a).setData a data).setNext a none).setNext b (some a)).setTail q
    ⟨some a, (m.queue q).mTail.count + 1⟩).addCount q 1

theorem tryEnqueue_full (k : Outside) (fuel : Nat) (data : α)
    (hfull : (m.queue q).mMaxCount ≤ (m.queue q).mCount) :
    tryEnqueue k (fuel + 1) m q data = some ⟨m, [], []⟩ := by
  have hs : step k m (.enqueue q data .loadCount) = some (m, .idle) := by
    simp [step, enqueueStep, hfull]
  rw [tryEnqueue, finish_next hs nofun]
  simp [finish, seen, Pc.deletes]

omit [DecidableEq κ] in
theorem MemoryOk.tail_ne_fresh [DecidableEq κ] (h : MemoryOk m g) (hc : Constructed m q)
    {a b : Nat} (hb : (m.queue q).mTail.pNode = some b) (ha : a ∉ m.allocated) : b ≠ a := by
  intro heq
  exact h.fresh ha q (heq ▸ h.tail_mem hc hb)

theorem tryEnqueue_eq (fuel : Nat) (data : α) (h : AloneOk m g) (hc : Constructed m q)
    (hroom : (m.queue q).mCount < (m.queue q).mMaxCount) (ha : k.address ∉ m.allocated) :
    ∃ before b, g q = before ++ [b] ∧ (m.queue q).mTail.pNode = some b ∧ m.pNextNode b = none ∧
      tryEnqueue k (fuel + 13) m q data =
        some ⟨enqueueNode m q data b k.address, [.linked q data, .enqueued q data], []⟩ := by
  obtain ⟨before, b, hg, hb, hlast⟩ := h.last hc
  refine ⟨before, b, hg, hb, hlast, ?_⟩
  have hne := h.memory.tail_ne_fresh hc hb ha
  have hfull : ¬ (m.queue q).mMaxCount ≤ (m.queue q).mCount := Int.not_le.2 hroom
  have htail : (m.queue q).mTail = ⟨some b, (m.queue q).mTail.count⟩ := by rw [← hb]
  simp [tryEnqueue, finish, step, enqueueStep, moveTail, hfull, hb, hlast, hne, Memory.setNext,
    Memory.setData, Memory.newObject, enqueueNode, seen, Pc.deletes]
  rw [if_pos htail]

theorem AloneOk.enqueue (h : AloneOk m g) (hc : Constructed m q) {data : α} {a b : Nat}
    (ha : a ∉ m.allocated) (hb : (m.queue q).mTail.pNode = some b) (hlast : m.pNextNode b = none) :
    AloneOk (enqueueNode m q data b a) (linkNodes g q a) := by
  have hmem := h.memory.tail_mem hc hb
  have hne := h.memory.tail_ne_fresh hc hb ha
  have hkeeps : Keeps m (((m.newObject a).setData a data).setNext a none) g := by
    refine ⟨fun _ => rfl, fun _ => rfl, fun _ _ => rfl, fun q' n hn => ?_⟩
    have hna : n ≠ a := by
      intro heq
      exact h.memory.fresh ha q' (heq ▸ hn)
    exact ⟨Function.update_of_ne hna _ _, Function.update_of_ne hna _ _,
      Finset.mem_insert_of_mem (h.memory.allocated q' n hn)⟩
  have hlinked := (hkeeps.memory h.memory).link (q := q) hc hb
    ((Function.update_of_ne hne _ _).trans hlast)
    ⟨Finset.mem_insert_self a _, h.memory.fresh ha⟩ (Function.update_self _ _ _)
  obtain ⟨hmoved, hlag⟩ := hlinked.advance (k := (m.queue q).mTail.count + 1) hc hb
    (Function.update_self _ _ _)
  refine ⟨(addCount_keeps ?_ hmoved).memory hmoved, fun q' hc' hlag' => ?_, fun q' => ?_⟩
  · rw [linkNodes_self]
    simp
  · obtain ⟨b', n, hb', hn⟩ := hlag'
    by_cases hq : q' = q
    · subst hq
      rw [enqueueNode, Memory.addCount_mTail] at hb'
      exact hlag ⟨b', n, hb', hn⟩
    · rw [enqueueNode, Memory.addCount_mTail, Memory.setTail_other hq] at hb'
      have hc'' : Constructed m q' := by
        unfold Constructed at hc' ⊢
        rw [enqueueNode, Memory.addCount_mHead, Memory.setTail_mHead] at hc'
        exact hc'
      have hbb : b' ≠ b := by
        intro heq
        exact hq (h.memory.apart q' q b (heq ▸ h.memory.tail_mem hc'' hb') hmem)
      have hba := h.memory.tail_ne_fresh hc'' hb' ha
      refine h.tail q' hc'' ⟨b', n, hb', ?_⟩
      exact (Function.update_of_ne hba _ _).symm.trans
        ((Function.update_of_ne hbb _ _).symm.trans hn)
  · rw [enqueueNode, Memory.addCount_mCount, Memory.setTail_mCount]
    change (m.queue q').mCount + _ = _
    rw [h.count]
    by_cases hq : q = q'
    · subst hq
      rw [if_pos rfl, linkNodes_self,
        List.tail_append_of_ne_nil ((h.memory.queue q).constructed.1 hc), List.length_append]
      rfl
    · rw [if_neg hq, linkNodes_other (Ne.symm hq), Int.add_zero]

/-! ## `TryDequeue` -/

/-- The memory after the head was moved to the next node. -/
def dequeueNode (m : Memory κ α) (q : κ) (p n : Nat) : Memory κ α :=
  ((m.addCount q (-1)).setHead q ⟨some n, (m.queue q).mHead.count + 1⟩).deleteObject (some p)

theorem addCount_back : (m.addCount q (-1)).addCount q 1 = m := by
  have hqueue : ((m.addCount q (-1)).addCount q 1).queue = m.queue := by
    funext q'
    by_cases hq : q' = q
    · subst hq
      simp [Memory.addCount]
    · simp only [Memory.addCount, Memory.setQueue_other hq]
  cases m
  simp only [Memory.addCount, Memory.setQueue] at hqueue ⊢
  rw [hqueue]

theorem tryDequeue_empty (k : Outside) (fuel : Nat) (outData : α)
    (hempty : (m.queue q).mCount ≤ 0) :
    tryDequeue k (fuel + 2) m q outData = some ⟨m, [], []⟩ := by
  simp only [tryDequeue, finish, step, dequeueStep]
  simp [hempty, finish, step, dequeueStep, seen, Pc.deletes, addCount_back]

theorem head_ne_last {β : Type*} {p n b : β} {rest before : List β} (hnodup : (p :: n :: rest).Nodup)
    (hl : p :: n :: rest = before ++ [b]) : p ≠ b := by
  intro heq
  cases before with
  | nil => cases hl
  | cons p' before =>
    obtain ⟨-, hl⟩ := List.cons.inj hl
    rw [hl, heq] at hnodup
    exact (List.nodup_cons.1 hnodup).1 (List.mem_append_right _ (List.mem_singleton_self _))

theorem tryDequeue_eq (k : Outside) (fuel : Nat) (outData : α) (h : AloneOk m g)
    (hc : Constructed m q) (hpos : 0 < (m.queue q).mCount) :
    ∃ p n rest, g q = p :: n :: rest ∧ (m.queue q).mHead.pNode = some p ∧
      tryDequeue k (fuel + 9) m q outData =
        some ⟨dequeueNode m q p n, [.taken q (m.data n), .dequeued q (m.data n)], [p]⟩ := by
  obtain ⟨p, rest, hg, hp⟩ := (h.memory.queue q).cons_of_constructed hc
  obtain ⟨before, b, hgb, hb, -⟩ := h.last hc
  have hcount := h.count q
  rw [hg] at hcount
  cases rest with
  | nil =>
    rw [List.tail_cons, List.length_nil] at hcount
    omega
  | cons n rest =>
    have hlinked := (h.memory.queue q).linked
    rw [hg] at hlinked
    have hnext : m.pNextNode p = some n := hlinked.2.1
    have hnodup := (h.memory.queue q).nodup
    rw [hg] at hnodup
    have hne := head_ne_last hnodup (hg.symm.trans hgb)
    refine ⟨p, n, rest, hg, hp, ?_⟩
    have hempty : ¬ (m.queue q).mCount ≤ 0 := Int.not_le.2 hpos
    have hhead : (m.queue q).mHead = ⟨some p, (m.queue q).mHead.count⟩ := by rw [← hp]
    -- the head and the tail differ, in whichever order they are read
    cases hfirst : k.tailFirst with
    | false | true =>
      simp [tryDequeue, finish, step, dequeueStep, hempty, hp, hb, hnext, hne, hfirst,
        Memory.addCount, Memory.setQueue, dequeueNode, seen, Pc.deletes]
      simp only [if_pos hhead]
      simp [finish, step, dequeueStep, seen, Pc.deletes]

theorem AloneOk.dequeue (h : AloneOk m g) (hc : Constructed m q) {p n : Nat} {rest : List Nat}
    (hg : g q = p :: n :: rest) (hp : (m.queue q).mHead.pNode = some p) :
    AloneOk (dequeueNode m q p n) (takeNode g q) := by
  obtain ⟨before, b, hgb, hb, -⟩ := h.last hc
  have hnodup := (h.memory.queue q).nodup
  rw [hg] at hnodup
  have hne : p ≠ b := head_ne_last hnodup (hg.symm.trans hgb)
  have hnotin : ∀ q', p ∉ takeNode g q q' := by
    intro q' hin
    have heq : q' = q := h.memory.apart q' q p (mem_of_takeNode hin) (hg ▸ List.mem_cons_self)
    rw [heq, takeNode_self, hg] at hin
    exact (List.nodup_cons.1 hnodup).1 hin
  have hcounted := (addCount_keeps (c := -1) (by rw [hg]; exact nofun) h.memory).memory h.memory
  have htaken : MemoryOk ((m.addCount q (-1)).setHead q ⟨some n, (m.queue q).mHead.count + 1⟩)
      (takeNode g q) := by
    refine hcounted.take hg (by rw [Memory.addCount_mHead, hp]) ?_
    rw [Memory.addCount_mTail, hb]
    exact fun heq => hne (Option.some.inj heq).symm
  have hkeeps : Keeps ((m.addCount q (-1)).setHead q ⟨some n, (m.queue q).mHead.count + 1⟩)
      (dequeueNode m q p n) (takeNode g q) := by
    refine ⟨fun _ => rfl, fun _ => rfl, fun _ _ => rfl, fun q' n' hn => ⟨rfl, rfl, ?_⟩⟩
    refine Finset.mem_erase.2 ⟨fun heq => ?_, htaken.allocated q' n' hn⟩
    exact hnotin q' (heq ▸ hn)
  refine ⟨hkeeps.memory htaken, fun q' hc' hlag => ?_, fun q' => ?_⟩
  · have hc'' : Constructed m q' := by
      by_cases hq : q' = q
      · exact hq ▸ hc
      · unfold Constructed at hc' ⊢
        rw [hkeeps.head, Memory.setHead_other hq, Memory.addCount_mHead] at hc'
        exact hc'
    obtain ⟨b', n', hb', hn'⟩ := hlag
    rw [hkeeps.tail, Memory.setHead_mTail, Memory.addCount_mTail] at hb'
    exact h.tail q' hc'' ⟨b', n', hb', hn'⟩
  · change (((m.addCount q (-1)).setHead q _).queue q').mCount = _
    rw [Memory.setHead_mCount, Memory.addCount_mCount, h.count]
    by_cases hq : q = q'
    · subst hq
      rw [if_pos rfl, takeNode_self, hg]
      simp
    · rw [if_neg hq, takeNode_other (Ne.symm hq), Int.add_zero]

/-! ## The constructor and `Clear` -/

theorem AloneOk.construct (h : AloneOk m g) {maxCount : Int} {a : Nat} (ha : a ∉ m.allocated) :
    AloneOk (m.construct q maxCount a) (dummyNode g q a) := by
  refine ⟨h.memory.construct ha, fun q' hc' hlag => ?_, fun q' => ?_⟩
  · obtain ⟨b, n, hb, hn⟩ := hlag
    by_cases hq : q' = q
    · subst hq
      rw [construct_self] at hb
      cases hb
      rw [construct_next_self] at hn
      cases hn
    · unfold Constructed at hc'
      rw [construct_other hq] at hb hc'
      rw [construct_next (h.memory.tail_ne_fresh hc' hb ha)] at hn
      exact h.tail q' hc' ⟨b, n, hb, hn⟩
  · by_cases hq : q' = q
    · subst hq
      rw [construct_self, dummyNode_self]
      rfl
    · rw [construct_other hq, dummyNode_other hq]
      exact h.count q'

omit [DecidableEq κ] in
/-- **The loop of `Clear`** deletes the nodes from a pointer to the end, one after the other. -/
theorem clearLoop_eq {p : Option Nat} {l : List Nat} (hl : Linked m.pNextNode p l)
    (hfuel : l.length ≤ fuel) :
    clearLoop fuel m p = some ⟨{ m with allocated := m.allocated \ l.toFinset }, [], l⟩ := by
  induction l generalizing m p fuel with
  | nil =>
    cases (hl : p = none)
    rw [clearLoop, List.toFinset_nil, Finset.sdiff_empty]
  | cons n l ih =>
    obtain ⟨rfl, hrest⟩ := hl
    cases fuel with
    | zero => exact absurd hfuel (Nat.not_succ_le_zero _)
    | succ fuel =>
      have hallocated : m.allocated \ (n :: l).toFinset = m.allocated.erase n \ l.toFinset := by
        rw [List.toFinset_cons, Finset.sdiff_insert, Finset.erase_sdiff_comm]
      rw [clearLoop, ih (m := m.deleteObject (some n)) hrest (Nat.le_of_succ_le_succ hfuel),
        hallocated]
      rfl

omit [DecidableEq κ] in
/-- `Clear` deletes every node of the queue, and leaves the pointers and the count as they are. -/
theorem clear_eq (h : MemoryOk m g) (hfuel : (g q).length ≤ fuel) :
    clear fuel m q =
      some ⟨{ m with allocated := m.allocated \ (g q).toFinset }, [], g q⟩ :=
  clearLoop_eq (h.queue q).linked hfuel

/-! ## The values in the queues -/

/-- The queues between the calls of one thread, with the values in them. -/
structure Holds (m : Memory κ α) (g : κ → List Nat) (content : κ → List α) : Prop where
  alone : AloneOk m g
  content : ∀ q, content q = (g q).tail.map m.data

section Holds

variable {content : κ → List α} {data x : α} {p n a b : Nat}

theorem enqueueNode_mMaxCount :
    ((enqueueNode m q data b a).queue q').mMaxCount = (m.queue q').mMaxCount :=
  Memory.addCount_mMaxCount.trans Memory.setTail_mMaxCount

theorem enqueueNode_mHead :
    ((enqueueNode m q data b a).queue q').mHead = (m.queue q').mHead :=
  Memory.addCount_mHead.trans Memory.setTail_mHead

theorem dequeueNode_mMaxCount :
    ((dequeueNode m q p n).queue q').mMaxCount = (m.queue q').mMaxCount :=
  Memory.setHead_mMaxCount.trans Memory.addCount_mMaxCount

theorem dequeueNode_mHead :
    ((dequeueNode m q p n).queue q).mHead = ⟨some n, (m.queue q).mHead.count + 1⟩ :=
  Memory.setHead_self

omit [DecidableEq κ] in
theorem Holds.count (h : Holds m g content) (q : κ) :
    (m.queue q).mCount = (content q).length := by
  rw [h.alone.count, h.content, List.length_map]

omit [DecidableEq κ] in
theorem Holds.length (h : Holds m g content) (hc : Constructed m q) :
    (g q).length = (content q).length + 1 := by
  obtain ⟨p, rest, hg, -⟩ := (h.alone.memory.queue q).cons_of_constructed hc
  rw [h.content, hg]
  simp

theorem Holds.construct (h : Holds m g content) (hq : ¬ Constructed m q) {maxCount : Int}
    (ha : a ∉ m.allocated) : Holds (m.construct q maxCount a) (dummyNode g q a) content := by
  refine ⟨h.alone.construct ha, fun q' => ?_⟩
  rw [h.content]
  by_cases hqq : q' = q
  · subst hqq
    have hnil : g q' = [] := by
      by_contra hne
      exact hq ((h.alone.memory.queue q').constructed.2 hne)
    rw [hnil, dummyNode_self]
    rfl
  · rw [dummyNode_other hqq]
    rfl

/-- **`TryEnqueue` appends the value**, if there is room for it. -/
theorem Holds.tryEnqueue (fuel : Nat) (data : α) (h : Holds m g content) (hc : Constructed m q)
    (hroom : ((content q).length : Int) < (m.queue q).mMaxCount) (ha : k.address ∉ m.allocated) :
    ∃ b, tryEnqueue k (fuel + 13) m q data = some ⟨enqueueNode m q data b k.address,
        [.linked q data, .enqueued q data], []⟩ ∧
      Holds (enqueueNode m q data b k.address) (linkNodes g q k.address)
        (Function.update content q (content q ++ [data])) := by
  rw [← h.count] at hroom
  obtain ⟨before, b, hg, hb, hlast, hrun⟩ := tryEnqueue_eq fuel data h.alone hc hroom ha
  refine ⟨b, hrun, h.alone.enqueue hc ha hb hlast, fun q' => ?_⟩
  have hmap : ∀ q', (g q').tail.map (enqueueNode m q data b k.address).data =
      (g q').tail.map m.data := by
    refine fun q' => List.map_congr_left fun n hn => Function.update_of_ne ?_ _ _
    intro heq
    exact h.alone.memory.fresh ha q' (heq ▸ List.mem_of_mem_tail hn)
  by_cases hq : q' = q
  · subst hq
    rw [Function.update_self, linkNodes_self, h.content,
      List.tail_append_of_ne_nil ((h.alone.memory.queue q').constructed.1 hc), List.map_append, hmap,
      List.map_singleton]
    have hnew : (enqueueNode m q' data b k.address).data k.address = data :=
      Function.update_self _ _ _
    rw [hnew]
  · rw [Function.update_of_ne hq, linkNodes_other hq, hmap, h.content]

theorem Holds.tryEnqueue_full (k : Outside) (fuel : Nat) (data : α) (h : Holds m g content)
    (hfull : (m.queue q).mMaxCount ≤ (content q).length) :
    LockFreeQueue.tryEnqueue k (fuel + 1) m q data = some ⟨m, [], []⟩ := by
  rw [← h.count] at hfull
  exact LockFreeQueue.tryEnqueue_full k fuel data hfull

/-- **`TryDequeue` gives the value at the front**, and deletes the dummy node. -/
theorem Holds.tryDequeue (k : Outside) (fuel : Nat) (outData : α) (h : Holds m g content)
    (hc : Constructed m q) {l : List α} (hl : content q = x :: l) :
    ∃ p n, tryDequeue k (fuel + 9) m q outData = some ⟨dequeueNode m q p n,
        [.taken q x, .dequeued q x], [p]⟩ ∧
      Holds (dequeueNode m q p n) (takeNode g q) (Function.update content q l) ∧
      p ∈ m.allocated ∧ m.data n = x := by
  have hpos : 0 < (m.queue q).mCount := by
    rw [h.count, hl]
    exact Int.natCast_pos.2 Nat.succ_pos'
  obtain ⟨p, n, rest, hg, hp, hrun⟩ := tryDequeue_eq k fuel outData h.alone hc hpos
  have hcontent := h.content q
  rw [hl, hg, List.tail_cons, List.map_cons] at hcontent
  obtain ⟨rfl, rfl⟩ := List.cons.inj hcontent
  refine ⟨p, n, hrun, ⟨h.alone.dequeue hc hg hp, fun q' => ?_⟩, ?_, rfl⟩
  · by_cases hq : q' = q
    · subst hq
      rw [Function.update_self, takeNode_self, hg]
      rfl
    · rw [Function.update_of_ne hq, takeNode_other hq, h.content]
      rfl
  · refine h.alone.memory.allocated q p ?_
    rw [hg]
    exact List.mem_cons_self

theorem Holds.tryDequeue_empty (k : Outside) (fuel : Nat) (outData : α) (h : Holds m g content)
    (hnil : content q = []) :
    LockFreeQueue.tryDequeue k (fuel + 2) m q outData = some ⟨m, [], []⟩ := by
  refine LockFreeQueue.tryDequeue_empty k fuel outData ?_
  rw [h.count, hnil]
  exact Int.le_refl _

end Holds

end CppNetEngine.LockFreeQueue
