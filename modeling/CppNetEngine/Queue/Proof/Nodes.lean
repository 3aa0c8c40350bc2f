import CppNetEngine.Lib.Counter
import CppNetEngine.Queue.LockFreeQueue

/-!
# The nodes of lock-free queues

The invariant of the lock-free queues. The nodes of a queue are linked from its head to their end,
which is at most one node beyond its tail; other nodes that are in use belong to one thread each.
`PcOk` says what a thread knows of the values that it has read: what it read together with a count
is so still, if the count is. A step of a thread leaves that to the others (`Rely`,
`PcOk.stable`).
-/

namespace CppNetEngine.LockFreeQueue

variable {τ κ α : Type*}

/-! ## Nodes in queues -/

def Constructed (m : Memory κ α) (q : κ) : Prop := (m.queue q).mHead.pNode ≠ none

/-- The nodes of a queue, from its head; one at most is beyond its tail. -/
structure QueueOk (m : Memory κ α) (q : κ) (l : List Nat) : Prop where
  linked : Linked m.pNextNode (m.queue q).mHead.pNode l
  nodup : l.Nodup
  tail : l ≠ [] → ∃ before b after, l = before ++ b :: after ∧
    (m.queue q).mTail.pNode = some b ∧ after.length ≤ 1
  empty : l = [] → (m.queue q).mCount = 0

/-- The queues and their nodes. -/
structure MemoryOk (m : Memory κ α) (g : κ → List Nat) : Prop where
  queue : ∀ q, QueueOk m q (g q)
  apart : ∀ q q' n, n ∈ g q → n ∈ g q' → q = q'
  allocated : ∀ q, ∀ n ∈ g q, n ∈ m.allocated

theorem MemoryOk.init {m : Memory κ α} (h : ∀ q, m.queue q = ⟨0, 0, ⟨none, 0⟩, ⟨none, 0⟩⟩) :
    MemoryOk m fun _ => [] := by
  refine ⟨fun q => ⟨?_, List.nodup_nil, fun hne => absurd rfl hne, fun _ => ?_⟩, nofun, nofun⟩
  · rw [h]
    exact .nil
  · rw [h]

namespace QueueOk

variable {m : Memory κ α} {q : κ} {l : List Nat}

theorem constructed (h : QueueOk m q l) : Constructed m q ↔ l ≠ [] := by
  have hlinked := h.linked
  unfold Constructed
  cases l with
  | nil => exact ⟨fun hc => absurd hlinked hc, fun hne => absurd rfl hne⟩
  | cons p l =>
    rw [hlinked.1]
    exact ⟨nofun, nofun⟩

theorem cons_of_constructed (h : QueueOk m q l) (hc : Constructed m q) :
    ∃ p rest, l = p :: rest ∧ (m.queue q).mHead.pNode = some p := by
  have hlinked := h.linked
  cases l with
  | nil => exact absurd rfl (h.constructed.1 hc)
  | cons p rest => exact ⟨p, rest, rfl, hlinked.1⟩

theorem tail_ne_none (h : QueueOk m q l) (hc : Constructed m q) :
    (m.queue q).mTail.pNode ≠ none := by
  obtain ⟨before, b, after, -, hb, -⟩ := h.tail (h.constructed.1 hc)
  rw [hb]
  exact nofun

/-- The node at the tail is in the queue; what is next to it is the end. -/
theorem tail_cases (h : QueueOk m q l) {b : Nat} (hb : (m.queue q).mTail.pNode = some b)
    (hc : Constructed m q) : ∃ before, (l = before ++ [b] ∧ m.pNextNode b = none) ∨
      ∃ n, l = before ++ [b, n] ∧ m.pNextNode b = some n ∧ m.pNextNode n = none := by
  obtain ⟨before, b', after, hl, hb', hafter⟩ := h.tail (h.constructed.1 hc)
  rw [hb] at hb'
  cases hb'
  have hlinked := h.linked
  rw [hl] at hlinked
  obtain ⟨-, hrest⟩ := hlinked.drop_append
  refine ⟨before, ?_⟩
  match after, hafter, hl, hrest with
  | [], _, hl, hrest => exact .inl ⟨hl, hrest⟩
  | [n], _, hl, hrest => exact .inr ⟨n, hl, hrest.1, hrest.2⟩

/-- The node at the head, if the tail is there as well, has at most one after it. -/
theorem length_le_of_tail_eq (h : QueueOk m q l) (hc : Constructed m q)
    (heq : (m.queue q).mHead.pNode = (m.queue q).mTail.pNode) : l.tail.length ≤ 1 ∧
      (l.tail ≠ [] → ∃ b n, (m.queue q).mTail.pNode = some b ∧ m.pNextNode b = some n) := by
  obtain ⟨p, rest, hl, hp⟩ := h.cons_of_constructed hc
  rw [hp] at heq
  obtain ⟨before, ⟨hb, -⟩ | ⟨n, hb, hn, -⟩⟩ := h.tail_cases heq.symm hc
  · rw [hl] at hb ⊢
    cases before with
    | nil =>
      cases hb
      exact ⟨by simp, fun hne => absurd rfl hne⟩
    | cons p' before =>
      have hnodup := h.nodup
      obtain ⟨rfl, rfl⟩ := List.cons.inj hb
      rw [hl] at hnodup
      exact absurd (List.mem_append_right before List.mem_cons_self) (List.nodup_cons.1 hnodup).1
  · rw [hl] at hb ⊢
    cases before with
    | nil =>
      cases hb
      exact ⟨by simp, fun _ => ⟨p, n, heq.symm, hn⟩⟩
    | cons p' before =>
      have hnodup := h.nodup
      obtain ⟨rfl, rfl⟩ := List.cons.inj hb
      rw [hl] at hnodup
      exact absurd (List.mem_append_right before List.mem_cons_self) (List.nodup_cons.1 hnodup).1

end QueueOk

/-! ## What a thread relies on -/

/-- The variable was `e`, and is so still if its count is. -/
def Node16.Was (e v : Node16) : Prop := e.count ≤ v.count ∧ (e.count = v.count → e = v)

namespace Node16.Was

variable {e v w : Node16}

theorem refl : v.Was v := ⟨Nat.le_refl _, fun _ => rfl⟩

theorem trans (h : e.Was v) (h' : v.Was w) : e.Was w := by
  refine ⟨Nat.le_trans h.1 h'.1, fun heq => ?_⟩
  have hev : e.count = v.count := Nat.le_antisymm h.1 (heq ▸ h'.1)
  rw [h.2 hev]
  exact h'.2 (hev ▸ heq)

theorem of_lt (h : v.count < w.count) : v.Was w :=
  ⟨Nat.le_of_lt h, fun heq => absurd heq (Nat.ne_of_lt h)⟩

theorem of_count {n : Nat} (h : n ≤ v.count) : Node16.Was ⟨v.pNode, n⟩ v :=
  ⟨h, fun heq => by cases v; cases heq; rfl⟩

end Node16.Was

/-- The variable is never again `e`. -/
def Node16.Gone (e v : Node16) : Prop := e.pNode = none ∨ e.count < v.count

def MoveOk (m : Memory κ α) (q : κ) : MoveStep → Prop
  | .readCount => True
  | .readNode count => count ≤ (m.queue q).mTail.count
  | .readNext expected => expected.Was (m.queue q).mTail ∧ expected.pNode ≠ none
  | .swap expected pNextNode => expected.Was (m.queue q).mTail ∧
    (expected = (m.queue q).mTail → ∃ b, expected.pNode = some b ∧ m.pNextNode b = some pNextNode)

def EnqueueOk (m : Memory κ α) (q : κ) (data : α) : EnqueueStep → Prop
  | .loadCount | .newObject | .setData _ | .fetchAdd => True
  | .setNext n => m.data n = data
  | .readTail n | .readTailAgain n _ => m.data n = data ∧ m.pNextNode n = none
  | .readNext n pNode | .swap n pNode =>
    m.data n = data ∧ m.pNextNode n = none ∧ pNode ≠ none
  | .retry n step => m.data n = data ∧ m.pNextNode n = none ∧ MoveOk m q step
  | .moveTail step => MoveOk m q step

/-- If the head still is what was expected, `desired` is what comes next to it. -/
def NextOk (m : Memory κ α) (q : κ) (expected desired : Node16) (ok : Nat → Prop) : Prop :=
  expected = (m.queue q).mHead → ∃ p n, expected.pNode = some p ∧ m.pNextNode p = some n ∧
    desired = ⟨some n, expected.count + 1⟩ ∧ ok n

def DequeueOk (m : Memory κ α) (q : κ) (outData : α) (expected desired : Node16) :
    DequeueStep → Prop
  | .fetchSub | .fetchAdd => expected.pNode = none
  | .compare => expected.pNode = none ∨ expected.Was (m.queue q).mHead
  | .compareTail pHead => (expected.pNode = none ∨ expected.Was (m.queue q).mHead) ∧
    (expected = (m.queue q).mHead → pHead = expected.pNode)
  | .compareHead pTail => (expected.pNode = none ∨ expected.Was (m.queue q).mHead) ∧
    (expected = (m.queue q).mHead → pTail ≠ expected.pNode)
  | .moveTail step => expected.Gone (m.queue q).mHead ∧ MoveOk m q step
  | .readCount | .deleteObject => True
  | .readNode => expected.count ≤ (m.queue q).mHead.count
  | .readNext => expected.Was (m.queue q).mHead ∧ expected.pNode ≠ none
  | .readData => expected.Was (m.queue q).mHead ∧ desired.pNode ≠ none ∧
    NextOk m q expected desired fun _ => True
  | .swap => expected.Gone (m.queue q).mHead ∨ (expected.Was (m.queue q).mHead ∧
    NextOk m q expected desired fun n => m.data n = outData)

def PcOk (m : Memory κ α) : Pc κ α → Prop
  | .idle => True
  | .enqueue q data step => Constructed m q ∧ EnqueueOk m q data step
  | .dequeue q outData expected desired step =>
    Constructed m q ∧ DequeueOk m q outData expected desired step

/-- The node that belongs to the thread. -/
def Pc.owns : Pc κ α → Option Nat
  | .enqueue _ _ step =>
    match step with
    | .setData n | .setNext n | .readTail n | .readNext n _ | .readTailAgain n _ | .swap n _
    | .retry n _ => some n
    | .loadCount | .newObject | .moveTail _ | .fetchAdd => none
  | .dequeue _ _ expected _ .deleteObject => expected.pNode
  | _ => none

/-- A node belongs to no queue. -/
def Free (m : Memory κ α) (g : κ → List Nat) (n : Nat) : Prop :=
  n ∈ m.allocated ∧ ∀ q, n ∉ g q

structure ThreadOk (m : Memory κ α) (g : κ → List Nat) (pc : Pc κ α) : Prop where
  ok : PcOk m pc
  owned : ∀ n, pc.owns = some n → Free m g n

/-! ## Steps of other threads -/

/-- **What a step leaves to a thread** that does not take it and owns `mine`. -/
structure Rely (m m' : Memory κ α) (g' : κ → List Nat) (mine : Option Nat) : Prop where
  head : ∀ q, Constructed m q →
    (m.queue q).mHead.Was (m'.queue q).mHead ∧ Constructed m' q
  tail : ∀ q, Constructed m q → (m.queue q).mTail.Was (m'.queue q).mTail
  headNext : ∀ q, Constructed m q → (m'.queue q).mHead = (m.queue q).mHead →
    ∀ p n, (m.queue q).mHead.pNode = some p → m.pNextNode p = some n →
      m'.pNextNode p = some n ∧ m'.data n = m.data n
  tailNext : ∀ q, Constructed m q → (m'.queue q).mTail = (m.queue q).mTail →
    ∀ b n, (m.queue q).mTail.pNode = some b → m.pNextNode b = some n → m'.pNextNode b = some n
  own : ∀ n, mine = some n → m'.data n = m.data n ∧ m'.pNextNode n = m.pNextNode n ∧ Free m' g' n

namespace Rely

variable {m m' : Memory κ α} {g' : κ → List Nat} {mine : Option Nat} {q : κ}

theorem was_head (h : Rely m m' g' mine) (hc : Constructed m q) {e : Node16}
    (he : e.Was (m.queue q).mHead) :
    e.Was (m'.queue q).mHead ∧ (e = (m'.queue q).mHead → e = (m.queue q).mHead) := by
  obtain ⟨hwas, -⟩ := h.head q hc
  refine ⟨he.trans hwas, fun heq => he.2 ?_⟩
  exact Nat.le_antisymm he.1 (heq ▸ hwas.1)

theorem was_tail (h : Rely m m' g' mine) (hc : Constructed m q) {e : Node16}
    (he : e.Was (m.queue q).mTail) :
    e.Was (m'.queue q).mTail ∧ (e = (m'.queue q).mTail → e = (m.queue q).mTail) := by
  have hwas := h.tail q hc
  refine ⟨he.trans hwas, fun heq => he.2 ?_⟩
  exact Nat.le_antisymm he.1 (heq ▸ hwas.1)

theorem gone (h : Rely m m' g' mine) (hc : Constructed m q) {e : Node16}
    (he : e.Gone (m.queue q).mHead) : e.Gone (m'.queue q).mHead :=
  he.imp_right fun hlt => Nat.lt_of_lt_of_le hlt (h.head q hc).1.1

theorem moveOk (h : Rely m m' g' mine) (hc : Constructed m q) {step : MoveStep}
    (hok : MoveOk m q step) : MoveOk m' q step := by
  cases step with
  | readCount => trivial
  | readNode count => exact Nat.le_trans hok (h.tail q hc).1
  | readNext e => exact ⟨(h.was_tail hc hok.1).1, hok.2⟩
  | swap e n =>
    obtain ⟨hwas, hnext⟩ := hok
    obtain ⟨hwas', hback⟩ := h.was_tail hc hwas
    refine ⟨hwas', fun heq => ?_⟩
    have hold := hback heq
    obtain ⟨b, hb, hn⟩ := hnext hold
    refine ⟨b, hb, h.tailNext q hc (heq ▸ hold) b n ?_ hn⟩
    rw [← hold]
    exact hb

theorem enqueueOk (h : Rely m m' g' mine) (hc : Constructed m q) {data : α} {step : EnqueueStep}
    (hmine : (Pc.enqueue q data step).owns = mine) (hok : EnqueueOk m q data step) :
    EnqueueOk m' q data step := by
  have hown : ∀ n, (Pc.enqueue q data step).owns = some n →
      m'.data n = m.data n ∧ m'.pNextNode n = m.pNextNode n := by
    intro n hn
    obtain ⟨hdata, hnext, -⟩ := h.own n (hmine ▸ hn)
    exact ⟨hdata, hnext⟩
  cases step with
  | loadCount | newObject | setData | fetchAdd => trivial
  | setNext n =>
    obtain ⟨hdata, -⟩ := hown n rfl
    exact hdata.trans hok
  | readTail n | readTailAgain n =>
    obtain ⟨hdata, hnext⟩ := hown n rfl
    exact ⟨hdata.trans hok.1, hnext.trans hok.2⟩
  | readNext n | swap n =>
    obtain ⟨hdata, hnext⟩ := hown n rfl
    exact ⟨hdata.trans hok.1, hnext.trans hok.2.1, hok.2.2⟩
  | retry n step =>
    obtain ⟨hdata, hnext⟩ := hown n rfl
    exact ⟨hdata.trans hok.1, hnext.trans hok.2.1, h.moveOk hc hok.2.2⟩
  | moveTail step => exact h.moveOk hc hok

theorem nextOk (h : Rely m m' g' mine) (hc : Constructed m q) {e d : Node16} {ok ok' : Nat → Prop}
    (hwas : e.Was (m.queue q).mHead)
    (himp : ∀ n, m'.data n = m.data n → ok n → ok' n) (hok : NextOk m q e d ok) :
    NextOk m' q e d ok' := by
  intro heq
  have hold := (h.was_head hc hwas).2 heq
  obtain ⟨p, n, hp, hn, hd, hokn⟩ := hok hold
  obtain ⟨hn', hdata⟩ := h.headNext q hc (heq ▸ hold) p n (hold ▸ hp) hn
  exact ⟨p, n, hp, hn', hd, himp n hdata hokn⟩

theorem dequeueOk (h : Rely m m' g' mine) (hc : Constructed m q) {outData : α} {e d : Node16}
    {step : DequeueStep} (hok : DequeueOk m q outData e d step) :
    DequeueOk m' q outData e d step := by
  have hpast : (e.pNode = none ∨ e.Was (m.queue q).mHead) →
      (e.pNode = none ∨ e.Was (m'.queue q).mHead) ∧
        (e = (m'.queue q).mHead → e = (m.queue q).mHead) := by
    rintro (hnone | hwas)
    · refine ⟨.inl hnone, fun heq => ?_⟩
      rw [heq] at hnone
      exact absurd hnone (h.head q hc).2
    · obtain ⟨hwas', hback⟩ := h.was_head hc hwas
      exact ⟨.inr hwas', hback⟩
  cases step with
  | fetchSub | fetchAdd => exact hok
  | readCount | deleteObject => trivial
  | compare => exact (hpast hok).1
  | compareTail | compareHead =>
    obtain ⟨hpast', hback⟩ := hpast hok.1
    exact ⟨hpast', fun heq => hok.2 (hback heq)⟩
  | moveTail step => exact ⟨h.gone hc hok.1, h.moveOk hc hok.2⟩
  | readNode => exact Nat.le_trans hok (h.head q hc).1.1
  | readNext => exact ⟨(h.was_head hc hok.1).1, hok.2⟩
  | readData =>
    obtain ⟨hwas, hsome, hnext⟩ := hok
    exact ⟨(h.was_head hc hwas).1, hsome, h.nextOk hc hwas (fun _ _ => id) hnext⟩
  | swap =>
    rcases hok with hgone | ⟨hwas, hnext⟩
    · exact .inl (h.gone hc hgone)
    · exact .inr ⟨(h.was_head hc hwas).1,
        h.nextOk hc hwas (fun _ hdata hout => hdata.trans hout) hnext⟩

end Rely

theorem ThreadOk.stable {m m' : Memory κ α} {g g' : κ → List Nat} {pc : Pc κ α}
    (hrely : Rely m m' g' pc.owns) (h : ThreadOk m g pc) : ThreadOk m' g' pc := by
  refine ⟨?_, fun n hn => (hrely.own n hn).2.2⟩
  have hpc := h.ok
  cases pc with
  | idle => trivial
  | enqueue q data step =>
    obtain ⟨hc, hok⟩ := hpc
    exact ⟨(hrely.head q hc).2, hrely.enqueueOk hc rfl hok⟩
  | dequeue q outData e d step =>
    obtain ⟨hc, hok⟩ := hpc
    exact ⟨(hrely.head q hc).2, hrely.dequeueOk hc hok⟩

/-! ## What is counted -/

variable [DecidableEq κ]

/-- The thread may take a node of the queue, and has not yet. -/
def Pc.claims (q : κ) : Pc κ α → Nat
  | .dequeue q' _ _ _ step =>
    match step with
    | .fetchSub | .fetchAdd | .deleteObject => 0
    | _ => if q' = q then 1 else 0
  | _ => 0

/-- The thread has found the queue empty, and not yet given back its claim. -/
def Pc.fails (q : κ) : Pc κ α → Nat
  | .dequeue q' _ _ _ .fetchAdd => if q' = q then 1 else 0
  | _ => 0

/-- The thread has linked a node to the queue, and not counted it. -/
def Pc.pending (q : κ) : Pc κ α → Nat
  | .enqueue q' _ step =>
    match step with
    | .moveTail _ | .fetchAdd => if q' = q then 1 else 0
    | _ => 0
  | _ => 0

/-- A thread counts for the same in either place. -/
def Pc.Weighs (pc pc' : Pc κ α) : Prop :=
  ∀ q, pc.claims q = pc'.claims q ∧ pc.fails q = pc'.fails q ∧ pc.pending q = pc'.pending q

/-- What `mCount` is, if `n` nodes are after the head. -/
def CountOk (s : State τ κ α) (q : κ) (n : Nat) : Prop :=
  ∃ n₁ n₂ n₃, Threads.Total s (Pc.claims q) n₁ ∧ Threads.Total s (Pc.fails q) n₂ ∧
    Threads.Total s (Pc.pending q) n₃ ∧
    (n : Int) = (s.shared.queue q).mCount + n₁ + n₂ + n₃ ∧
    0 ≤ (s.shared.queue q).mCount + n₂

/-- A step that changes what is claimed of a queue as it changes the count and the nodes. -/
theorem CountOk.set [DecidableEq τ] {s : State τ κ α} {q : κ} {n n' : Nat} {t : τ}
    {m : Memory κ α} {pc : Pc κ α} (h : CountOk s q n)
    (hn : (n' : Int) + (s.shared.queue q).mCount + (s.locals t).claims q +
        (s.locals t).fails q + (s.locals t).pending q =
      n + (m.queue q).mCount + pc.claims q + pc.fails q + pc.pending q)
    (hpos : 0 ≤ (m.queue q).mCount ∨
      (s.shared.queue q).mCount + (s.locals t).fails q ≤ (m.queue q).mCount + pc.fails q) :
    CountOk (s.set t m pc) q n' :=
  Threads.Counted.set h hn hpos

/-! ## The tail -/

/-- A node is beyond the tail. -/
def Lagging (m : Memory κ α) (q : κ) : Prop :=
  ∃ b n, (m.queue q).mTail.pNode = some b ∧ m.pNextNode b = some n

/-- What `moveTail` has read of the tail is still so. -/
def MoveStep.Current (m : Memory κ α) (q : κ) : MoveStep → Prop
  | .readCount => True
  | .readNode count => count = (m.queue q).mTail.count
  | .readNext expected | .swap expected _ => expected.count = (m.queue q).mTail.count

/-- The thread has linked a node and will find the tail as it is. -/
def Moves (m : Memory κ α) (q : κ) : Pc κ α → Prop
  | .enqueue q' _ (.moveTail step) => q' = q ∧ step.Current m q
  | _ => False

omit [DecidableEq κ] in
theorem Moves.congr {m m' : Memory κ α} {q : κ} {pc : Pc κ α} (h : Moves m q pc)
    (htail : (m'.queue q).mTail = (m.queue q).mTail) : Moves m' q pc := by
  unfold Moves MoveStep.Current at h ⊢
  rw [htail]
  exact h

theorem Moves.pending_pos {m : Memory κ α} {q : κ} {pc : Pc κ α} (h : Moves m q pc) :
    pc.pending q = 1 := by
  unfold Moves at h
  split at h
  · obtain ⟨rfl, -⟩ := h
    exact if_pos rfl
  · exact h.elim

/-! ## The invariant -/

/-- The values that were linked to a queue. -/
def linkedTo (q : κ) (l : List (Event κ α)) : List α :=
  l.filterMap fun
    | .linked q' data => if q' = q then some data else none
    | _ => none

/-- The values that were taken from a queue. -/
def takenFrom (q : κ) (l : List (Event κ α)) : List α :=
  l.filterMap fun
    | .taken q' data => if q' = q then some data else none
    | _ => none

/-- The invariant, of what was seen and the state. -/
structure Inv (l : List (Event κ α)) (s : State τ κ α) (g : κ → List Nat) : Prop where
  memory : MemoryOk s.shared g
  thread : ∀ t, ThreadOk s.shared g (s.locals t)
  apart : ∀ t u n, (s.locals t).owns = some n → (s.locals u).owns = some n → t = u
  count : ∀ q, CountOk s q (g q).tail.length
  mover : ∀ q, Constructed s.shared q → Lagging s.shared q → ∃ t, Moves s.shared q (s.locals t)
  /-- What was linked was taken or is still there, in this order. -/
  order : ∀ q, linkedTo q l = takenFrom q l ++ (g q).tail.map s.shared.data

/-- **A thread that may take a node finds one**: the tail is not at the head. -/
theorem Inv.head_ne_tail [DecidableEq τ] {l : List (Event κ α)} {s : State τ κ α}
    {g : κ → List Nat} (h : Inv l s g) {t : τ} {q : κ} (hc : Constructed s.shared q)
    (hclaim : (s.locals t).claims q = 1) :
    (s.shared.queue q).mHead.pNode ≠ (s.shared.queue q).mTail.pNode := by
  intro heq
  obtain ⟨hle, hlag⟩ := (h.memory.queue q).length_le_of_tail_eq hc heq
  obtain ⟨n₁, n₂, n₃, h₁, -, h₃, hsum, hneg⟩ := h.count q
  have hone := h₁.le t
  have hne : (g q).tail ≠ [] := by
    intro hnil
    rw [hnil, List.length_nil] at hsum
    omega
  obtain ⟨u, hu⟩ := h.mover q hc (hlag hne)
  have htwo := h₃.le u
  rw [hu.pending_pos] at htwo
  omega

theorem Inv.head_next [DecidableEq τ] {l : List (Event κ α)} {s : State τ κ α}
    {g : κ → List Nat} (h : Inv l s g) {t : τ} {q : κ} (hc : Constructed s.shared q)
    (hclaim : (s.locals t).claims q = 1) : ∃ p n rest, g q = p :: n :: rest ∧
      (s.shared.queue q).mHead.pNode = some p ∧ s.shared.pNextNode p = some n := by
  obtain ⟨p, rest, hg, hp⟩ := (h.memory.queue q).cons_of_constructed hc
  have hlinked := (h.memory.queue q).linked
  rw [hg] at hlinked
  cases rest with
  | cons n rest => exact ⟨p, n, rest, hg, hp, hlinked.2.1⟩
  | nil =>
    obtain ⟨n₁, n₂, n₃, h₁, -, -, hsum, hneg⟩ := h.count q
    have hone := h₁.le t
    rw [hg] at hsum
    simp only [List.tail_cons, List.length_nil] at hsum
    omega

theorem Inv.set [DecidableEq τ] {l l' : List (Event κ α)} {s : State τ κ α}
    {g g' : κ → List Nat} {t : τ} {m : Memory κ α} {pc : Pc κ α} (h : Inv l s g)
    (hrely : ∀ u, u ≠ t → Rely s.shared m g' (s.locals u).owns) (hmemory : MemoryOk m g')
    (hthread : ThreadOk m g' pc)
    (hapart : ∀ u n, u ≠ t → pc.owns = some n → (s.locals u).owns ≠ some n)
    (hcount : ∀ q, CountOk (s.set t m pc) q (g' q).tail.length)
    (hmover : ∀ q, Constructed m q → Lagging m q → Moves m q pc ∨
      ∃ u, u ≠ t ∧ Moves m q (s.locals u))
    (horder : ∀ q, linkedTo q l' = takenFrom q l' ++ (g' q).tail.map m.data) :
    Inv l' (s.set t m pc) g' := by
  refine ⟨hmemory, fun u => ?_, fun u v n hu hv => ?_, hcount, fun q hc hlag => ?_, horder⟩
  · by_cases hut : u = t
    · subst hut
      rw [Threads.set_self]
      exact hthread
    · rw [Threads.set_other _ _ _ _ hut]
      exact (h.thread u).stable (hrely u hut)
  · by_cases hut : u = t
    · by_cases hvt : v = t
      · rw [hut, hvt]
      · rw [hut, Threads.set_self] at hu
        rw [Threads.set_other _ _ _ _ hvt] at hv
        exact absurd hv (hapart v n hvt hu)
    · rw [Threads.set_other _ _ _ _ hut] at hu
      by_cases hvt : v = t
      · rw [hvt, Threads.set_self] at hv
        exact absurd hu (hapart u n hut hv)
      · rw [Threads.set_other _ _ _ _ hvt] at hv
        exact h.apart u v n hu hv
  · rcases hmover q hc hlag with hmoves | ⟨u, hut, hmoves⟩
    · refine ⟨t, ?_⟩
      rw [Threads.set_self]
      exact hmoves
    · refine ⟨u, ?_⟩
      rw [Threads.set_other _ _ _ _ hut]
      exact hmoves

end CppNetEngine.LockFreeQueue
