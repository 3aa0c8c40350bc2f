import CppNetEngine.Memory.Proof.Pooled
import CppNetEngine.Queue.Proof.Bound
import CppNetEngine.Queue.Proof.Linear
import Mathlib.Algebra.BigOperators.Ring.Finset
import Mathlib.Data.Set.Finite.Basic

/-!
# Lock-free queues with their object pool

`LockFreeQueue`s over the `TlsObjectPool` of their nodes, which they share. As with stacks, the pool
gives no node that is in use, because the queues delete only nodes that they have taken (`lawful`).
The nodes in use are those of the queues and those that threads own (`NodesKept`), so none is lost:
when all calls have returned, the pool counts one node for each value and one for each queue
(`fifo_pooled`).
-/

namespace CppNetEngine.LockFreeQueue

open TlsObjectPool (Client)

variable {τ κ α : Type} [DecidableEq κ]

/-! ## Nodes in use -/

/-- Every node in use is one of a queue, or a thread owns it. -/
def NodesKept (s : State τ κ α) (g : κ → List Nat) : Prop :=
  ∀ n ∈ s.shared.allocated, (∃ q, n ∈ g q) ∨ ∃ t, (s.locals t).owns = some n

/-- What a step leaves of the nodes: it takes none that the thread does not own then, changes no
link of a node that others may have, and the thread's own node stays its own, or is linked or
deleted. -/
structure Leaves (m m' : Memory κ α) (pc pc' : Pc κ α) : Prop where
  allocated : ∀ n ∈ m'.allocated, n ∈ m.allocated ∨ pc'.owns = some n
  next : ∀ n, pc.owns ≠ some n → m.pNextNode n ≠ none → m'.pNextNode n = m.pNextNode n
  owns : ∀ n ∈ m'.allocated, pc.owns = some n → pc'.owns = some n ∨
    ∃ q b, (q, b) ∈ pc.links ∧ m.pNextNode b = none ∧ m'.pNextNode b = some n

variable {m m' : Memory κ α} {pc pc' : Pc κ α} {q : κ} {k : Outside}

omit [DecidableEq κ] in
theorem Leaves.same (halloc : m'.allocated = m.allocated) (hnext : m'.pNextNode = m.pNextNode)
    (howns : ∀ n, pc.owns = some n → pc'.owns = some n) : Leaves m m' pc pc' :=
  ⟨fun n hn => .inl (halloc ▸ hn), fun n _ _ => by rw [hnext], fun n _ hn => .inl (howns n hn)⟩

omit [DecidableEq κ] in
theorem Leaves.unowned (halloc : m'.allocated = m.allocated) (hnext : m'.pNextNode = m.pNextNode)
    (hnone : pc.owns = none) : Leaves m m' pc pc' := by
  refine .same halloc hnext fun n hn => ?_
  rw [hnone] at hn
  cases hn

theorem moveTail_next {step : MoveStep} {next : Option MoveStep}
    (h : moveTail m q step = some (m', next)) :
    m'.allocated = m.allocated ∧ m'.pNextNode = m.pNextNode := by
  obtain rfl | ⟨tail, rfl⟩ := moveTail_frame h
  · exact ⟨rfl, rfl⟩
  · exact ⟨rfl, rfl⟩

theorem enqueueStep_leaves {data : α} {step : EnqueueStep}
    (h : enqueueStep k m q data step = some (m', pc')) :
    Leaves m m' (.enqueue q data step) pc' := by
  cases step with
  | loadCount | fetchAdd =>
    cases h
    exact .unowned rfl rfl rfl
  | newObject =>
    cases h
    refine ⟨fun n hn => ?_, fun _ _ _ => rfl, fun n _ hn => ?_⟩
    · rcases Finset.mem_insert.1 hn with rfl | hn
      · exact .inr rfl
      · exact .inl hn
    · cases hn
  | setData a =>
    cases h
    exact .same rfl rfl fun _ => id
  | setNext a =>
    cases h
    refine ⟨fun n => .inl, fun n hn _ => Function.update_of_ne (fun heq => hn ?_) _ _,
      fun n _ => .inl⟩
    rw [heq]
    rfl
  | readTail a =>
    cases h
    exact .same rfl rfl fun _ => id
  | readNext a pNode =>
    obtain ⟨b, -, heq⟩ := Option.map_eq_some_iff.1 h
    cases heq
    exact .same rfl rfl fun _ => id
  | readTailAgain a pExpected =>
    cases h
    refine .same rfl rfl fun n hn => ?_
    split <;> exact hn
  | swap a pNode =>
    obtain ⟨b, rfl, heq⟩ := Option.map_eq_some_iff.1 h
    split at heq <;> rename_i hnone <;> cases heq
    · refine ⟨fun n => .inl, fun n _ hn => Function.update_of_ne (fun heq => hn ?_) _ _,
        fun n _ hn => .inr ⟨q, b, rfl, hnone, ?_⟩⟩
      · rw [heq, hnone]
      · cases hn
        exact Function.update_self _ _ _
    · exact .same rfl rfl fun _ => id
  | retry a step =>
    obtain ⟨⟨m'', next⟩, hmove, heq⟩ := Option.map_eq_some_iff.1 h
    cases heq
    obtain ⟨halloc, hnext⟩ := moveTail_next hmove
    refine .same halloc hnext fun n hn => ?_
    cases next <;> exact hn
  | moveTail step =>
    obtain ⟨⟨m'', next⟩, hmove, heq⟩ := Option.map_eq_some_iff.1 h
    cases heq
    obtain ⟨halloc, hnext⟩ := moveTail_next hmove
    exact .unowned halloc hnext rfl

theorem dequeueStep_leaves {outData : α} {e d : Node16} {step : DequeueStep}
    (h : dequeueStep k m q outData e d step = some (m', pc')) :
    Leaves m m' (.dequeue q outData e d step) pc' := by
  cases step with
  | fetchSub | fetchAdd | compare | compareTail | compareHead | readCount | readNode =>
    cases h
    exact .unowned rfl rfl rfl
  | moveTail step =>
    obtain ⟨⟨m'', next⟩, hmove, heq⟩ := Option.map_eq_some_iff.1 h
    cases heq
    obtain ⟨halloc, hnext⟩ := moveTail_next hmove
    exact .unowned halloc hnext rfl
  | readNext | readData =>
    obtain ⟨b, -, heq⟩ := Option.map_eq_some_iff.1 h
    cases heq
    exact .unowned rfl rfl rfl
  | swap =>
    simp only [dequeueStep] at h
    split at h <;> cases h <;> exact .unowned rfl rfl rfl
  | deleteObject =>
    cases h
    refine ⟨fun n hn => .inl ?_, fun _ _ _ => rfl, fun n hn howns => ?_⟩
    · simp only [Memory.deleteObject] at hn
      cases hp : e.pNode with
      | none =>
        rw [hp] at hn
        exact hn
      | some p =>
        rw [hp] at hn
        exact Finset.mem_of_mem_erase hn
    · have hp : e.pNode = some n := howns
      simp only [Memory.deleteObject, hp] at hn
      exact absurd hn (Finset.notMem_erase _ _)

variable [DecidableEq τ] {l l' : List (Event κ α)} {s : State τ κ α} {g g' : κ → List Nat} {t : τ}

omit [DecidableEq κ] in
theorem NodesKept.set (hkept : NodesKept s g)
    (halloc : ∀ n ∈ m.allocated, n ∈ s.shared.allocated ∨ (∃ q, n ∈ g' q) ∨ pc.owns = some n)
    (hnodes : ∀ q, ∀ n ∈ g q, (∃ q', n ∈ g' q') ∨ pc.owns = some n)
    (howns : ∀ n ∈ m.allocated, (s.locals t).owns = some n →
      (∃ q, n ∈ g' q) ∨ pc.owns = some n) : NodesKept (s.set t m pc) g' := by
  have hnow : ∀ {n}, (∃ q, n ∈ g' q) ∨ pc.owns = some n →
      (∃ q, n ∈ g' q) ∨ ∃ u, ((s.set t m pc).locals u).owns = some n := by
    intro n hn
    refine hn.imp_right fun hown => ⟨t, ?_⟩
    rw [Threads.set_self]
    exact hown
  intro n hn
  rcases halloc n hn with hold | hnew
  · rcases hkept n hold with ⟨q, hin⟩ | ⟨u, hu⟩
    · exact hnow (hnodes q n hin)
    · by_cases hut : u = t
      · rw [hut] at hu
        exact hnow (howns n hn hu)
      · refine .inr ⟨u, ?_⟩
        rw [Threads.set_other _ _ _ _ hut]
        exact hu
  · exact hnow hnew

theorem Leaves.nodesKept (hleaves : Leaves s.shared m (s.locals t) pc) (h : Inv l s g)
    (h' : Inv l' (s.set t m pc) g') (hlink : LinkGuard s t)
    (hheads : ∀ q, (m.queue q).mHead = (s.shared.queue q).mHead) (hkept : NodesKept s g) :
    NodesKept (s.set t m pc) g' := by
  have hmem : ∀ q, ∀ n ∈ g q, n ∈ g' q := by
    intro q n hn
    have hlinked := (h'.memory.queue q).linked
    rw [Threads.set_shared, hheads] at hlinked
    refine (h.memory.queue q).linked.mem_of_keep hlinked (fun b hb hne => ?_) hn
    exact hleaves.next b (fun hown => ((h.thread t).owned b hown).2 q hb) hne
  refine hkept.set (fun n hn => (hleaves.allocated n hn).imp_right .inr)
    (fun q n hn => .inl ⟨q, hmem q n hn⟩) fun n hn hown => ?_
  rcases hleaves.owns n hn hown with hstill | ⟨q, b, hlinks, hnone, hnext⟩
  · exact .inr hstill
  · have htail := hlink (q, b) hlinks hnone
    have hc : Constructed s.shared q := by
      have hok := (h.thread t).ok
      generalize s.locals t = pc₀ at hlinks hok
      unfold Pc.links at hlinks
      split at hlinks
      · obtain ⟨_, -, heq⟩ := Option.map_eq_some_iff.1 hlinks
        cases heq
        exact hok.1
      · cases hlinks
    have hin : b ∈ g q := by
      obtain ⟨before, ⟨hg, -⟩ | ⟨n', hg, -⟩⟩ := (h.memory.queue q).tail_cases htail hc <;>
        rw [hg] <;> exact List.mem_append_right _ List.mem_cons_self
    exact .inl ⟨q, (h'.memory.queue q).linked.mem_next (hmem q b hin) hnext⟩

/-- The thread has the node that it has taken from the head. -/
theorem take_nodesKept (h : Inv l s g) (hkept : NodesKept s g) {outData : α} {e d : Node16}
    (hpc : s.locals t = .dequeue q outData e d .swap) (hhead : (s.shared.queue q).mHead = e)
    (h' : Inv l' (s.set t (s.shared.setHead q d) (.dequeue q outData e d .deleteObject)) g') :
    NodesKept (s.set t (s.shared.setHead q d) (.dequeue q outData e d .deleteObject)) g' := by
  have hok := (h.thread t).ok
  rw [hpc] at hok
  obtain ⟨hc, hgone | ⟨-, hnext⟩⟩ := hok
  · rcases hgone with hnone | hlt
    · rw [← hhead] at hnone
      exact absurd hnone hc
    · rw [hhead] at hlt
      exact absurd hlt (Nat.lt_irrefl _)
  · obtain ⟨p, n, hp, hn, rfl, -⟩ := hnext hhead.symm
    obtain ⟨p', rest, hg, hp'⟩ := (h.memory.queue q).cons_of_constructed hc
    rw [hhead, hp] at hp'
    cases hp'
    refine hkept.set (fun _ => .inl) (fun q' n' hn' => ?_) fun n' _ hown => ?_
    · by_cases hq : q' = q
      · subst hq
        have hlinked := (h.memory.queue q').linked
        have hlinked' := (h'.memory.queue q').linked
        rw [Threads.set_shared, Memory.setHead_self] at hlinked'
        rw [hg] at hlinked hn'
        have hrest := hlinked.2
        rw [hn] at hrest
        rw [← hlinked'.unique hrest] at hn'
        rcases List.mem_cons.1 hn' with rfl | hn'
        · exact .inr hp
        · exact .inl ⟨q', hn'⟩
      · have hlinked' := (h'.memory.queue q').linked
        rw [Threads.set_shared, Memory.setHead_other hq] at hlinked'
        rw [(h.memory.queue q').linked.unique hlinked'] at hn'
        exact .inl ⟨q', hn'⟩
    · rw [hpc] at hown
      cases hown

theorem construct_nodesKept (h : Inv l s g) (hkept : NodesKept s g) (hidle : s.locals t = .idle)
    {maxCount : Int} {a : Nat} (hq : (s.shared.queue q).mHead.pNode = none)
    (ha : a ∉ s.shared.allocated)
    (h' : Inv l' (s.set t (s.shared.construct q maxCount a) .idle) g') :
    NodesKept (s.set t (s.shared.construct q maxCount a) .idle) g' := by
  refine hkept.set (fun n hn => ?_) (fun q' n hn => ?_) fun n _ hown => ?_
  · rcases Finset.mem_insert.1 hn with rfl | hn
    · have hlinked := (h'.memory.queue q).linked
      rw [Threads.set_shared, Memory.construct, Memory.setQueue_self] at hlinked
      obtain ⟨rest, hg, -⟩ := hlinked.of_some
      refine .inr (.inl ⟨q, ?_⟩)
      rw [hg]
      exact List.mem_cons_self
    · exact .inl hn
  · have hne : q' ≠ q := by
      rintro rfl
      rw [h.nil_of_fresh hq] at hn
      cases hn
    have hlinked := (h'.memory.queue q').linked
    rw [Threads.set_shared, Memory.construct, Memory.setQueue_other hne] at hlinked
    refine .inl ⟨q', (h.memory.queue q').linked.mem_of_keep hlinked (fun b hb _ => ?_) hn⟩
    refine Function.update_of_ne (fun heq => ha ?_) _ _
    rw [← heq]
    exact h.memory.allocated q' b hb
  · rw [hidle] at hown
    cases hown

/-- **No step loses a node.** -/
theorem act_nodesKept (h : Inv l s g) (hkept : NodesKept s g) {a : Action κ α}
    (hguard : CallsGuard s t a) (hlink : LinkGuard s t)
    (hs : act a s.shared (s.locals t) = some (m, pc))
    (h' : Inv l' (s.set t m pc) g') : NodesKept (s.set t m pc) g' := by
  cases a with
  | next k =>
    change step k s.shared (s.locals t) = some (m, pc) at hs
    cases hpc : s.locals t with
    | idle =>
      rw [hpc] at hs
      cases hs
    | enqueue q data step =>
      rw [hpc] at hs
      have hleaves := enqueueStep_leaves hs
      rw [← hpc] at hleaves
      exact hleaves.nodesKept h h' hlink (enqueueStep_frame hs).heads.head hkept
    | dequeue q outData e d step =>
      rw [hpc] at hs
      cases dequeueStep_frame hs with
      | stays hheads =>
        have hleaves := dequeueStep_leaves hs
        rw [← hpc] at hleaves
        exact hleaves.nodesKept h h' hlink hheads.head hkept
      | takes hstep hhead hm hpc' =>
        subst hstep hm hpc'
        exact take_nodesKept h hkept hpc hhead h'
  | construct q maxCount a =>
    cases hpc : s.locals t <;> rw [hpc] at hs <;> cases hs
    exact construct_nodesKept h hkept hpc hguard.1 hguard.2 h'
  | enqueue | dequeue =>
    cases hpc : s.locals t <;> rw [hpc] at hs <;> cases hs
    refine (Leaves.same rfl rfl fun n hn => ?_).nodesKept h h' hlink (fun _ => rfl) hkept
    rw [hpc] at hn
    exact hn

theorem nodesKept (h : ObservedIf LinkGuard l s) : ∃ g, Inv l s g ∧ NodesKept s g := by
  refine Threads.observed (I := fun l s => ∃ g, Inv l s g ∧ NodesKept s g) ?_ ?_
    (fun _ _ e => e.elim) h
  · rintro s ⟨hshared, hlocals⟩
    refine ⟨_, .init hshared hlocals, fun n hn => ?_⟩
    rw [hshared.allocated] at hn
    exact absurd hn (Finset.notMem_empty n)
  · rintro l s t a m pc ⟨g, hinv, hkept⟩ hguard hs
    obtain ⟨g', hinv'⟩ := hinv.act hguard.1 hguard.2 hs
    exact ⟨g', hinv', act_nodesKept hinv hkept hguard.1 hguard.2 hs hinv'⟩

omit [DecidableEq τ] in
/-- **When all calls have returned**, there is one node in use for each value, and one for each
queue. -/
theorem Inv.card_allocated (h : Inv l s g) (hkept : NodesKept s g)
    (hidle : ∀ t, s.locals t = .idle) : ∃ Q : Finset κ, (∀ q, q ∈ Q ↔ Constructed s.shared q) ∧
      (s.shared.allocated.card : Int) = ∑ q ∈ Q, ((s.shared.queue q).mCount + 1) := by
  have hhead : ∀ q, Constructed s.shared q → ∃ p rest, g q = p :: rest ∧
      (s.shared.queue q).mHead.pNode = some p :=
    fun q hc => (h.memory.queue q).cons_of_constructed hc
  have hfinite : {q | Constructed s.shared q}.Finite := by
    refine Set.Finite.of_injOn (f := fun q => (s.shared.queue q).mHead.pNode.getD 0)
      (t := s.shared.allocated) ?_ ?_ s.shared.allocated.finite_toSet
    · intro q hc
      obtain ⟨p, rest, hg, hp⟩ := hhead q hc
      simp only [hp, Option.getD_some]
      exact h.memory.allocated q p (by rw [hg]; exact List.mem_cons_self)
    · intro q hc q' hc' heq
      obtain ⟨p, rest, hg, hp⟩ := hhead q hc
      obtain ⟨p', rest', hg', hp'⟩ := hhead q' hc'
      simp only [hp, hp', Option.getD_some] at heq
      subst heq
      exact h.memory.apart q q' p (by rw [hg]; exact List.mem_cons_self)
        (by rw [hg']; exact List.mem_cons_self)
  refine ⟨hfinite.toFinset, fun q => by rw [Set.Finite.mem_toFinset, Set.mem_ofPred_eq], ?_⟩
  have hunion : s.shared.allocated = hfinite.toFinset.biUnion fun q => (g q).toFinset := by
    ext n
    simp only [Finset.mem_biUnion, Set.Finite.mem_toFinset, Set.mem_ofPred_eq, List.mem_toFinset]
    constructor
    · intro hn
      rcases hkept n hn with ⟨q, hq⟩ | ⟨t, ht⟩
      · exact ⟨q, (h.memory.queue q).constructed.2 (List.ne_nil_of_mem hq), hq⟩
      · rw [hidle t] at ht
        cases ht
    · rintro ⟨q, -, hq⟩
      exact h.memory.allocated q n hq
  rw [hunion, Finset.card_biUnion, Nat.cast_sum]
  · refine Finset.sum_congr rfl fun q hq => ?_
    obtain ⟨p, rest, hg, -⟩ := hhead q (hfinite.mem_toFinset.1 hq)
    have hcount : (s.shared.queue q).mCount = (g q).tail.length := by
      refine Threads.Counted.atRest (h.count q) fun t => ?_
      rw [hidle t]
      exact ⟨rfl, rfl, rfl⟩
    rw [List.toFinset_card_of_nodup (h.memory.queue q).nodup, hcount, hg]
    rfl
  · intro q _ q' _ hne
    refine Finset.disjoint_left.2 fun n hn hn' => hne ?_
    exact h.memory.apart q q' n (List.mem_toFinset.1 hn) (List.mem_toFinset.1 hn')

/-! ## The queues and their pool -/

/-- Queues, as they use the pool. -/
def client (κ α : Type) [DecidableEq κ] : Client (Memory κ α) (Pc κ α) (Action κ α) where
  act := act
  initial := Memory.Initial
  idle := .idle
  newObject
    | .construct _ _ pDummyNode, .idle => some pDummyNode
    | .next k, .enqueue _ _ .newObject => some k.address
    | _, _ => none
  withNode
    | .construct q maxCount _, pNode => .construct q maxCount pNode
    | .next k, pNode => .next { k with address := pNode }
    | a, _ => a
  deleteObject
    | .next _, .dequeue _ _ expected _ .deleteObject => expected.pNode
    | _, _ => none
  allocated := Memory.allocated

/-- What the callers see to: queues are constructed once and before they are used. -/
def CallersGuard (s : State τ κ α) : Action κ α → Prop
  | .construct q _ _ => (s.shared.queue q).mHead.pNode = none
  | .enqueue q _ | .dequeue q _ => (s.shared.queue q).mHead.pNode ≠ none
  | .next _ => True

instance (s : State τ κ α) : ∀ a, Decidable (CallersGuard s a)
  | .construct _ _ _ => inferInstanceAs (Decidable (_ = _))
  | .enqueue _ _ | .dequeue _ _ => inferInstanceAs (Decidable (_ ≠ _))
  | .next _ => inferInstanceAs (Decidable True)

/-- The condition on the callers, and that nodes are linked at tails. -/
abbrev LinkedCalls (τ κ α : Type) [DecidableEq κ] (s : State τ κ α) (t : τ) (a : Action κ α) :
    Prop := CallersGuard s a ∧ LinkGuard s t

theorem guard_of {a : ThreadAction τ (Action κ α) Empty} {s' : State τ κ α}
    (h : Threads.Guard ((client κ α).Guard (LinkedCalls τ κ α)) (fun _ _ => True) s a)
    (hs : ((client κ α).machine τ).step s a = some s') :
    Threads.Guard (fun s t a => CallsGuard s t a ∧ LinkGuard s t) (fun _ _ => True) s a := by
  obtain ⟨t, a, m, pc, rfl, hact, -⟩ | ⟨e, -⟩ := Threads.step_cases hs
  · obtain ⟨⟨hcallers, hlink⟩, hfresh⟩ := h
    refine ⟨?_, hlink⟩
    generalize hpc : s.locals t = pc₀ at hact hfresh
    cases a with
    | construct q maxCount pDummyNode =>
      cases pc₀ with
      | idle => exact ⟨hcallers, hfresh pDummyNode rfl⟩
      | enqueue | dequeue => cases hact
    | enqueue | dequeue => exact hcallers
    | next k =>
      intro hnew
      rw [hpc] at hnew
      refine hfresh k.address ?_
      cases pc₀ with
      | enqueue q data step =>
        cases step with
        | newObject => rfl
        | _ => cases hnew
      | idle | dequeue => cases hnew
  · exact e.elim

omit [DecidableEq τ] in
theorem newObject_cases {a : Action κ α} {pNode : Nat}
    (h : (client κ α).newObject a pc = some pNode) :
    (∃ q maxCount, a = .construct q maxCount pNode ∧ pc = .idle) ∨
      ∃ k q data, a = .next k ∧ k.address = pNode ∧ pc = .enqueue q data .newObject := by
  cases a with
  | construct q maxCount pDummyNode =>
    cases pc with
    | idle =>
      cases h
      exact .inl ⟨q, maxCount, rfl, rfl⟩
    | enqueue | dequeue => cases h
  | next k =>
    cases pc with
    | enqueue q data step =>
      cases step with
      | newObject => exact .inr ⟨k, q, data, rfl, Option.some.inj h, rfl⟩
      | _ => cases h
    | idle | dequeue => cases h
  | enqueue | dequeue => cases h

theorem deleteObject_cases {a : Action κ α} {pNode : Nat}
    (h : (client κ α).deleteObject a pc = some pNode) : ∃ k q outData e d, a = .next k ∧
      pc = .dequeue q outData e d .deleteObject ∧ e.pNode = some pNode := by
  cases a with
  | next k =>
    cases pc with
    | dequeue q outData e d step =>
      cases step with
      | deleteObject => exact ⟨k, q, outData, e, d, rfl, rfl, h⟩
      | _ => cases h
    | idle | enqueue => cases h
  | construct | enqueue | dequeue => cases h

theorem enqueueStep_allocated {data : α} {step : EnqueueStep} (hstep : step ≠ .newObject)
    (h : enqueueStep k m q data step = some (m', pc')) : m'.allocated = m.allocated := by
  cases step with
  | newObject => exact absurd rfl hstep
  | loadCount | setData | setNext | readTail | readTailAgain | fetchAdd =>
    cases h
    rfl
  | readNext =>
    obtain ⟨b, -, heq⟩ := Option.map_eq_some_iff.1 h
    cases heq
    rfl
  | swap =>
    obtain ⟨b, -, heq⟩ := Option.map_eq_some_iff.1 h
    split at heq <;> cases heq <;> rfl
  | retry _ step | moveTail step =>
    obtain ⟨⟨m'', next⟩, hmove, heq⟩ := Option.map_eq_some_iff.1 h
    cases heq
    exact (moveTail_next hmove).1

theorem dequeueStep_allocated {outData : α} {e d : Node16} {step : DequeueStep}
    (hstep : step = .deleteObject → e.pNode = none)
    (h : dequeueStep k m q outData e d step = some (m', pc')) : m'.allocated = m.allocated := by
  cases step with
  | deleteObject =>
    cases h
    rw [hstep rfl]
    rfl
  | fetchSub | fetchAdd | compare | compareTail | compareHead | readCount | readNode =>
    cases h
    rfl
  | moveTail step =>
    obtain ⟨⟨m'', next⟩, hmove, heq⟩ := Option.map_eq_some_iff.1 h
    cases heq
    exact (moveTail_next hmove).1
  | readNext | readData =>
    obtain ⟨b, -, heq⟩ := Option.map_eq_some_iff.1 h
    cases heq
    rfl
  | swap =>
    simp only [dequeueStep] at h
    split at h <;> cases h <;> rfl

/-- **Queues delete only nodes that they have taken.** -/
theorem lawful : (client κ α).Lawful (LinkedCalls τ κ α) where
  initial _ h := h.allocated
  withNode a pc pNode pNode' h := by
    obtain ⟨q, maxCount, rfl, rfl⟩ | ⟨k, q, data, rfl, -, rfl⟩ := newObject_cases h <;> rfl
  act_isSome a m pc pNode h := by
    obtain ⟨q, maxCount, rfl, rfl⟩ | ⟨k, q, data, rfl, -, rfl⟩ := newObject_cases h <;> rfl
  newObject a m pc m' pc' pNode hs h := by
    obtain ⟨q, maxCount, rfl, rfl⟩ | ⟨k, q, data, rfl, rfl, rfl⟩ := newObject_cases h <;>
      cases hs <;> rfl
  deleteObject a m pc m' pc' pNode hs _ h := by
    obtain ⟨k, q, outData, e, d, rfl, rfl, hp⟩ := deleteObject_cases h
    cases hs
    change (m.deleteObject e.pNode).allocated = _
    rw [hp]
    rfl
  keep a m pc m' pc' hs hnew hdelete := by
    cases a with
    | next k =>
      change step k m pc = some (m', pc') at hs
      cases pc with
      | idle => cases hs
      | enqueue q data step =>
        refine enqueueStep_allocated ?_ hs
        rintro rfl
        cases hnew
      | dequeue q outData e d step =>
        refine dequeueStep_allocated ?_ hs
        rintro rfl
        exact hdelete
    | construct =>
      cases pc with
      | idle => cases hnew
      | enqueue | dequeue => cases hs
    | enqueue | dequeue =>
      cases pc <;> cases hs
      rfl
  inUse s t a pNode h hdelete := by
    obtain ⟨k, q, outData, e, d, -, hpc, hp⟩ := deleteObject_cases hdelete
    obtain ⟨w, hw⟩ : ∃ w, ((client κ α).machine τ).Observed
      (Threads.Guard ((client κ α).Guard (LinkedCalls τ κ α)) fun _ _ => True) watched w s :=
        h.observed
    obtain ⟨g, hinv, -⟩ := nodesKept (hw.mono_of_step fun _ _ _ => guard_of)
    refine ((hinv.thread t).owned pNode ?_).1
    rw [hpc]
    exact hp

/-- The runs of queues with their pool in which nodes are linked at tails, with the calls and
returns. Nothing is said of what `NewObject` gives. -/
abbrev PooledObserved : List (CallEvent τ (Atomic.Call κ α) (Atomic.Return α)) →
    TlsObjectPool.Pooled.State τ (Memory κ α) (Pc κ α) (Action κ α) → Prop :=
  (TlsObjectPool.Pooled.machine (client κ α) τ).Observed
    (Threads.Guard (TlsObjectPool.Pooled.Guard (client κ α) (LinkedCalls τ κ α)) fun _ _ => True)
    (TlsObjectPool.Pooled.see (client κ α) Atomic.seenCalls)

variable {h : List (CallEvent τ (Atomic.Call κ α) (Atomic.Return α))}
  {p : TlsObjectPool.Pooled.State τ (Memory κ α) (Pc κ α) (Action κ α)}

/-- **Queues with their pool are queues** as long as nodes are linked at tails, whatever memory the
pool takes: their calls are those of the atomic queues (whose `TryDequeue` may answer `false` for as
many values as other calls on the queue are in progress), a thread in a call can always go on, and
when all calls have returned the pool counts one object for each value and one for each queue. -/
theorem fifo_pooled (hp : PooledObserved h p) :
    (∃ e o, AtomicObject.Moves Atomic.Answered
      (AtomicObject.fresh τ (Atomic.Call κ α) (Atomic.Return α) fun _ => ⟨0, []⟩) h e o ∧
      ∀ q, (o.shared q).mMaxCount = (p.shared.client.queue q).mMaxCount ∧
        Reaches p.shared.client q (o.shared q).values) ∧
    (∀ t k, (p.locals t).pool.isIdle = false →
      (TlsObjectPool.Pooled.act (client κ α) (.pool k) p.shared (p.locals t)).isSome) ∧
    (∀ t k, (p.locals t).pool.isIdle = true → (p.locals t).client ≠ .idle →
      (TlsObjectPool.Pooled.act (client κ α) (.client (.next k)) p.shared (p.locals t)).isSome) ∧
    (TlsObjectPool.Pooled.AtRest (client κ α) p → ∃ Q : Finset κ,
      (∀ q, q ∈ Q ↔ Constructed p.shared.client q) ∧
      p.shared.pool.mAllocCount = ∑ q ∈ Q, ((p.shared.client.queue q).mCount + 1)) := by
  have hjoint := TlsObjectPool.Pooled.RunsTo.joint lawful hp.reachableIf
  have hclient : Atomic.Observed h p.client :=
    (TlsObjectPool.Pooled.observed lawful hp).mono_of_step fun _ _ _ => guard_of
  obtain ⟨w, hwatched⟩ : ∃ w, ObservedIf LinkGuard w p.client := hclient.reachableIf.observed
  obtain ⟨g, hinv, hkept⟩ := nodesKept hwatched
  obtain ⟨e, l', g', hinv', hmoves⟩ := Atomic.followed hclient
  refine ⟨⟨e, _, hmoves, fun q => ⟨rfl, hinv'.reaches q⟩⟩,
    fun t k hbusy => hjoint.proceeds lawful hbusy k,
    fun t k hidle hbusy => hjoint.client_isSome hidle ((hinv.thread t).ok.step_isSome hbusy k),
    fun hrest => ?_⟩
  rw [hjoint.allocCount fun t => (hrest t).2]
  exact hinv.card_allocated hkept fun t => (hrest t).1

/-- Queues that are not constructed, and a pool without chunks. -/
def pooledTwoQueues :
    TlsObjectPool.Pooled.State Bool (Memory Bool Nat) (Pc Bool Nat) (Action Bool Nat) :=
  ⟨⟨twoQueues.shared, TlsObjectPool.initial⟩, fun _ => ⟨.idle, .new, none⟩⟩

/-- A thread takes steps on queues, and then in the pool, of which it has a chunk of its own. -/
def pooledSteps (t : Bool) (n n' : Nat) :
    List (ThreadAction Bool (TlsObjectPool.Pooled.Action (Action Bool Nat)) Empty) :=
  List.replicate n (.thread t (.client (.next ⟨0, false⟩))) ++
    List.replicate n' (.thread t (.pool ⟨false, t.toNat⟩))

/-- A queue is constructed, two values are enqueued, and one of them is dequeued by the other
thread. -/
def pooledRun : List (ThreadAction Bool (TlsObjectPool.Pooled.Action (Action Bool Nat)) Empty) :=
  .thread false (.client (.construct false 10 0)) :: pooledSteps false 0 7 ++
    .thread true (.client (.enqueue false 7)) :: pooledSteps true 2 7 ++ pooledSteps true 11 0 ++
    .thread true (.client (.enqueue false 8)) :: pooledSteps true 2 4 ++ pooledSteps true 11 0 ++
    .thread false (.client (.dequeue false 0)) :: pooledSteps false 9 2

/-- There are one queue and one value. -/
theorem fifo_pooled_two : ∃ (h : List (CallEvent Bool (Atomic.Call Bool Nat) (Atomic.Return Nat)))
    (p : TlsObjectPool.Pooled.State Bool (Memory Bool Nat) (Pc Bool Nat) (Action Bool Nat)),
    PooledObserved h p ∧ p.shared.pool.mAllocCount = 2 ∧ ∃ Q : Finset Bool,
      (∀ q, q ∈ Q ↔ Constructed p.shared.client q) ∧
      p.shared.pool.mAllocCount = ∑ q ∈ Q, ((p.shared.client.queue q).mCount + 1) := by
  have hok : (TlsObjectPool.Pooled.machine (client Bool Nat) Bool).Allowed
      (Threads.Guard (TlsObjectPool.Pooled.Guard (client Bool Nat) (LinkedCalls Bool Bool Nat))
        fun _ _ => True) pooledTwoQueues pooledRun := by
    decide +kernel
  obtain ⟨p, hp, hafter⟩ := (Option.any_eq_true
    (fun p : TlsObjectPool.Pooled.State Bool (Memory Bool Nat) (Pc Bool Nat) (Action Bool Nat) =>
      decide (p.shared.pool.mAllocCount = 2 ∧ ∀ t, (p.locals t).pool.isIdle = true ∧
        (act (.dequeue false 0) p.shared.client (p.locals t).client).isSome = true))
    ((TlsObjectPool.Pooled.machine (client Bool Nat) Bool).exec pooledTwoQueues pooledRun)).1
      (by decide +kernel)
  obtain ⟨hcount, hrest⟩ := of_decide_eq_true hafter
  obtain ⟨h, hrun⟩ : ∃ h, PooledObserved h p :=
    ⟨_, .exec pooledRun (.init ⟨⟨⟨fun _ => rfl, rfl⟩, rfl⟩, fun _ => rfl⟩) hok hp⟩
  obtain ⟨-, -, -, hatRest⟩ := fifo_pooled hrun
  refine ⟨h, p, hrun, hcount, hatRest fun t => ⟨?_, (hrest t).1⟩⟩
  have hidle := (hrest t).2
  cases hpc : (p.locals t).client with
  | idle => rfl
  | enqueue | dequeue =>
    rw [hpc] at hidle
    cases hidle

end CppNetEngine.LockFreeQueue
