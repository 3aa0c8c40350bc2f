import CppNetEngine.Memory.Proof.Pooled
import CppNetEngine.Stack.Proof.Progress

/-!
# A lock-free stack with its object pool

`LockFreeStack` over the `TlsObjectPool` of its nodes. That `NewObject` gives nodes that are not in
use need not be supposed then: the stack deletes only nodes that it has (`lawful`), so the pool
gives them to nobody else. As the nodes in use are those that are linked and those that threads have
(`NodesKept`), no node is lost, and the pool counts as many as the stack (`lifo_pooled`).
-/

namespace CppNetEngine.LockFreeStack

open TopNode AtomicObject
open TlsObjectPool (Client)

variable {τ α : Type}

/-- A stack, as it uses the pool. -/
def client (α : Type) : Client (Memory α) (Pc α) (Action α) where
  act := act
  initial := Memory.Initial
  idle := .idle
  newObject
    | .next k, .tryPush _ .newObject => some k.address
    | _, _ => none
  withNode
    | .next k, pNode => .next { k with address := pNode }
    | a, _ => a
  deleteObject
    | .next _, .tryPop _ (.deleteObject pNode) => some pNode
    | _, _ => none
  allocated := Memory.allocated

/-- Callers may push and pop as they like. -/
abbrev AnyCalls (τ α : Type) (_ : State τ α) (_ : τ) (_ : Action α) : Prop := True

theorem newObject_cases {a : Action α} {pc : Pc α} {pNode : Nat}
    (h : (client α).newObject a pc = some pNode) :
    ∃ k data, a = .next k ∧ k.address = pNode ∧ pc = .tryPush data .newObject := by
  cases a with
  | next k =>
    cases pc with
    | tryPush data step =>
      cases step with
      | newObject => exact ⟨k, data, rfl, Option.some.inj h, rfl⟩
      | _ => cases h
    | idle | tryPop => cases h
  | tryPush | tryPop => cases h

theorem deleteObject_cases {a : Action α} {pc : Pc α} {pNode : Nat}
    (h : (client α).deleteObject a pc = some pNode) :
    ∃ k outData, a = .next k ∧ pc = .tryPop outData (.deleteObject pNode) := by
  cases a with
  | next k =>
    cases pc with
    | tryPop outData step =>
      cases step with
      | deleteObject p =>
        cases h
        exact ⟨k, outData, rfl, rfl⟩
      | _ => cases h
    | idle | tryPush => cases h
  | tryPush | tryPop => cases h

theorem callsGuard_of {s : State τ α} {t : τ} {a : Action α}
    (h : (client α).Guard (AnyCalls τ α) s t a) : CallsGuard s t a := by
  cases a with
  | next k =>
    intro hnew
    refine h.2 k.address ?_
    cases hpc : s.locals t with
    | tryPush data step =>
      rw [hpc] at hnew
      cases step with
      | newObject => rfl
      | loadCount | setData | push | fetchAdd => cases hnew
    | idle | tryPop =>
      rw [hpc] at hnew
      cases hnew
  | tryPush | tryPop => trivial

/-! ## Nodes in use -/

/-- Every node in use is linked, or a thread has it. -/
def NodesKept (s : State τ α) (l : List Nat) : Prop :=
  ∀ p ∈ s.shared.allocated, p ∈ l ∨ ∃ t, users.holds (s.locals t) = some p

variable [DecidableEq τ] {s : State τ α} {t : τ} {m : Memory α} {pc : Pc α} {k : Outside}
  {pops pops' : Nat} {l l' : List Nat}

theorem NodesKept.set (hkept : NodesKept s l)
    (halloc : ∀ p ∈ m.allocated, p ∈ s.shared.allocated ∨ users.holds pc = some p)
    (hlinked : ∀ p ∈ l, p ∈ l' ∨ users.holds pc = some p)
    (hmine : ∀ p ∈ m.allocated, users.holds (s.locals t) = some p →
      p ∈ l' ∨ users.holds pc = some p) : NodesKept (s.set t m pc) l' := by
  have hnow : ∀ {p}, p ∈ l' ∨ users.holds pc = some p →
      p ∈ l' ∨ ∃ u, users.holds ((s.set t m pc).locals u) = some p := by
    intro p hp
    refine hp.imp_right fun hhold => ⟨t, ?_⟩
    rw [Threads.set_self]
    exact hhold
  intro p hp
  rcases halloc p hp with hold | hnew
  · rcases hkept p hold with hin | ⟨u, hu⟩
    · exact hnow (hlinked p hin)
    · by_cases hut : u = t
      · rw [hut] at hu
        exact hnow (hmine p hp hu)
      · refine .inr ⟨u, ?_⟩
        rw [Threads.set_other _ _ _ _ hut]
        exact hu
  · exact hnow (.inr hnew)

theorem NodesKept.same (hkept : NodesKept s l) (h : users.Inv s pops l)
    (h' : users.Inv (s.set t m pc) pops' l') (hlinks : m.links = s.shared.links)
    (halloc : ∀ p ∈ m.allocated, p ∈ s.shared.allocated ∨ users.holds pc = some p)
    (hmine : ∀ p ∈ m.allocated, users.holds (s.locals t) = some p → users.holds pc = some p) :
    NodesKept (s.set t m pc) l' := by
  have hlinked : Linked m.links.pNextNode m.links.top.pNode l' := h'.links.linked
  rw [hlinks] at hlinked
  obtain rfl : l' = l := hlinked.unique h.links.linked
  exact hkept.set halloc (fun p => .inl) fun p hp hhold => .inr (hmine p hp hhold)

theorem tryPushStep_nodesKept (h : users.Inv s pops l) (hkept : NodesKept s l) {data : α}
    {step : TryPushStep} (hpc : s.locals t = .tryPush data step)
    (h' : users.Inv (s.set t (tryPushStep k s.shared data step).1
      (tryPushStep k s.shared data step).2) pops' l') :
    NodesKept (s.set t (tryPushStep k s.shared data step).1
      (tryPushStep k s.shared data step).2) l' := by
  cases step with
  | setData =>
    refine hkept.same h h' rfl (fun p => .inl) fun p _ hhold => ?_
    rw [hpc] at hhold
    exact hhold
  | loadCount | fetchAdd =>
    refine hkept.same h h' rfl (fun p => .inl) fun p _ hhold => ?_
    rw [hpc] at hhold
    cases hhold
  | newObject =>
    refine hkept.same h h' rfl (fun p hp => ?_) fun p _ hhold => ?_
    · rcases Finset.mem_insert.1 hp with rfl | hp
      · exact .inr rfl
      · exact .inl hp
    · rw [hpc] at hhold
      cases hhold
  | push p step =>
    have hmine : users.holds (s.locals t) = some p := by rw [hpc]; rfl
    have hpush : PushOk s.shared.links p step :=
      h.pushing t p step hmine (by rw [hpc]; rfl)
    simp only [tryPushStep] at h' ⊢
    cases hs : pushStep k.spurious s.shared.links p step with
    | mk links r =>
      rw [hs] at h'
      obtain ⟨step', rfl, -, hlinks, -⟩ | ⟨rfl, -, hlinks⟩ :=
        pushStep_cases hs h.links (h.holds t p hmine).2 hpush
      · obtain rfl : l' = l := h'.links.linked.unique hlinks.linked
        refine hkept.set (fun p => .inl) (fun p => .inl) fun p' _ hhold => .inr ?_
        rw [hmine] at hhold
        exact hhold
      · obtain rfl : l' = p :: l := h'.links.linked.unique hlinks.linked
        refine hkept.set (fun p => .inl) (fun p' hp => .inl (List.mem_cons_of_mem _ hp))
          fun p' _ hhold => .inl ?_
        rw [hmine] at hhold
        cases hhold
        exact List.mem_cons_self

theorem tryPopStep_nodesKept (h : users.Inv s pops l) (hkept : NodesKept s l) {outData : α}
    {step : TryPopStep} (hpc : s.locals t = .tryPop outData step)
    (hs : tryPopStep k s.shared outData step = some (m, pc))
    (h' : users.Inv (s.set t m pc) pops' l') : NodesKept (s.set t m pc) l' := by
  cases step with
  | fetchSub | fetchAdd =>
    cases hs
    refine hkept.same h h' rfl (fun p => .inl) fun p _ hhold => ?_
    rw [hpc] at hhold
    cases hhold
  | pop step =>
    obtain ⟨⟨links, r⟩, hpop, heq⟩ := Option.map_eq_some_iff.1 hs
    cases heq
    have hstep : users.popping (s.locals t) = some step := by rw [hpc]; rfl
    have hpos : 0 < l.length := h.count.pos (t := t) (by rw [hpc]; exact Nat.one_pos)
    have hnone : ∀ p, users.holds (s.locals t) ≠ some p := by
      intro p hhold
      rw [hpc] at hhold
      cases hhold
    obtain ⟨rfl, step', rfl, -⟩ | ⟨p, rest, rfl, rfl, -, hlinks⟩ :=
      popStep_cases hpop h.links (h.popping t step hstep) hpos fun _ _ heq => heq
    · exact hkept.same h h' rfl (fun p => .inl) fun p _ hhold => absurd hhold (hnone p)
    · obtain rfl : l' = rest := h'.links.linked.unique hlinks.linked
      refine hkept.set (fun p => .inl) (fun p' hp => ?_) fun p' _ hhold => absurd hhold (hnone p')
      rcases List.mem_cons.1 hp with rfl | hp
      · exact .inr rfl
      · exact .inl hp
  | readData p =>
    cases hs
    refine hkept.same h h' rfl (fun p => .inl) fun p _ hhold => ?_
    rw [hpc] at hhold
    exact hhold
  | deleteObject p =>
    cases hs
    refine hkept.same h h' rfl (fun p' hp => .inl (Finset.mem_of_mem_erase hp))
      fun p' hp hhold => ?_
    rw [hpc] at hhold
    cases hhold
    exact absurd hp (Finset.notMem_erase _ _)

/-- **No step loses a node.** -/
theorem act_nodesKept (h : users.Inv s pops l) (hkept : NodesKept s l) {a : Action α}
    (hs : act a s.shared (s.locals t) = some (m, pc)) (h' : users.Inv (s.set t m pc) pops' l') :
    NodesKept (s.set t m pc) l' := by
  cases a with
  | next k =>
    change step k s.shared (s.locals t) = some (m, pc) at hs
    cases hpc : s.locals t with
    | idle =>
      rw [hpc] at hs
      cases hs
    | tryPush data step =>
      rw [hpc] at hs
      obtain ⟨hm, hl⟩ := Prod.mk.inj (Option.some.inj hs)
      rw [← hm, ← hl] at h' ⊢
      exact tryPushStep_nodesKept h hkept hpc h'
    | tryPop outData step =>
      rw [hpc] at hs
      exact tryPopStep_nodesKept h hkept hpc hs h'
  | tryPush | tryPop =>
    cases hpc : s.locals t <;> rw [hpc] at hs <;> cases hs
    refine hkept.same h h' rfl (fun p => .inl) fun p _ hhold => ?_
    rw [hpc] at hhold
    cases hhold

theorem nodesKept (h : (machine τ α).ReachableIf (Threads.Guard CallsGuard fun _ _ => True) s) :
    ∃ pops l, users.Inv s pops l ∧ NodesKept s l := by
  refine Threads.invariant (I := fun s => ∃ pops l, users.Inv s pops l ∧ NodesKept s l) ?_ ?_
    (fun _ e => e.elim) h
  · rintro s ⟨hshared, hlocals⟩
    refine ⟨0, [], inv_init hshared hlocals, fun p hp => ?_⟩
    rw [hshared.allocated] at hp
    exact absurd hp (Finset.notMem_empty p)
  · rintro s t a m pc ⟨pops, l, hinv, hkept⟩ hguard hs
    obtain ⟨pops', l', hinv', -⟩ := act_moved hinv hguard hs
    exact ⟨pops', l', hinv', act_nodesKept hinv hkept hs hinv'⟩

omit [DecidableEq τ] in
theorem guard_of {s : State τ α} {a : ThreadAction τ (Action α) Empty}
    (h : Threads.Guard ((client α).Guard (AnyCalls τ α)) (fun _ _ => True) s a) :
    Threads.Guard CallsGuard (fun _ _ => True) s a := by
  cases a with
  | thread t a => exact callsGuard_of h
  | env e => exact e.elim

/-! ## The stack and its pool -/

/-- **A stack deletes only nodes that it has.** -/
theorem lawful : (client α).Lawful (AnyCalls τ α) where
  initial _ h := h.allocated
  withNode a pc pNode pNode' h := by
    obtain ⟨k, data, rfl, -, rfl⟩ := newObject_cases h
    rfl
  act_isSome a m pc pNode h := by
    obtain ⟨k, data, rfl, -, rfl⟩ := newObject_cases h
    rfl
  newObject a m pc m' pc' pNode hs h := by
    obtain ⟨k, data, rfl, rfl, rfl⟩ := newObject_cases h
    cases hs
    rfl
  deleteObject a m pc m' pc' pNode hs _ h := by
    obtain ⟨k, outData, rfl, rfl⟩ := deleteObject_cases h
    cases hs
    rfl
  keep a m pc m' pc' hs hnew hdelete := by
    cases a with
    | next k =>
      change step k m pc = some (m', pc') at hs
      cases pc with
      | idle => cases hs
      | tryPush data step =>
        obtain ⟨rfl, -⟩ := Prod.mk.inj (Option.some.inj hs)
        cases step with
        | newObject => cases hnew
        | loadCount | setData | push | fetchAdd => rfl
      | tryPop outData step =>
        cases step with
        | deleteObject => cases hdelete
        | pop step =>
          obtain ⟨r, -, heq⟩ := Option.map_eq_some_iff.1 hs
          cases heq
          rfl
        | fetchSub | fetchAdd | readData =>
          cases hs
          rfl
    | tryPush | tryPop =>
      cases pc <;> cases hs
      rfl
  inUse s t a pNode h hdelete := by
    obtain ⟨pops, l, hinv, -⟩ := nodesKept (h.mono fun _ _ => guard_of)
    obtain ⟨k, outData, -, hpc⟩ := deleteObject_cases hdelete
    refine (hinv.holds t pNode ?_).1
    rw [hpc]
    rfl

/-- The runs of a stack with its pool, with the calls and returns. Nothing is said of what
`NewObject` gives. -/
abbrev PooledObserved : List (CallEvent τ (Call α) (Return α)) →
    TlsObjectPool.Pooled.State τ (Memory α) (Pc α) (Action α) → Prop :=
  (TlsObjectPool.Pooled.machine (client α) τ).Observed
    (Threads.Guard (TlsObjectPool.Pooled.Guard (client α) (AnyCalls τ α)) fun _ _ => True)
    (TlsObjectPool.Pooled.see (client α) seen)

variable {h : List (CallEvent τ (Call α) (Return α))}
  {p : TlsObjectPool.Pooled.State τ (Memory α) (Pc α) (Action α)}

/-- **A stack with its pool is a stack**, whatever memory the pool takes: its calls are those of the
atomic stack (whose `TryPop` may answer `false` for as many values as other calls are in progress),
a thread in a call can always go on, and when all calls have returned the pool counts one object for
each value. -/
theorem lifo_pooled (hp : PooledObserved h p) :
    (∃ e o nodes,
      Moves Answered (fresh τ (Call α) (Return α) ⟨p.shared.client.mMaxCount, []⟩) h e o ∧
      Linked p.shared.client.links.pNextNode p.shared.client.links.top.pNode nodes ∧
      o.shared = ⟨p.shared.client.mMaxCount, nodes.map p.shared.client.data⟩) ∧
    (∀ t k, (p.locals t).pool.isIdle = false →
      (TlsObjectPool.Pooled.act (client α) (.pool k) p.shared (p.locals t)).isSome) ∧
    (∀ t k, (p.locals t).pool.isIdle = true → (p.locals t).client ≠ .idle →
      (TlsObjectPool.Pooled.act (client α) (.client (.next k)) p.shared (p.locals t)).isSome) ∧
    (TlsObjectPool.Pooled.AtRest (client α) p →
      p.shared.pool.mAllocCount = p.shared.client.mCount) := by
  have hjoint := TlsObjectPool.Pooled.RunsTo.joint lawful hp.reachableIf
  have hclient : Observed h p.client :=
    (TlsObjectPool.Pooled.observed lawful hp).mono fun _ _ => guard_of
  obtain ⟨pops, l, hinv, hkept⟩ := nodesKept hclient.reachableIf
  obtain ⟨e, nodes, ⟨⟨pops', hinv'⟩, -⟩, hmoves⟩ := followed hclient
  refine ⟨⟨e, _, nodes, hmoves, hinv'.links.linked, rfl⟩,
    fun t k hbusy => hjoint.proceeds lawful hbusy k,
    fun t k hidle hbusy => hjoint.client_isSome hidle (step_isSome hinv hbusy k), fun hrest => ?_⟩
  have hcount : p.shared.client.mCount = l.length := by
    refine hinv.count.atRest fun t => ?_
    rw [Threads.part_locals, (hrest t).1]
    exact ⟨rfl, rfl, rfl⟩
  have hset : p.shared.client.allocated = l.toFinset := by
    ext pNode
    rw [List.mem_toFinset]
    refine ⟨fun hmem => ?_, hinv.allocated pNode⟩
    rcases hkept pNode hmem with hin | ⟨t, ht⟩
    · exact hin
    · rw [Threads.part_locals, (hrest t).1] at ht
      cases ht
  rw [hjoint.allocCount fun t => (hrest t).2, hcount]
  change (p.shared.client.allocated.card : Int) = _
  rw [hset, List.toFinset_card_of_nodup hinv.links.nodup]

/-- An empty stack for one value, and a pool without chunks. -/
def pooledOneValue : TlsObjectPool.Pooled.State Bool (Memory Nat) (Pc Nat) (Action Nat) :=
  ⟨⟨oneValue.shared, TlsObjectPool.initial⟩, fun _ => ⟨.idle, .new, none⟩⟩

/-- A thread takes steps on the stack, and then in the pool, of which it has a chunk of its own. -/
def pooledSteps (t : Bool) (n n' : Nat) :
    List (ThreadAction Bool (TlsObjectPool.Pooled.Action (Action Nat)) Empty) :=
  List.replicate n (.thread t (.client (.next ⟨false, 0⟩))) ++
    List.replicate n' (.thread t (.pool ⟨false, t.toNat⟩))

/-- A value is pushed, popped by the other thread, which frees the node, and another is pushed. -/
def pooledRun : List (ThreadAction Bool (TlsObjectPool.Pooled.Action (Action Nat)) Empty) :=
  .thread false (.client (.tryPush 7)) :: pooledSteps false 2 7 ++ pooledSteps false 5 0 ++
    .thread true (.client (.tryPop 0)) :: pooledSteps true 7 2 ++
    .thread true (.client (.tryPush 8)) :: pooledSteps true 2 7 ++ pooledSteps true 5 0

/-- All calls have returned, and there is one value. -/
theorem lifo_pooled_reused : ∃ (h : List (CallEvent Bool (Call Nat) (Return Nat)))
    (p : TlsObjectPool.Pooled.State Bool (Memory Nat) (Pc Nat) (Action Nat)), PooledObserved h p ∧
      p.shared.client.mCount = 1 ∧ p.shared.pool.mAllocCount = 1 := by
  have hok : (TlsObjectPool.Pooled.machine (client Nat) Bool).Allowed
      (Threads.Guard (TlsObjectPool.Pooled.Guard (client Nat) (AnyCalls Bool Nat))
        fun _ _ => True) pooledOneValue pooledRun := by
    decide +kernel
  obtain ⟨p, hp, hafter⟩ := (Option.any_eq_true
    (fun p : TlsObjectPool.Pooled.State Bool (Memory Nat) (Pc Nat) (Action Nat) =>
      decide (p.shared.client.mCount = 1 ∧ ∀ t, (p.locals t).pool.isIdle = true ∧
        (act (.tryPop 0) p.shared.client (p.locals t).client).isSome = true))
    ((TlsObjectPool.Pooled.machine (client Nat) Bool).exec pooledOneValue pooledRun)).1
      (by decide +kernel)
  obtain ⟨hcount, hrest⟩ := of_decide_eq_true hafter
  obtain ⟨h, hrun⟩ : ∃ h, PooledObserved h p :=
    ⟨_, .exec pooledRun (.init ⟨⟨⟨rfl, rfl, rfl⟩, rfl⟩, fun _ => rfl⟩) hok hp⟩
  obtain ⟨-, -, -, hatRest⟩ := lifo_pooled hrun
  refine ⟨h, p, hrun, hcount, (hatRest fun t => ⟨?_, (hrest t).1⟩).trans hcount⟩
  have hidle := (hrest t).2
  cases hpc : (p.locals t).client with
  | idle => rfl
  | tryPush | tryPop =>
    rw [hpc] at hidle
    cases hidle

end CppNetEngine.LockFreeStack
