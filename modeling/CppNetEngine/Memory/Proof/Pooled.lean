import CppNetEngine.Memory.Pooled
import CppNetEngine.Memory.Proof.Objects

/-!
# Components get their nodes from the pool

What a component keeps to (`Lawful`): `NewObject` and `DeleteObject` are all that changes its nodes
in use, and it deletes only those. Then its runs with the pool are, for the component, runs in which
`NewObject` does not give a node that is in use (`observed`), and its nodes in use are the objects
in use of the pool, which counts them (`Joint.same`, `Joint.allocCount`).
-/

namespace CppNetEngine.TlsObjectPool

open MemoryAllocator (Block)

theorem objectAt_addressOf (object : Block) : objectAt (addressOf object) = object := by
  simp only [objectAt, addressOf, Nat.unpair_pair]

theorem objectAt_injective : Function.Injective objectAt := by
  intro p q h
  simp only [objectAt, Block.mk.injEq] at h
  rw [← Nat.pair_unpair p, ← Nat.pair_unpair q, h.1, h.2]

variable {τ M L A ω : Type} [DecidableEq τ] {c : Client M L A}
  {ok : Threads τ L M → τ → A → Prop}

/-- What the component keeps to, where the callers see to `ok`. -/
structure Client.Lawful (c : Client M L A) (ok : Threads τ L M → τ → A → Prop) : Prop where
  initial : ∀ m, c.initial m → c.allocated m = ∅
  withNode : ∀ a l pNode pNode', c.newObject a l = some pNode →
    c.newObject (c.withNode a pNode') l = some pNode'
  act_isSome : ∀ a m l pNode, c.newObject a l = some pNode → (c.act a m l).isSome
  newObject : ∀ a m l m' l' pNode, c.act a m l = some (m', l') → c.newObject a l = some pNode →
    c.allocated m' = insert pNode (c.allocated m)
  deleteObject : ∀ a m l m' l' pNode, c.act a m l = some (m', l') → c.newObject a l = none →
    c.deleteObject a l = some pNode → c.allocated m' = (c.allocated m).erase pNode
  keep : ∀ a m l m' l', c.act a m l = some (m', l') → c.newObject a l = none →
    c.deleteObject a l = none → c.allocated m' = c.allocated m
  inUse : ∀ s t a pNode, (c.machine τ).ReachableIf (Threads.Guard (c.Guard ok) fun _ _ => True) s →
    c.deleteObject a (s.locals t) = some pNode → pNode ∈ c.allocated s.shared

namespace Pooled

/-! ## Steps -/

/-- A step is one of the component, of the pool, or of both. -/
theorem act_eq {a : Action A} {m m' : Shared M} {l l' : Local L A}
    (h : act c a m l = some (m', l')) : l.ready a = true ∧
      perform c.act (performs c l a) m.client l.client = some (m'.client, l'.client) ∧
      perform TlsObjectPool.act (calls c l a) m.pool l.pool = some (m'.pool, l'.pool) ∧
      l'.newObject = waits c l a := by
  unfold act at h
  split at h
  · rename_i hready
    obtain ⟨r, hclient, h⟩ := Option.bind_eq_some_iff.1 h
    obtain ⟨q, hpool, h⟩ := Option.map_eq_some_iff.1 h
    cases h
    exact ⟨hready, hclient, hpool, rfl⟩
  · cases h

/-- **What an action does** to the nodes in use, and to who waits for one. -/
inductive Steps (c : Client M L A) (m : Shared M) (l : Local L A) :
    Action A → Shared M → Local L A → Prop
  | calls {a : A} {m' : Shared M} {l' : Local L A} : (c.newObject a l.client).isSome →
      TlsObjectPool.act .alloc m.pool l.pool = some (m'.pool, l'.pool) →
      m'.client = m.client → l'.client = l.client → l'.newObject = some a →
      Steps c m l (.client a) m' l'
  | keeps {a : A} {m' : Shared M} {l' : Local L A} : l.newObject = none →
      c.newObject a l.client = none → c.deleteObject a l.client = none →
      c.act a m.client l.client = some (m'.client, l'.client) → m'.pool = m.pool →
      l'.pool = l.pool → l'.newObject = none → Steps c m l (.client a) m' l'
  | deletes {a : A} {pNode : Nat} {m' : Shared M} {l' : Local L A} :
      c.newObject a l.client = none → c.deleteObject a l.client = some pNode →
      c.act a m.client l.client = some (m'.client, l'.client) →
      TlsObjectPool.act (.free (objectAt pNode)) m.pool l.pool = some (m'.pool, l'.pool) →
      l'.newObject = none → Steps c m l (.client a) m' l'
  | next {k : Outside} {m' : Shared M} {l' : Local L A} : l.pool.returns = none →
      TlsObjectPool.act (.next k) m.pool l.pool = some (m'.pool, l'.pool) →
      m'.client = m.client → l'.client = l.client → l'.newObject = l.newObject →
      Steps c m l (.pool k) m' l'
  | returns {k : Outside} {pData : Option Block} {m' : Shared M} {l' : Local L A} :
      l.pool.returns = some pData →
      TlsObjectPool.act (.next k) m.pool l.pool = some (m'.pool, l'.pool) →
      (∀ object a, pData = some object → l.newObject = some a →
        c.act (c.withNode a (addressOf object)) m.client l.client =
          some (m'.client, l'.client)) →
      l'.newObject = none → Steps c m l (.pool k) m' l'

theorem act_steps {a : Action A} {m m' : Shared M} {l l' : Local L A}
    (h : act c a m l = some (m', l')) : Steps c m l a m' l' := by
  obtain ⟨hready, hclient, hpool, hwaits⟩ := act_eq h
  cases a with
  | client a =>
    obtain ⟨-, hnone⟩ := Bool.and_eq_true_iff.1 hready
    cases hnew : c.newObject a l.client with
    | some pNode =>
      simp only [performs, calls, waits, hnew, perform, Option.some.injEq,
        Prod.mk.injEq] at hclient hpool hwaits
      exact .calls (by rw [hnew]; rfl) hpool hclient.1.symm hclient.2.symm hwaits
    | none =>
      simp only [performs, calls, waits, hnew, perform] at hclient hpool hwaits
      cases hdelete : c.deleteObject a l.client with
      | none =>
        simp only [hdelete, Option.map_none, Option.some.injEq, Prod.mk.injEq] at hpool
        exact .keeps (Option.isNone_iff_eq_none.1 hnone) hnew hdelete hclient hpool.1.symm
          hpool.2.symm hwaits
      | some pNode =>
        rw [hdelete] at hpool
        exact .deletes hnew hdelete hclient hpool hwaits
  | pool k =>
    cases hreturns : l.pool.returns with
    | none =>
      simp only [performs, calls, waits, hreturns, perform, Option.some.injEq,
        Prod.mk.injEq] at hclient hpool hwaits
      exact .next hreturns hpool hclient.1.symm hclient.2.symm hwaits
    | some pData =>
      simp only [calls, waits, hreturns, perform] at hpool hwaits
      refine .returns hreturns hpool (fun object a hobject hnew => ?_) hwaits
      rw [hobject] at hreturns
      rw [performs, hreturns, hnew] at hclient
      exact hclient

/-! ## The invariant -/

/-- The threads that wait for `NewObject` are those in `Alloc`. -/
structure Local.Waits (c : Client M L A) (l : Local L A) : Prop where
  inAlloc : l.newObject.isSome = l.pool.chunk.pc.inAlloc
  newObject : ∀ a, l.newObject = some a → (c.newObject a l.client).isSome

/-- **The component and its pool**, each by itself, and the nodes in use. -/
structure Joint (c : Client M L A) (ok : Threads τ L M → τ → A → Prop) (s : State τ M L A) :
    Prop where
  client : (c.machine τ).ReachableIf (Threads.Guard (c.Guard ok) fun _ _ => True) s.client
  pool : TlsObjectPool.RunsTo s.pool
  same : ∀ pNode, pNode ∈ c.allocated s.shared.client ↔
    objectAt pNode ∈ s.shared.pool.objects
  waits : ∀ t, (s.locals t).Waits c

section Runs

variable {s : State τ M L A} {t : τ} {a : Action A} {m : Shared M} {l : Local L A}

/-- The runs, of which only the callers and `mi_malloc` are asked something. -/
abbrev RunsTo (c : Client M L A) (ok : Threads τ L M → τ → A → Prop) : State τ M L A → Prop :=
  (machine c τ).ReachableIf (Threads.Guard (Guard c ok) fun _ _ => True)

theorem Joint.returns (h : Joint c ok s) {pData : Option Block}
    (hreturns : (s.locals t).pool.returns = some pData) : ∃ object b, pData = some object ∧
      (s.locals t).newObject = some b ∧ object ∉ s.shared.pool.objects := by
  obtain ⟨object, rfl, hfresh, -⟩ := h.pool.returns hreturns
  obtain ⟨-, size, hpc⟩ := returns_eq_some.1 hreturns
  have hin := (h.waits t).inAlloc
  rw [hpc] at hin
  obtain ⟨b, hb⟩ := Option.isSome_iff_exists.1 hin
  exact ⟨object, b, rfl, hb, hfresh⟩

/-- **What the component does** is what it does alone, with nodes that are not in use. -/
theorem Joint.performed (hc : c.Lawful ok) (h : Joint c ok s) (hok : Guard c ok s t a) {b : A}
    (hb : performs c (s.locals t) a = some b) : c.Guard ok s.client t b := by
  refine ⟨hok.1 b hb, fun p hp hmem => ?_⟩
  have hp : c.newObject b (s.locals t).client = some p := hp
  cases a with
  | client a =>
    simp only [performs] at hb
    split at hb
    · cases hb
    · rename_i hnone
      cases hb
      rw [hnone] at hp
      cases hp
  | pool k =>
    simp only [performs] at hb
    split at hb
    · rename_i object b' hreturns hnew
      cases hb
      obtain ⟨pNode, hnode⟩ := Option.isSome_iff_exists.1 ((h.waits t).newObject _ hnew)
      rw [hc.withNode _ _ _ _ hnode] at hp
      cases hp
      obtain ⟨_, -, hobject, -, hfresh⟩ := h.returns hreturns
      cases hobject
      have hin := (h.same _).1 hmem
      rw [objectAt_addressOf] at hin
      exact hfresh hin
    · cases hb

/-- **What the pool is asked for** is what it asks of its callers. -/
theorem Joint.called (hc : c.Lawful ok) (h : Joint c ok s) (hok : Guard c ok s t a)
    {b : TlsObjectPool.Action} (hb : calls c (s.locals t) a = some b) :
    CallsGuard s.pool t b := by
  cases a with
  | client a =>
    simp only [calls] at hb
    split at hb
    · cases hb
      trivial
    · obtain ⟨pNode, hdelete, rfl⟩ := Option.map_eq_some_iff.1 hb
      exact (h.same pNode).1 (hc.inUse _ t a pNode h.client hdelete)
  | pool k =>
    cases hb
    exact hok.2

theorem Joint.same_step (hc : c.Lawful ok) (h : Joint c ok s)
    (hact : act c a s.shared (s.locals t) = some (m, l)) (pNode : Nat) :
    pNode ∈ c.allocated m.client ↔ objectAt pNode ∈ m.pool.objects := by
  cases act_steps hact with
  | calls hnew halloc hm =>
    rw [hm, (alloc_effect halloc).1]
    exact h.same pNode
  | keeps _ hnew hdelete hdoes hm =>
    rw [hm, hc.keep _ _ _ _ _ hdoes hnew hdelete]
    exact h.same pNode
  | deletes hnew hdelete hdoes hfree =>
    rw [hc.deleteObject _ _ _ _ _ _ hdoes hnew hdelete, Finset.mem_erase, h.same,
      h.pool.mem_free hfree, objectAt_injective.ne_iff]
    exact And.comm
  | next hreturns hnext hm =>
    obtain ⟨hobjects, -⟩ := next_effect hnext
    rw [hreturns] at hobjects
    rw [hm, hobjects]
    exact h.same pNode
  | returns hreturns hnext hdoes =>
    obtain ⟨object, b, rfl, hnew, -⟩ := h.returns hreturns
    obtain ⟨p, hnode⟩ := Option.isSome_iff_exists.1 ((h.waits t).newObject b hnew)
    have hnode' := hc.withNode _ _ _ (addressOf object) hnode
    obtain ⟨hobjects, -⟩ := next_effect hnext
    rw [hreturns] at hobjects
    have hcons : m.pool.objects = object :: s.shared.pool.objects := hobjects
    rw [hc.newObject _ _ _ _ _ _ (hdoes object b rfl hnew) hnode', Finset.mem_insert, h.same,
      hcons, List.mem_cons, ← objectAt_injective.eq_iff, objectAt_addressOf]

theorem Joint.waits_step (h : Joint c ok s)
    (hact : act c a s.shared (s.locals t) = some (m, l)) : l.Waits c := by
  have hwaits := h.waits t
  cases act_steps hact with
  | calls hnew halloc _ hl hwait =>
    refine ⟨?_, fun b hb => ?_⟩
    · rw [hwait, (alloc_effect halloc).2]
      rfl
    · rw [hwait] at hb
      cases hb
      rw [hl]
      exact hnew
  | keeps hnone _ _ _ _ hl hwait =>
    refine ⟨?_, fun b hb => ?_⟩
    · rw [hwait, hl, ← hwaits.inAlloc, hnone]
    · rw [hwait] at hb
      cases hb
  | deletes _ _ _ hfree hwait =>
    refine ⟨?_, fun b hb => ?_⟩
    · rw [hwait, free_inAlloc hfree]
      rfl
    · rw [hwait] at hb
      cases hb
  | next hreturns hnext _ hl hwait =>
    obtain ⟨-, hin⟩ := next_effect hnext
    refine ⟨?_, fun b hb => ?_⟩
    · rw [hwait, hin, hwaits.inAlloc, hreturns, Option.isNone_none, Bool.and_true]
    · rw [hl]
      exact hwaits.newObject b (hwait ▸ hb)
  | returns hreturns hnext _ hwait =>
    obtain ⟨-, hin⟩ := next_effect hnext
    refine ⟨?_, fun b hb => ?_⟩
    · rw [hwait, hin, hreturns]
      exact (Bool.and_false _).symm
    · rw [hwait] at hb
      cases hb

/-- **Every step keeps the component and its pool together.** -/
theorem Joint.step (hc : c.Lawful ok) (h : Joint c ok s) (hok : Guard c ok s t a)
    (hact : act c a s.shared (s.locals t) = some (m, l)) : Joint c ok (s.set t m l) := by
  obtain ⟨-, hclient, hpool, -⟩ := act_eq hact
  refine ⟨?_, ?_, h.same_step hc hact, fun u => ?_⟩
  · rw [State.client, Threads.part_set]
    cases hb : performs c (s.locals t) a with
    | none =>
      rw [hb] at hclient
      obtain ⟨hm, hl⟩ := Prod.mk.inj (Option.some.inj hclient)
      rw [← hm, ← hl]
      exact (Threads.set_eta s.client t).symm ▸ h.client
    | some b =>
      rw [hb] at hclient
      exact Threads.reachable_act h.client (h.performed hc hok hb) hclient
  · rw [State.pool, Threads.part_set]
    cases hb : calls c (s.locals t) a with
    | none =>
      rw [hb] at hpool
      obtain ⟨hm, hl⟩ := Prod.mk.inj (Option.some.inj hpool)
      rw [← hm, ← hl]
      exact (Threads.set_eta s.pool t).symm ▸ h.pool
    | some b =>
      rw [hb] at hpool
      exact Threads.reachable_act h.pool (h.called hc hok hb) hpool
  · by_cases hu : u = t
    · rw [hu, Threads.set_self]
      exact h.waits_step hact
    · rw [Threads.set_other _ _ _ _ hu]
      exact h.waits u

/-! ## Runs -/

theorem RunsTo.joint (hc : c.Lawful ok) (h : RunsTo c ok s) : Joint c ok s := by
  refine Threads.invariant ?_ (fun s t a m l hI => hI.step hc) (fun _ e => e.elim) h
  rintro s ⟨⟨hclient, hpool⟩, hlocals⟩
  refine ⟨.init ⟨hclient, fun t => ?_⟩, .init ⟨hpool, fun t => ?_⟩, fun pNode => ?_, fun t => ?_⟩
  · rw [Threads.part_locals, hlocals t]
  · rw [Threads.part_locals, hlocals t]
  · rw [hc.initial _ hclient, hpool]
    exact ⟨fun hp => absurd hp (Finset.notMem_empty _), nofun⟩
  · rw [hlocals t]
    exact ⟨rfl, nofun⟩

/-- **For the component** a run with the pool is one in which `NewObject` does not give a node that
is in use. -/
theorem observed (hc : c.Lawful ok)
    {seen : Threads τ L M → ThreadAction τ A Empty → List ω} {w : List ω}
    (hs : (machine c τ).Observed (Threads.Guard (Guard c ok) fun _ _ => True) (see c seen) w s) :
    (c.machine τ).Observed (Threads.Guard (c.Guard ok) fun _ _ => True) seen w s.client := by
  have hpart : (c.machine τ).Observed (Threads.Guard (c.Guard ok) fun _ _ => True) seen
      (w.filterMap some) s.client := by
    refine Threads.observed_part ?_ ?_ (fun _ e => e.elim) hs
    · rintro s ⟨⟨hclient, -⟩, hlocals⟩
      exact ⟨hclient, fun t => by rw [Threads.part_locals, hlocals t]⟩
    · intro s t a m l hr hok hact
      have h := RunsTo.joint hc hr
      obtain ⟨-, hclient, -⟩ := act_eq hact
      simp only [see]
      cases hb : performs c (s.locals t) a with
      | none =>
        rw [hb] at hclient
        obtain ⟨hm, hl⟩ := Prod.mk.inj (Option.some.inj hclient)
        exact .inl ⟨hm.symm, hl.symm, rfl⟩
      | some b =>
        rw [hb] at hclient
        exact .inr ⟨b, h.performed hc hok hb, hclient, (List.filterMap_some).symm⟩
  rw [List.filterMap_some] at hpart
  exact hpart

theorem Joint.proceeds (hc : c.Lawful ok) (h : Joint c ok s)
    (hbusy : (s.locals t).pool.isIdle = false) (k : Outside) :
    (act c (.pool k) s.shared (s.locals t)).isSome := by
  obtain ⟨q, hq⟩ := Option.isSome_iff_exists.1 (h.pool.proceeds hbusy k)
  have hdoes : (perform c.act (performs c (s.locals t) (.pool k)) s.shared.client
      (s.locals t).client).isSome := by
    cases hb : performs c (s.locals t) (.pool k) with
    | none => rfl
    | some b =>
      simp only [performs] at hb
      split at hb
      · rename_i object b' hreturns hnew
        cases hb
        obtain ⟨pNode, hnode⟩ := Option.isSome_iff_exists.1 ((h.waits t).newObject _ hnew)
        exact hc.act_isSome _ _ _ _ (hc.withNode _ _ _ (addressOf object) hnode)
      · cases hb
  obtain ⟨r, hr⟩ := Option.isSome_iff_exists.1 hdoes
  have hq : perform TlsObjectPool.act (calls c (s.locals t) (.pool k)) s.shared.pool
      (s.locals t).pool = some q := hq
  have hready : (s.locals t).ready (.pool k) = true := rfl
  rw [act, hr, if_pos hready, Option.bind_some, hq]
  rfl

theorem Joint.client_isSome (h : Joint c ok s) (hidle : (s.locals t).pool.isIdle = true) {a : A}
    (hdoes : (c.act a s.shared.client (s.locals t).client).isSome) :
    (act c (.client a) s.shared (s.locals t)).isSome := by
  obtain ⟨halloc, hfree⟩ := calls_isSome (m := s.shared.pool) hidle
  have hnone : (s.locals t).newObject.isNone = true := by
    have hin := (h.waits t).inAlloc
    unfold Local.isIdle at hidle
    split at hidle
    · rename_i hpc
      rw [hpc] at hin
      rw [Option.isNone_iff_eq_none, ← Option.not_isSome_iff_eq_none, hin]
      exact Bool.false_ne_true
    · cases hidle
  have hready : (s.locals t).ready (.client a) = true := Bool.and_eq_true_iff.2 ⟨hidle, hnone⟩
  simp only [act, if_pos hready, performs, calls]
  cases hnew : c.newObject a (s.locals t).client with
  | some pNode =>
    simp only [perform, Option.bind_some, Option.isSome_map]
    exact halloc
  | none =>
    obtain ⟨r, hr⟩ := Option.isSome_iff_exists.1 hdoes
    simp only [perform, hr, Option.bind_some, Option.isSome_map]
    cases c.deleteObject a (s.locals t).client with
    | none => rfl
    | some pNode => exact hfree _

/-- **When no thread is in a call of the pool**, it counts the nodes in use. -/
theorem Joint.allocCount (h : Joint c ok s) (hrest : ∀ t, (s.locals t).pool.isIdle = true) :
    s.shared.pool.mAllocCount = (c.allocated s.shared.client).card := by
  obtain ⟨n, htotal, hn⟩ := h.pool.counted
  have hzero : n = 0 := by
    refine htotal.eq_zero fun t => ?_
    have hidle := hrest t
    rw [Threads.part_locals, Local.counted]
    unfold Local.isIdle at hidle
    split at hidle
    · rename_i hcounting hpc
      rw [hcounting, hpc]
    · cases hidle
  have hset : (c.allocated s.shared.client).map ⟨objectAt, objectAt_injective⟩ =
      s.shared.pool.objects.toFinset := by
    ext object
    rw [Finset.mem_map, List.mem_toFinset]
    constructor
    · rintro ⟨pNode, hmem, rfl⟩
      exact (h.same pNode).1 hmem
    · intro hmem
      refine ⟨addressOf object, (h.same _).2 ?_, objectAt_addressOf object⟩
      rw [objectAt_addressOf]
      exact hmem
  have hnodup : s.shared.pool.objects.Nodup := h.pool.nodup
  have hcard := congrArg Finset.card hset
  rw [Finset.card_map, List.toFinset_card_of_nodup hnodup] at hcard
  have hn : s.shared.pool.mAllocCount = s.shared.pool.objects.length + n := hn
  omega

end Runs

end Pooled

end CppNetEngine.TlsObjectPool
