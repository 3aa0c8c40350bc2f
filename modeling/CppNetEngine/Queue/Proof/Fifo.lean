import CppNetEngine.Queue.Proof.Calls

/-!
# Lock-free queues lose, duplicate and misroute nothing

In every run in which `TryEnqueue` links its nodes at the tail, what was linked to a queue is what
was taken from it, followed by what is reachable from its head, in this order; and when all calls
have returned, the values that were enqueued are those that were dequeued and those still there
(`fifo`). The condition is needed: `TryEnqueue` reads the tail without a count, and where the node
it has read was deleted and handed out again, it links its node to another queue (`not_fifo`).
-/

namespace CppNetEngine.LockFreeQueue

variable {τ κ α : Type*} [DecidableEq κ]

/-! ## What is said of a queue -/

/-- The values that `TryEnqueue` was given and returned `true` for. -/
def enqueuedTo (q : κ) (l : List (Event κ α)) : List α :=
  l.filterMap fun
    | .enqueued q' data => if q' = q then some data else none
    | _ => none

/-- The values that `TryDequeue` returned. -/
def dequeuedFrom (q : κ) (l : List (Event κ α)) : List α :=
  l.filterMap fun
    | .dequeued q' outData => if q' = q then some outData else none
    | _ => none

omit [DecidableEq κ] in
/-- The values that are reachable from `mHead`, after the dummy node. -/
def Reaches (m : Memory κ α) (q : κ) (values : List α) : Prop :=
  ∃ nodes, Linked m.pNextNode (m.queue q).mHead.pNode nodes ∧ values = nodes.tail.map m.data

omit [DecidableEq κ] in
/-- A `TryEnqueue` that has linked its value, and will return `true`. -/
def Pc.HasLinked (q : κ) (data : α) : Pc κ α → Prop
  | .enqueue q' data' step => q' = q ∧ data' = data ∧
    match step with
    | .moveTail _ | .fetchAdd => True
    | _ => False
  | _ => False

/-- What holds of a queue in a state, and of what was seen of it. -/
structure Routed (l : List (Event κ α)) (s : State τ κ α) (q : κ) : Prop where
  /-- Values are taken in the order in which they were linked, and the others are still there. -/
  order : ∃ values, Reaches s.shared q values ∧ linkedTo q l = takenFrom q l ++ values
  /-- What was returned was taken, once for each time. -/
  returned : (dequeuedFrom q l).Subperm (takenFrom q l)
  /-- What was linked is what a call returns `true` for. -/
  given : (enqueuedTo q l).Subperm (linkedTo q l) ∧ ∀ data ∈ linkedTo q l,
    data ∈ enqueuedTo q l ∨ ∃ t, (s.locals t).HasLinked q data
  /-- When all calls have returned. -/
  atRest : (∀ t, s.locals t = .idle) → ∃ values, Reaches s.shared q values ∧
    (enqueuedTo q l).Perm (dequeuedFrom q l ++ values)

/-! ## Runs -/

/-- What is seen of a step. -/
def watched (s : State τ κ α) : ThreadAction τ (Action κ α) Empty → List (Event κ α)
  | .thread t (.next _) => seen s.shared (s.locals t)
  | _ => []

variable [DecidableEq τ]

/-- The runs whose steps all meet a condition besides that of the callers, with what was seen. -/
abbrev ObservedIf (ok : State τ κ α → τ → Prop) : List (Event κ α) → State τ κ α → Prop :=
  (machine τ κ α).Observed (Threads.Guard (fun s t a => CallsGuard s t a ∧ ok s t)
    fun _ _ => True) watched

variable {l : List (Event κ α)} {s : State τ κ α} {g : κ → List Nat} {t : τ} {q : κ}
  {m : Memory κ α} {pc : Pc κ α} {k : Outside}

omit [DecidableEq τ] in
theorem Inv.init (hshared : s.shared.Initial) (hlocals : ∀ t, s.locals t = .idle) :
    Inv [] s fun _ => [] := by
  have hzero : ∀ w : Pc κ α → Nat, w .idle = 0 → Threads.Total s w 0 := by
    intro w hw
    refine .zero fun t => ?_
    rw [hlocals t]
    exact hw
  refine ⟨.init hshared.queue, fun t => ?_, fun t u n hn => ?_,
    fun q => ⟨0, 0, 0, hzero _ rfl, hzero _ rfl, hzero _ rfl, ?_, ?_⟩,
    fun q hc => ?_, fun q => rfl⟩
  · rw [hlocals t]
    exact ⟨trivial, nofun⟩
  · rw [hlocals t] at hn
    cases hn
  · rw [hshared.queue q]
    rfl
  · rw [hshared.queue q]
    exact Int.le_refl _
  · unfold Constructed at hc
    rw [hshared.queue q] at hc
    exact absurd rfl hc

theorem Inv.act (h : Inv l s g) {a : Action κ α} (hguard : CallsGuard s t a)
    (hlink : LinkGuard s t) (hs : act a s.shared (s.locals t) = some (m, pc)) :
    ∃ g', Inv (l ++ watched s (.thread t a)) (s.set t m pc) g' := by
  cases a with
  | next k =>
    change step k s.shared (s.locals t) = some (m, pc) at hs
    cases hpc : s.locals t with
    | idle =>
      rw [hpc] at hs
      cases hs
    | enqueue q data step =>
      rw [hpc] at hs
      exact h.enqueueStep hpc hguard hlink hs
    | dequeue q outData e d step =>
      rw [hpc] at hs
      exact h.dequeueStep hpc hs
  | construct q maxCount a =>
    cases hpc : s.locals t <;> rw [hpc] at hs <;> cases hs
    exact ⟨_, h.construct hpc (fun hc => hc hguard.1) hguard.2⟩
  | enqueue q data =>
    cases hpc : s.locals t <;> rw [hpc] at hs <;> cases hs
    exact ⟨g, h.goto hpc ⟨hguard, trivial⟩ (.inr rfl) (fun _ => ⟨rfl, rfl, rfl⟩)
      fun _ _ => False.elim⟩
  | dequeue q outData =>
    cases hpc : s.locals t <;> rw [hpc] at hs <;> cases hs
    exact ⟨g, h.goto hpc ⟨hguard, rfl⟩ (.inr rfl) (fun _ => ⟨rfl, rfl, rfl⟩)
      fun _ _ => False.elim⟩

/-- **The invariant holds in every run** that links nodes at tails. -/
theorem inv_of_observed (h : ObservedIf LinkGuard l s) : ∃ g, Inv l s g := by
  refine Threads.observed (I := fun l s => ∃ g, Inv l s g) ?_ ?_ ?_ h
  · exact fun s hs => ⟨_, .init hs.1 hs.2⟩
  · intro l s t a m pc hI hok hs
    obtain ⟨g, hI⟩ := hI
    exact hI.act hok.1 hok.2 hs
  · exact fun _ _ e => e.elim

/-! ## What is linked is enqueued, what is taken is dequeued -/

section Counts

variable [DecidableEq α] {m' : Memory κ α} {pc' : Pc κ α} {data : α}

/-- The thread has linked the value, and not returned. -/
def Pc.linking (q : κ) (data : α) : Pc κ α → Nat
  | .enqueue q' data' step =>
    match step with
    | .moveTail _ | .fetchAdd => if q' = q ∧ data' = data then 1 else 0
    | _ => 0
  | _ => 0

/-- The thread has taken the value, and not returned. -/
def Pc.returning (q : κ) (data : α) : Pc κ α → Nat
  | .dequeue q' outData _ _ .deleteObject => if q' = q ∧ outData = data then 1 else 0
  | _ => 0

omit [DecidableEq τ] in
theorem Pc.hasLinked_of_linking (h : 0 < pc.linking q data) : pc.HasLinked q data := by
  unfold Pc.linking at h
  split at h
  · split at h
    · split at h
      · rename_i heq
        exact ⟨heq.1, heq.2, trivial⟩
      · exact absurd h (Nat.lt_irrefl 0)
    · split at h
      · rename_i heq
        exact ⟨heq.1, heq.2, trivial⟩
      · exact absurd h (Nat.lt_irrefl 0)
    · exact absurd h (Nat.lt_irrefl 0)
  · exact absurd h (Nat.lt_irrefl 0)

/-- What becomes due with a step, and what is done. -/
def Balance (m : Memory κ α) (pc pc' : Pc κ α) (q : κ) (data : α) : Prop :=
  ((seen m pc).countP (· = .linked q data) + pc.linking q data =
    (seen m pc).countP (· = .enqueued q data) + pc'.linking q data) ∧
  ((seen m pc).countP (· = .taken q data) + pc.returning q data =
    (seen m pc).countP (· = .dequeued q data) + pc'.returning q data)

theorem enqueueStep_balance {data' : α} {step : EnqueueStep}
    (h : enqueueStep k m q data' step = some (m', pc')) {q' : κ} :
    Balance m (.enqueue q data' step) pc' q' data := by
  cases step with
  | loadCount | readTailAgain =>
    cases h
    split <;> exact ⟨rfl, rfl⟩
  | newObject | setData | setNext | readTail =>
    cases h
    exact ⟨rfl, rfl⟩
  | readNext a pNode =>
    obtain ⟨b, rfl, hnext⟩ := Option.map_eq_some_iff.1 h
    cases hnext
    exact ⟨rfl, rfl⟩
  | swap a pNode =>
    obtain ⟨b, rfl, hswap⟩ := Option.map_eq_some_iff.1 h
    unfold Balance
    by_cases hlast : m.pNextNode b = none
    · rw [if_pos hlast] at hswap
      cases hswap
      rw [seen, if_pos hlast]
      simp [Pc.linking, Pc.returning, List.countP_cons]
    · rw [if_neg hlast] at hswap
      cases hswap
      rw [seen, if_neg hlast]
      exact ⟨rfl, rfl⟩
  | retry a step | moveTail step =>
    obtain ⟨⟨m', next⟩, -, hmove⟩ := Option.map_eq_some_iff.1 h
    cases hmove
    cases next <;> exact ⟨rfl, rfl⟩
  | fetchAdd =>
    cases h
    simp [Balance, seen, Pc.linking, Pc.returning, List.countP_cons]

theorem dequeueStep_balance {outData : α} {e d : Node16} {step : DequeueStep}
    (h : dequeueStep k m q outData e d step = some (m', pc')) {q' : κ} :
    Balance m (.dequeue q outData e d step) pc' q' data := by
  cases step with
  | fetchSub | compare | compareTail | compareHead | readNode =>
    cases h
    split <;> exact ⟨rfl, rfl⟩
  | fetchAdd | readCount =>
    cases h
    exact ⟨rfl, rfl⟩
  | moveTail step =>
    obtain ⟨⟨m', next⟩, -, hmove⟩ := Option.map_eq_some_iff.1 h
    cases hmove
    cases next <;> exact ⟨rfl, rfl⟩
  | readNext =>
    obtain ⟨p, -, hnext⟩ := Option.map_eq_some_iff.1 h
    cases hnext
    split <;> exact ⟨rfl, rfl⟩
  | readData =>
    obtain ⟨p, -, hnext⟩ := Option.map_eq_some_iff.1 h
    cases hnext
    exact ⟨rfl, rfl⟩
  | swap =>
    simp only [dequeueStep] at h
    unfold Balance
    by_cases hhead : (m.queue q).mHead = e
    · rw [if_pos hhead] at h
      cases h
      rw [seen, if_pos hhead]
      simp [Pc.linking, Pc.returning, List.countP_cons]
    · rw [if_neg hhead] at h
      cases h
      rw [seen, if_neg hhead]
      exact ⟨rfl, rfl⟩
  | deleteObject =>
    cases h
    simp [Balance, seen, Pc.linking, Pc.returning, List.countP_cons]

omit [DecidableEq τ] in
theorem act_balance {a : Action κ α} (h : act a s.shared (s.locals t) = some (m, pc)) :
    ((watched s (.thread t a)).countP (· = .linked q data) + (s.locals t).linking q data =
      (watched s (.thread t a)).countP (· = .enqueued q data) + pc.linking q data) ∧
    ((watched s (.thread t a)).countP (· = .taken q data) + (s.locals t).returning q data =
      (watched s (.thread t a)).countP (· = .dequeued q data) + pc.returning q data) := by
  cases a with
  | next k =>
    change step k s.shared (s.locals t) = some (m, pc) at h
    change Balance s.shared (s.locals t) pc q data
    cases hpc : s.locals t with
    | idle =>
      rw [hpc] at h
      cases h
    | enqueue q' data' step =>
      rw [hpc] at h
      exact enqueueStep_balance h
    | dequeue q' outData e d step =>
      rw [hpc] at h
      exact dequeueStep_balance h
  | construct | enqueue | dequeue =>
    cases hpc : s.locals t <;> rw [hpc] at h <;> cases h
    exact ⟨rfl, rfl⟩

/-- How often a value occurs is how often its event does. -/
theorem count_filterMap {f : Event κ α → Option α} {event : Event κ α}
    (hf : ∀ x, f x = some data ↔ x = event) (l : List (Event κ α)) :
    (l.filterMap f).count data = l.countP (· = event) := by
  induction l with
  | nil => rfl
  | cons x l ih =>
    by_cases hx : x = event
    · rw [List.filterMap_cons_some ((hf x).2 hx), List.count_cons_self, ih, List.countP_cons]
      simp [hx]
    · rw [List.countP_cons_of_neg (by simpa using hx), ← ih]
      cases hfx : f x with
      | none => rw [List.filterMap_cons_none hfx]
      | some data' =>
        rw [List.filterMap_cons_some hfx, List.count_cons_of_ne]
        intro heq
        subst heq
        exact hx ((hf x).1 hfx)

theorem count_linkedTo : (linkedTo q l).count data = l.countP (· = .linked q data) := by
  refine count_filterMap (fun x => ?_) l
  cases x <;> simp

theorem count_enqueuedTo : (enqueuedTo q l).count data = l.countP (· = .enqueued q data) := by
  refine count_filterMap (fun x => ?_) l
  cases x <;> simp

theorem count_takenFrom : (takenFrom q l).count data = l.countP (· = .taken q data) := by
  refine count_filterMap (fun x => ?_) l
  cases x <;> simp

theorem count_dequeuedFrom : (dequeuedFrom q l).count data = l.countP (· = .dequeued q data) := by
  refine count_filterMap (fun x => ?_) l
  cases x <;> simp

/-- A value is linked as often as calls returned `true` for it, or are about to. -/
theorem linked_conserved {ok : State τ κ α → τ → Prop} (h : ObservedIf ok l s) (q : κ) (data : α) :
    ∃ n, Threads.Total s (Pc.linking q data) n ∧
      (linkedTo q l).count data = (enqueuedTo q l).count data + n := by
  rw [count_linkedTo, count_enqueuedTo]
  refine Threads.conserved (fun s hs t => ?_) (fun s t a m pc ha => (act_balance ha).1) h
  rw [hs.2 t]
  rfl

/-- A value is taken as often as calls returned it, or are about to. -/
theorem taken_conserved {ok : State τ κ α → τ → Prop} (h : ObservedIf ok l s) (q : κ) (data : α) :
    ∃ n, Threads.Total s (Pc.returning q data) n ∧
      (takenFrom q l).count data = (dequeuedFrom q l).count data + n := by
  rw [count_takenFrom, count_dequeuedFrom]
  refine Threads.conserved (fun s hs t => ?_) (fun s t a m pc ha => (act_balance ha).2) h
  rw [hs.2 t]
  rfl

end Counts

/-! ## First in, first out -/

omit [DecidableEq τ] in
theorem PcOk.step_isSome (h : PcOk m pc) (hpc : pc ≠ .idle) (k : Outside) :
    (step k m pc).isSome := by
  have hmove : ∀ (q : κ) (step : MoveStep), MoveOk m q step → (moveTail m q step).isSome := by
    intro q step hok
    cases step with
    | readNext e =>
      obtain ⟨b, hb⟩ := Option.ne_none_iff_exists'.1 hok.2
      rw [moveTail, hb]
      rfl
    | readCount | readNode | swap => rfl
  cases pc with
  | idle => exact absurd rfl hpc
  | enqueue q data step =>
    obtain ⟨-, hok⟩ := h
    cases step with
    | readNext a pNode | swap a pNode =>
      obtain ⟨b, rfl⟩ := Option.ne_none_iff_exists'.1 hok.2.2
      rfl
    | retry a step =>
      rw [LockFreeQueue.step, enqueueStep, Option.isSome_map]
      exact hmove q step hok.2.2
    | moveTail step =>
      rw [LockFreeQueue.step, enqueueStep, Option.isSome_map]
      exact hmove q step hok
    | loadCount | newObject | setData | setNext | readTail | readTailAgain | fetchAdd => rfl
  | dequeue q outData e d step =>
    obtain ⟨-, hok⟩ := h
    cases step with
    | moveTail step =>
      rw [LockFreeQueue.step, dequeueStep, Option.isSome_map]
      exact hmove q step hok.2
    | readNext =>
      obtain ⟨b, hb⟩ := Option.ne_none_iff_exists'.1 hok.2
      rw [LockFreeQueue.step, dequeueStep, hb]
      rfl
    | readData =>
      obtain ⟨b, hb⟩ := Option.ne_none_iff_exists'.1 hok.2.1
      rw [LockFreeQueue.step, dequeueStep, hb]
      rfl
    | fetchSub | fetchAdd | compare | compareTail | compareHead | readCount | readNode | swap
    | deleteObject => rfl

omit [DecidableEq τ] in
/-- What was linked to a queue and not taken is reachable from its head. -/
theorem Inv.reaches (h : Inv l s g) (q : κ) : Reaches s.shared q ((g q).tail.map s.shared.data) :=
  ⟨g q, (h.memory.queue q).linked, rfl⟩

theorem routed (h : ObservedIf LinkGuard l s) (q : κ) : Routed l s q := by
  classical
  obtain ⟨g, hg⟩ := inv_of_observed h
  refine ⟨⟨_, hg.reaches q, hg.order q⟩, ?_, ⟨?_, fun data hdata => ?_⟩, fun hidle => ?_⟩
  · refine List.subperm_ext_iff.2 fun data _ => ?_
    obtain ⟨n, -, hn⟩ := taken_conserved h q data
    omega
  · refine List.subperm_ext_iff.2 fun data _ => ?_
    obtain ⟨n, -, hn⟩ := linked_conserved h q data
    omega
  · obtain ⟨n, htotal, hn⟩ := linked_conserved h q data
    have hpos := List.count_pos_iff.2 hdata
    rcases Nat.eq_zero_or_pos n with hzero | hn'
    · exact .inl (List.count_pos_iff.1 (by omega))
    · obtain ⟨t, ht⟩ := htotal.exists_pos hn'
      exact .inr ⟨t, Pc.hasLinked_of_linking ht⟩
  · refine ⟨_, hg.reaches q, List.perm_iff_count.2 fun data => ?_⟩
    obtain ⟨n₁, htotal₁, hn₁⟩ := linked_conserved h q data
    obtain ⟨n₂, htotal₂, hn₂⟩ := taken_conserved h q data
    have hzero₁ := htotal₁.eq_zero fun t => by rw [hidle t]; rfl
    have hzero₂ := htotal₂.eq_zero fun t => by rw [hidle t]; rfl
    have horder := congrArg (List.count data) (hg.order q)
    rw [List.count_append] at horder ⊢
    omega

/-- **Queues lose, duplicate and misroute nothing** in the runs in which every compare-and-swap of
`TryEnqueue` that succeeds is on the node at the tail; and no call follows a null pointer. -/
theorem fifo (h : ObservedIf LinkGuard l s) : (∀ q, Routed l s q) ∧
    ∀ t k, s.locals t ≠ .idle → (step k s.shared (s.locals t)).isSome := by
  refine ⟨routed h, fun t k hidle => ?_⟩
  obtain ⟨g, hg⟩ := inv_of_observed h
  exact (hg.thread t).ok.step_isSome hidle k

/-! ## Two queues -/

/-- Two queues that are constructed, and the memory before. -/
def twoQueues : State Bool Bool Nat :=
  ⟨⟨fun _ => ⟨0, 0, ⟨none, 0⟩, ⟨none, 0⟩⟩, fun _ => 0, fun _ => none, ∅⟩, fun _ => .idle⟩

/-- A thread takes steps; `NewObject` gives it the node at the address. -/
def steps (t : Bool) (n address : Nat) : List (ThreadAction Bool (Action Bool Nat) Empty) :=
  List.replicate n (.thread t (.next ⟨address, false⟩))

/-- Two threads enqueue to a queue, one of them in between the steps of the other, and one value is
dequeued. -/
theorem fifo_two : ∃ (l : List (Event Bool Nat)) (s : State Bool Bool Nat),
    enqueuedTo false l = [7, 8] ∧ dequeuedFrom false l = [7] ∧ ∀ q, Routed l s q := by
  let run := [.thread false (.construct false 10 0), .thread false (.construct true 10 1),
      .thread false (.enqueue false 8)] ++ steps false 7 2 ++
    .thread true (.enqueue false 7) :: steps true 13 3 ++ steps false 13 0 ++
    .thread true (.dequeue false 0) :: steps true 9 0
  have hguard : (machine Bool Bool Nat).Allowed
      (Threads.Guard (fun s t a => CallsGuard s t a ∧ LinkGuard s t) fun _ _ => True) twoQueues
      run := by
    decide +kernel
  have hrun : ObservedIf LinkGuard _ _ :=
    Machine.Observed.exec run (.init (s := twoQueues) ⟨⟨fun _ => rfl, rfl⟩, fun _ => rfl⟩)
      hguard rfl
  exact ⟨_, _, rfl, rfl, (fifo hrun).1⟩

/-- A thread has read the tail of the first queue. The node is dequeued, deleted, and handed out
again for the second queue; then the thread links its own node to it. -/
def staleTail : List (ThreadAction Bool (Action Bool Nat) Empty) :=
  [.thread false (.construct false 10 0), .thread false (.construct true 10 1),
    .thread false (.enqueue false 8)] ++ steps false 7 2 ++
  .thread true (.enqueue false 7) :: steps true 13 3 ++
  .thread true (.dequeue false 0) :: steps true 9 0 ++
  .thread true (.enqueue true 9) :: steps true 13 0 ++ steps false 5 0 ++
  .thread true (.enqueue true 10) :: steps true 20 4 ++
  .thread true (.dequeue true 0) :: steps true 9 0 ++
  .thread true (.dequeue true 0) :: steps true 9 0

/-- The value 8 is enqueued to the first queue, from which it cannot be reached, and dequeued from
the second. -/
theorem not_fifo : ∃ (l : List (Event Bool Nat)) (s : State Bool Bool Nat),
    ObservedIf (fun _ _ => True) l s ∧ (∀ t, s.locals t = .idle) ∧
      enqueuedTo false l = [7, 8] ∧ dequeuedFrom false l = [7] ∧
      enqueuedTo true l = [9, 10] ∧ dequeuedFrom true l = [9, 8] ∧
      ¬ Routed l s false ∧ ¬ Routed l s true := by
  have hguard : (machine Bool Bool Nat).Allowed
      (Threads.Guard (fun s t a => CallsGuard s t a ∧ True) fun _ _ => True) twoQueues
      staleTail := by
    decide +kernel
  have hrun : ObservedIf (fun _ _ => True) _ _ :=
    Machine.Observed.exec staleTail (.init (s := twoQueues) ⟨⟨fun _ => rfl, rfl⟩, fun _ => rfl⟩)
      hguard rfl
  refine ⟨_, _, hrun, Bool.forall_bool.2 ⟨rfl, rfl⟩, rfl, rfl, rfl, rfl, fun h => ?_, fun h => ?_⟩
  · obtain ⟨values, ⟨nodes, hnodes, rfl⟩, hperm⟩ := h.atRest (Bool.forall_bool.2 ⟨rfl, rfl⟩)
    cases hnodes.unique (.cons (a := 3) .nil)
    exact absurd hperm.length_eq (by decide)
  · obtain ⟨values, -, hperm⟩ := h.atRest (Bool.forall_bool.2 ⟨rfl, rfl⟩)
    have hmem : 8 ∈ [9, 10] := hperm.mem_iff.2 (List.mem_append_left _ (by decide))
    exact absurd hmem (by decide)

end CppNetEngine.LockFreeQueue
