import CppNetEngine.Queue.Content
import CppNetEngine.Queue.Proof.Bound

/-!
# When an empty answer is honest

`TryDequeue` returns `false` where it finds a count that is not positive. The count is what the queue
contains less what calls in progress have subtracted or have still to add, so a queue with completely
enqueued elements can have such a count. Where it is settled no such element is there
(`settled_iff`), and every answer of a run in which it is settled whenever `TryDequeue` relies on it
is honest (`honest_of_settled`). Two calls that find a queue empty, one after the other, and a
`TryEnqueue` in between are enough for an answer that is not (`not_honest`).
-/

namespace CppNetEngine.LockFreeQueue

variable {τ κ α : Type*} [DecidableEq κ]

/-! ## What is pending -/

section Pending

variable {m m' : Memory κ α} {pc pc' : Pc κ α} {k : Outside}

theorem Pc.pending_le {q : κ} : pc.pending q ≤ 1 := by
  unfold Pc.pending
  split
  · split
    · split <;> decide
    · split <;> decide
    · decide
  · decide

/-- What a step of a call does to what is pending, and to the queues: it links a node, and has to
count it; it counts the node; or it does neither, and takes a node at most. -/
inductive Does (pc pc' : Pc κ α) : List (Event κ α) → Prop
  | links {q : κ} {data : α} (before : ∀ q', pc.pending q' = 0)
      (after : ∀ q', pc'.pending q' = if q = q' then 1 else 0) : Does pc pc' [.linked q data]
  | counts {q : κ} {data : α} (before : ∀ q', pc.pending q' = if q = q' then 1 else 0)
      (after : ∀ q', pc'.pending q' = 0) : Does pc pc' [.enqueued q data]
  | takes {q : κ} {data : α} (same : ∀ q', pc'.pending q' = pc.pending q') :
      Does pc pc' [.taken q data]
  | returns {q : κ} {data : α} (same : ∀ q', pc'.pending q' = pc.pending q') :
      Does pc pc' [.dequeued q data]
  | nothing (same : ∀ q', pc'.pending q' = pc.pending q') : Does pc pc' []

theorem enqueueStep_does {q : κ} {data : α} {step : EnqueueStep}
    (h : enqueueStep k m q data step = some (m', pc')) :
    Does (.enqueue q data step) pc' (seen m (.enqueue q data step)) := by
  cases step with
  | loadCount | readTailAgain =>
    cases h
    split <;> exact .nothing fun _ => rfl
  | newObject | setData | setNext | readTail =>
    cases h
    exact .nothing fun _ => rfl
  | readNext a pNode =>
    obtain ⟨b, rfl, hnext⟩ := Option.map_eq_some_iff.1 h
    cases hnext
    exact .nothing fun _ => rfl
  | swap a pNode =>
    obtain ⟨b, rfl, hswap⟩ := Option.map_eq_some_iff.1 h
    by_cases hlast : m.pNextNode b = none
    · rw [if_pos hlast] at hswap
      cases hswap
      rw [seen, if_pos hlast]
      exact .links (fun _ => rfl) fun _ => rfl
    · rw [if_neg hlast] at hswap
      cases hswap
      rw [seen, if_neg hlast]
      exact .nothing fun _ => rfl
  | retry a step | moveTail step =>
    obtain ⟨⟨m', next⟩, -, hmove⟩ := Option.map_eq_some_iff.1 h
    cases hmove
    cases next <;> exact .nothing fun _ => rfl
  | fetchAdd =>
    cases h
    exact .counts (fun _ => rfl) fun _ => rfl

theorem dequeueStep_does {q : κ} {outData : α} {e d : Node16} {step : DequeueStep}
    (h : dequeueStep k m q outData e d step = some (m', pc')) :
    Does (.dequeue q outData e d step) pc' (seen m (.dequeue q outData e d step)) := by
  cases step with
  | fetchSub | compare | compareTail | compareHead | readNode =>
    cases h
    split <;> exact .nothing fun _ => rfl
  | fetchAdd | readCount =>
    cases h
    exact .nothing fun _ => rfl
  | moveTail step =>
    obtain ⟨⟨m', next⟩, -, hmove⟩ := Option.map_eq_some_iff.1 h
    cases hmove
    cases next <;> exact .nothing fun _ => rfl
  | readNext =>
    obtain ⟨p, -, hnext⟩ := Option.map_eq_some_iff.1 h
    cases hnext
    split <;> exact .nothing fun _ => rfl
  | readData =>
    obtain ⟨p, -, hnext⟩ := Option.map_eq_some_iff.1 h
    cases hnext
    exact .nothing fun _ => rfl
  | swap =>
    simp only [dequeueStep] at h
    by_cases hhead : (m.queue q).mHead = e
    · rw [if_pos hhead] at h
      cases h
      rw [seen, if_pos hhead]
      exact .takes fun _ => rfl
    · rw [if_neg hhead] at h
      cases h
      rw [seen, if_neg hhead]
      exact .nothing fun _ => rfl
  | deleteObject =>
    cases h
    exact .returns fun _ => rfl

/-- Only `TryDequeue` that finds a count that is not positive is about to return `false`. -/
theorem act_refuses {a : Action κ α} {q : κ} (h : act a m pc = some (m', pc'))
    (hq : pc'.refuses = some q) : (∃ k, a = .next k) ∧ pc.subtracts = some q ∧
      (m.queue q).mCount ≤ 0 ∧ seenOf a m pc = [] := by
  cases a with
  | next k =>
    change step k m pc = some (m', pc') at h
    cases pc with
    | idle => cases h
    | enqueue q' data step =>
      exfalso
      cases step with
      | loadCount =>
        cases h
        split at hq <;> cases hq
      | newObject | setData | setNext | readTail | readTailAgain | fetchAdd =>
        cases h
        cases hq
      | readNext a pNode =>
        obtain ⟨b, -, heq⟩ := Option.map_eq_some_iff.1 h
        cases heq
        cases hq
      | swap a pNode =>
        obtain ⟨b, -, heq⟩ := Option.map_eq_some_iff.1 h
        split at heq <;> cases heq <;> cases hq
      | retry a step | moveTail step =>
        obtain ⟨⟨m', next⟩, -, heq⟩ := Option.map_eq_some_iff.1 h
        cases heq
        cases hq
    | dequeue q' outData e d step =>
      cases step with
      | fetchSub =>
        cases h
        split at hq <;> rename_i hn
        · cases hq
          exact ⟨⟨k, rfl⟩, rfl, hn, rfl⟩
        · cases hq
      | fetchAdd | readCount | deleteObject =>
        cases h
        cases hq
      | compare | compareTail | compareHead | readNode =>
        cases h
        split at hq <;> cases hq
      | moveTail step =>
        obtain ⟨⟨m', next⟩, -, heq⟩ := Option.map_eq_some_iff.1 h
        cases heq
        cases next <;> cases hq
      | readNext =>
        obtain ⟨b, -, heq⟩ := Option.map_eq_some_iff.1 h
        cases heq
        split at hq <;> cases hq
      | readData =>
        obtain ⟨b, -, heq⟩ := Option.map_eq_some_iff.1 h
        cases heq
        cases hq
      | swap =>
        simp only [step, dequeueStep] at h
        split at h <;> cases h <;> cases hq
  | construct | enqueue | dequeue =>
    cases pc <;> cases h
    cases hq

theorem act_does {a : Action κ α} (h : act a m pc = some (m', pc')) :
    Does pc pc' (seenOf a m pc) := by
  cases a with
  | next k =>
    change step k m pc = some (m', pc') at h
    change Does pc pc' (seen m pc)
    cases pc with
    | idle => cases h
    | enqueue q data step => exact enqueueStep_does h
    | dequeue q outData e d step => exact dequeueStep_does h
  | construct | enqueue | dequeue =>
    cases pc <;> cases h
    exact .nothing fun _ => rfl

end Pending

/-! ## The record -/

variable [DecidableEq τ] {s : RecordedState τ κ α} {g g' : κ → List Nat} {l : List (Event κ α)}
  {t : τ} {content : κ → List (Option τ)}

/-- What is recorded: as many elements as there are nodes, and for a `TryEnqueue` in progress the one
that it has linked. -/
structure ContentOk (content : κ → List (Option τ)) (locals : τ → Pc κ α) (g : κ → List Nat) :
    Prop where
  length : ∀ q, (content q).length = (g q).tail.length
  nodup : ∀ q, (content q).reduceOption.Nodup
  pending : ∀ q t, some t ∈ content q → (locals t).pending q = 1

omit [DecidableEq κ] in
theorem reduceOption_complete (ts : List (Option τ)) :
    (ts.map fun e => if e = some t then none else e).reduceOption.Sublist ts.reduceOption := by
  induction ts with
  | nil => exact .slnil
  | cons e ts ih =>
    cases e with
    | none => exact ih
    | some u =>
      rw [List.map_cons, List.reduceOption_cons_of_some]
      split
      · exact ih.cons u
      · rw [List.reduceOption_cons_of_some]
        exact ih.cons_cons u

omit [DecidableEq κ] in
theorem mem_complete {ts : List (Option τ)} {u : τ}
    (h : some u ∈ ts.map fun e => if e = some t then none else e) : u ≠ t ∧ some u ∈ ts := by
  obtain ⟨e, he, heq⟩ := List.mem_map.1 h
  split at heq <;> rename_i hne
  · cases heq
  · subst heq
    exact ⟨fun hut => hne (congrArg some hut), he⟩

omit [DecidableEq τ] in
theorem ContentOk.update {locals locals' : τ → Pc κ α} (h : ContentOk content locals g) {q : κ}
    {ts : List (Option τ)} (hlength : ts.length = (g' q).tail.length)
    (hother : ∀ q', q' ≠ q → (g' q').tail.length = (g q').tail.length)
    (hnodup : ts.reduceOption.Nodup) (hpending : ∀ u, some u ∈ ts → (locals' u).pending q = 1)
    (hrest : ∀ q' u, q' ≠ q → some u ∈ content q' → (locals' u).pending q' = 1) :
    ContentOk (Function.update content q ts) locals' g' := by
  refine ⟨fun q' => ?_, fun q' => ?_, fun q' u hu => ?_⟩ <;> by_cases hq : q' = q
  · subst hq
    rw [Function.update_self]
    exact hlength
  · rw [Function.update_of_ne hq, hother q' hq]
    exact h.length q'
  · subst hq
    rw [Function.update_self]
    exact hnodup
  · rw [Function.update_of_ne hq]
    exact h.nodup q'
  · subst hq
    rw [Function.update_self] at hu
    exact hpending u hu
  · rw [Function.update_of_ne hq] at hu
    exact hrest q' u hq hu

/-- **A step of a thread** keeps the record right. -/
theorem ContentOk.does {locals : τ → Pc κ α} {pc : Pc κ α} (h : ContentOk content locals g)
    (hdoes : Does (locals t) pc l)
    (hlength : ∀ q, (g' q).tail.length + (takenFrom q l).length =
      (g q).tail.length + (linkedTo q l).length) :
    ContentOk (l.foldl (record t) content) (Function.update locals t pc) g' := by
  have hold : ∀ q u, some u ∈ content q → u ≠ t →
      (Function.update locals t pc u).pending q = 1 := by
    intro q u hu hut
    rw [Function.update_of_ne hut]
    exact h.pending q u hu
  have hkept : (∀ q, pc.pending q = (locals t).pending q) → ∀ q u, some u ∈ content q →
      (Function.update locals t pc u).pending q = 1 := by
    intro hsame q u hu
    by_cases hut : u = t
    · subst hut
      rw [Function.update_self, hsame]
      exact h.pending q u hu
    · exact hold q u hu hut
  cases hdoes with
  | @links q data before after =>
    have hne : ∀ q' u, some u ∈ content q' → u ≠ t := by
      intro q' u hu hut
      have hone := h.pending q' u hu
      rw [hut, before q'] at hone
      cases hone
    have hq := hlength q
    rw [linkedTo_linked, takenFrom_linked, List.length_singleton, List.length_nil] at hq
    refine h.update ?_ (fun q' hq' => ?_) ?_ (fun u hu => ?_)
      fun q' u _ hu => hold q' u hu (hne q' u hu)
    · rw [List.length_append, List.length_singleton, h.length]
      exact hq.symm
    · have hlen := hlength q'
      rw [linkedTo_other (Ne.symm hq'), takenFrom_linked] at hlen
      exact hlen
    · rw [List.reduceOption_append, List.reduceOption_singleton]
      refine List.Nodup.append (h.nodup q) (List.nodup_singleton t) ?_
      exact List.disjoint_singleton.2 fun hin => hne q t (List.reduceOption_mem_iff.1 hin) rfl
    · rcases List.mem_append.1 hu with hu | hu
      · exact hold q u hu (hne q u hu)
      · cases List.mem_singleton.1 hu
        rw [Function.update_self, after, if_pos rfl]
  | @counts q data before after =>
    have hsame : ∀ q', (g' q').tail.length = (g q').tail.length := hlength
    refine h.update ?_ (fun q' _ => hsame q') ((h.nodup q).sublist (reduceOption_complete _))
      (fun u hu => ?_) fun q' u hq' hu => hold q' u hu fun hut => ?_
    · rw [List.length_map, hsame, h.length]
    · obtain ⟨hut, hu⟩ := mem_complete hu
      exact hold q u hu hut
    · have hone := h.pending q' u hu
      rw [hut, before, if_neg (Ne.symm hq')] at hone
      cases hone
  | @takes q data same =>
    have hq := hlength q
    rw [linkedTo_taken, takenFrom_taken, List.length_singleton, List.length_nil] at hq
    refine h.update ?_ (fun q' hq' => ?_) ((h.nodup q).sublist ((List.tail_sublist _).filterMap id))
      (fun u hu => hkept same q u (List.mem_of_mem_tail hu)) fun q' u _ hu => hkept same q' u hu
    · rw [List.length_tail, h.length]
      omega
    · have hlen := hlength q'
      rw [linkedTo_taken, takenFrom_other (Ne.symm hq')] at hlen
      exact hlen
  | returns same | nothing same =>
    have hsame : ∀ q', (g' q').tail.length = (g q').tail.length := hlength
    exact ⟨fun q => (h.length q).trans (hsame q).symm, h.nodup, hkept same⟩

/-! ## Settled counts -/

omit [DecidableEq κ] [DecidableEq τ] in
/-- Nothing is completely enqueued where all elements have a `TryEnqueue` in progress. -/
theorem none_notMem_iff (ts : List (Option τ)) :
    none ∉ ts ↔ ts.length = ts.reduceOption.length := by
  rw [eq_comm, List.reduceOption_length_eq_iff]
  constructor
  · intro hnone e he
    exact Option.isSome_iff_ne_none.2 fun heq => hnone (heq ▸ he)
  · intro hsome hin
    cases hsome none hin

/-- **A count is settled exactly where no element is completely enqueued**, if it is not positive. -/
theorem settled_iff (hI : Inv l s.plain g) (h : ContentOk s.shared.content s.locals g) (q : κ) :
    Settled s q ↔ none ∉ s.shared.content q := by
  obtain ⟨n₁, n₂, n₃, h₁, h₂, h₃, hsum, hneg⟩ := hI.count q
  have hlength := h.length q
  have hpos : ∀ t ∈ (s.shared.content q).reduceOption, 0 < (s.locals t).pending q := by
    intro t ht
    rw [h.pending q t (List.reduceOption_mem_iff.1 ht)]
    exact Nat.one_pos
  have hle := h₃.length_le (h.nodup q) hpos
  have heq := h₃.eq_length_iff (h.nodup q) hpos fun _ => Pc.pending_le
  rw [none_notMem_iff]
  change ((g q).tail.length : Int) = (s.shared.memory.queue q).mCount + n₁ + n₂ + n₃ at hsum
  change 0 ≤ (s.shared.memory.queue q).mCount + n₂ at hneg
  constructor
  · rintro ⟨hclaims, ⟨n, hn, hfails⟩, hpending⟩
    have hzero := h₁.eq_zero hclaims
    rw [hn.unique h₂] at hfails
    have hthree := heq.2 fun t ht => List.reduceOption_mem_iff.2 (hpending t ?_)
    · omega
    · exact Nat.le_antisymm Pc.pending_le ht
  · intro hall
    have hthree : n₃ = (s.shared.content q).reduceOption.length := by omega
    refine ⟨fun t => ?_, ⟨n₂, h₂, by omega⟩, fun t ht => ?_⟩
    · have hone := h₁.le t
      change (s.locals t).claims q ≤ n₁ at hone
      omega
    · exact List.reduceOption_mem_iff.1 (heq.1 hthree t (by change 0 < (s.locals t).pending q; omega))

/-! ## Runs -/

variable {s' : RecordedState τ κ α} {as : List (ThreadAction τ (Action κ α) Empty)}

/-- What the callers see to, and that nodes are linked at tails. -/
def RecordedGuard (s : RecordedState τ κ α) (t : τ) (a : Action κ α) : Prop :=
  CallsGuard s.plain t a ∧ LinkGuard s.plain t

instance (s : RecordedState τ κ α) (t : τ) (a : Action κ α) : Decidable (RecordedGuard s t a) :=
  inferInstanceAs (Decidable (_ ∧ _))

/-- The invariant of the queues and the record. -/
def RecordInv (s : RecordedState τ κ α) : Prop :=
  ∃ l g, Inv l s.plain g ∧ ContentOk s.shared.content s.locals g

/-- A call that will return `false` has seen its queue without a complete element. -/
def HonestInv (s : RecordedState τ κ α) : Prop :=
  ∀ t, ∀ q ∈ (s.locals t).refuses, s.shared.sawEmpty t q = true

variable {r : Recorded τ κ α} {pc : Pc κ α} {a : Action κ α}

theorem recordedAct_cases (hs : recordedAct t a s.shared (s.locals t) = some (r, pc)) :
    act a s.shared.memory (s.locals t) = some (r.memory, pc) ∧
      r.content = (seenOf a s.shared.memory (s.locals t)).foldl (record t) s.shared.content ∧
      ∀ u q, r.sawEmpty u q = true ↔
        (s.shared.sawEmpty u q = true ∧ (a.starts = true → u ≠ t)) ∨ none ∉ r.content q := by
  obtain ⟨⟨m, pc'⟩, hact, heq⟩ := Option.map_eq_some_iff.1 hs
  cases heq
  refine ⟨hact, rfl, fun u q => ?_⟩
  cases a.starts <;> simp

theorem RecordInv.act (h : RecordInv s) (hguard : RecordedGuard s t a)
    (hs : recordedAct t a s.shared (s.locals t) = some (r, pc)) : RecordInv (s.set t r pc) := by
  obtain ⟨l, g, hI, hcontent⟩ := h
  obtain ⟨hact, hrecord, -⟩ := recordedAct_cases hs
  obtain ⟨g', hI'⟩ := hI.act hguard.1 hguard.2 hact
  have hseen : watched s.plain (.thread t a) = seenOf a s.shared.memory (s.locals t) := by
    cases a <;> rfl
  refine ⟨_, g', hI', ?_⟩
  have hdoes := act_does hact
  rw [← hseen] at hdoes hrecord
  change ContentOk r.content (Function.update s.locals t pc) g'
  rw [hrecord]
  exact hcontent.does hdoes (hI.length_step hI')

theorem HonestInv.act (h : HonestInv s) (hI : RecordInv s) (hsettled : SettledGuard s t a)
    (hs : recordedAct t a s.shared (s.locals t) = some (r, pc)) : HonestInv (s.set t r pc) := by
  obtain ⟨hact, hrecord, hsaw⟩ := recordedAct_cases hs
  intro u q hq
  refine (hsaw u q).2 ?_
  by_cases hut : u = t
  · subst hut
    rw [Threads.set_self] at hq
    obtain ⟨⟨k, rfl⟩, hsub, hn, hseen⟩ := act_refuses hact hq
    obtain ⟨l, g, hI, hcontent⟩ := hI
    rw [hrecord, hseen]
    exact .inr ((settled_iff hI hcontent q).1 (hsettled q hsub hn))
  · rw [Threads.set_other _ _ _ _ hut] at hq
    exact .inl ⟨h u q hq, fun _ => hut⟩

theorem recordInv_init (h : (recordedMachine τ κ α).init s) : RecordInv s ∧ HonestInv s := by
  obtain ⟨hmemory, hcontent, hidle⟩ := h
  refine ⟨⟨[], fun _ => [], .init hmemory hidle, ?_⟩, fun t q hq => ?_⟩
  · rw [hcontent]
    exact ⟨fun _ => rfl, fun _ => List.nodup_nil, nofun⟩
  · rw [hidle t] at hq
    cases hq

/-- **When an empty answer is honest.** In a run that links nodes at tails, the count is settled
where `TryDequeue` finds it not positive exactly where no element is completely enqueued then; and if
it is so each time, then whenever `TryDequeue` returns `false`, its queue contained no completely
enqueued element at some moment of the call. -/
theorem honest_of_settled (hinit : (recordedMachine τ κ α).init s)
    (hallowed : (recordedMachine τ κ α).Allowed (Threads.Guard RecordedGuard fun _ _ => True) s as) :
    ((recordedMachine τ κ α).Allowed (Threads.Guard SettledGuard fun _ _ => True) s as ↔
      (recordedMachine τ κ α).Allowed (Threads.Guard EmptyGuard fun _ _ => True) s as) ∧
    ((recordedMachine τ κ α).Allowed (Threads.Guard SettledGuard fun _ _ => True) s as →
      (recordedMachine τ κ α).Allowed (Threads.Guard Honest fun _ _ => True) s as) := by
  obtain ⟨hrecord, hhonest⟩ := recordInv_init hinit
  have hguard : ∀ (s : RecordedState τ κ α) t a, RecordInv s → (SettledGuard s t a ↔ EmptyGuard s t a) := by
    rintro s t a ⟨l, g, hI, hcontent⟩
    cases a with
    | next k =>
      exact forall_congr' fun q => imp_congr_right fun _ => imp_congr_right fun _ =>
        settled_iff hI hcontent q
    | construct | enqueue | dequeue => exact Iff.rfl
  have hkeep : ∀ (s : RecordedState τ κ α) a s', RecordInv s →
      Threads.Guard RecordedGuard (fun _ _ => True) s a →
      (recordedMachine τ κ α).step s a = some s' → RecordInv s' := by
    intro s a s' hI hok hs
    obtain ⟨t, b, r, pc, rfl, hact, rfl⟩ | ⟨e, -⟩ := Threads.step_cases hs
    · exact hI.act hok hact
    · exact e.elim
  refine ⟨⟨fun h => ?_, fun h => ?_⟩, fun h => ?_⟩
  · refine Machine.allowed_mono (I := RecordInv) (fun s a s' hI hok _ => hkeep s a s' hI hok) ?_ as
      hrecord hallowed h
    rintro s (⟨t, a⟩ | ⟨⟨⟩⟩) hI - hok
    exact (hguard s t a hI).1 hok
  · refine Machine.allowed_mono (I := RecordInv) (fun s a s' hI hok _ => hkeep s a s' hI hok) ?_ as
      hrecord hallowed h
    rintro s (⟨t, a⟩ | ⟨⟨⟩⟩) hI - hok
    exact (hguard s t a hI).2 hok
  · refine Machine.allowed_mono (I := fun s => RecordInv s ∧ HonestInv s) ?_ ?_ as
      ⟨hrecord, hhonest⟩ hallowed h
    · rintro s a s' ⟨hI, hH⟩ hok hsettled hs
      refine ⟨hkeep s a s' hI hok hs, ?_⟩
      obtain ⟨t, b, r, pc, rfl, hact, rfl⟩ | ⟨e, -⟩ := Threads.step_cases hs
      · exact hH.act hI hsettled hact
      · exact e.elim
    · rintro s (⟨t, a⟩ | ⟨⟨⟩⟩) ⟨-, hH⟩ - -
      cases a with
      | next k => exact hH t
      | construct | enqueue | dequeue => trivial

/-! ## Three threads -/

/-- A queue that is not constructed. -/
def unrecorded : RecordedState (Fin 3) Unit Nat :=
  ⟨⟨⟨fun _ => ⟨0, 0, ⟨none, 0⟩, ⟨none, 0⟩⟩, fun _ => 0, fun _ => none, ∅⟩, fun _ => [],
    fun _ _ => false⟩, fun _ => .idle⟩

theorem unrecorded_init : (recordedMachine (Fin 3) Unit Nat).init unrecorded :=
  ⟨⟨fun _ => rfl, rfl⟩, rfl, fun _ => rfl⟩

/-- A thread takes steps; `NewObject` gives it the node at the address 1. -/
def stepsOf (t : Fin 3) (n : Nat) : List (ThreadAction (Fin 3) (Action Unit Nat) Empty) :=
  List.replicate n (.thread t (.next ⟨1, false⟩))

/-- One value is enqueued and dequeued, and then a call finds the queue empty. -/
theorem honest_of_settled_inTurn : (recordedMachine (Fin 3) Unit Nat).Allowed
    (Threads.Guard Honest fun _ _ => True) unrecorded
    ([.thread 0 (.construct () 10 0), .thread 1 (.enqueue () 7)] ++ stepsOf 1 13 ++
      .thread 0 (.dequeue () 0) :: stepsOf 0 9 ++ .thread 2 (.dequeue () 0) :: stepsOf 2 2) := by
  refine (honest_of_settled unrecorded_init ?_).2 ?_
  · decide +kernel
  · decide +kernel

/-- **An answer that is not honest**: a call has found the queue empty and subtracted from its count;
then a value is enqueued completely, and the next call finds a count of zero. The value is in the
queue from its start to its return, and nobody else dequeues. -/
theorem not_honest : ∃ s : RecordedState (Fin 3) Unit Nat,
    (recordedMachine (Fin 3) Unit Nat).ReachableIf (Threads.Guard RecordedGuard fun _ _ => True) s ∧
      s.locals 1 = .idle ∧ s.shared.content () = [none] ∧
      (∀ t, (s.locals t).claims () = 0) ∧ (s.locals 2).refuses = some () ∧
      s.shared.sawEmpty 2 () = false ∧ ¬ Honest s 2 (.next ⟨1, false⟩) := by
  let run := [.thread 0 (.construct () 10 0), .thread 0 (.dequeue () 0)] ++ stepsOf 0 1 ++
    .thread 1 (.enqueue () 7) :: stepsOf 1 13 ++ .thread 2 (.dequeue () 0) :: stepsOf 2 1
  have hguard : (recordedMachine (Fin 3) Unit Nat).Allowed
      (Threads.Guard RecordedGuard fun _ _ => True) unrecorded run := by
    decide +kernel
  refine ⟨_, Machine.ReachableIf.exec run (.init unrecorded_init) hguard rfl, rfl, rfl, ?_, rfl, rfl,
    fun h => ?_⟩
  · decide +kernel
  · exact absurd (h () rfl) (by decide +kernel)

end CppNetEngine.LockFreeQueue
