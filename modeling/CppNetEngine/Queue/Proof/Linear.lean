import CppNetEngine.Lib.Atomic
import CppNetEngine.Queue.Proof.Fifo
import CppNetEngine.Queue.Proof.Frame

/-!
# Lock-free queues are queues

Where `TryEnqueue` links its nodes at the tail, the calls of `TryEnqueue` and `TryDequeue` are
linearizable: a value is at the end of its queue from the moment at which its node is linked, and
`TryDequeue` takes the value that is first, at its compare-and-swap on the head. `TryEnqueue` returns
`false` only where the queue holds `mMaxCount` values or more, and `TryDequeue` only where it holds
no more values than there are other calls on the queue in progress, of either kind.
-/

namespace CppNetEngine.LockFreeQueue.Atomic

variable {τ κ α : Type*}

/-! ## Atomic queues -/

/-- A queue as its callers see it, with the first value first. -/
structure Contents (α : Type*) where
  mMaxCount : Int
  values : List α

inductive Call (κ α : Type*)
  | construct (q : κ) (maxCount : Int)
  | tryEnqueue (q : κ) (data : α)
  | tryDequeue (q : κ)

/-- What a call returns: `TryDequeue` returns `true` with a value. -/
inductive Return (α : Type*)
  | construct
  | tryEnqueue (enqueued : Bool)
  | tryDequeue (outData : Option α)

/-- The queue that is called. -/
def Call.queue : Call κ α → κ
  | .construct q _ | .tryEnqueue q _ | .tryDequeue q => q

/-- The threads of queues, seen by what they call and what is answered. -/
abbrev Queues (τ κ α : Type*) := Threads τ (Phase (Call κ α) (Return α)) (κ → Contents α)

/-- Other calls on the queue are in progress, as many as it has values or more. A `TryEnqueue` counts
as well: its node can be linked, and dequeued, before it is counted. -/
def Busy (o : Queues τ κ α) (t : τ) (q : κ) : Prop :=
  ∃ others : List τ, others.Nodup ∧ (∀ u ∈ others, u ≠ t ∧
      ∃ c, (o.locals u = .called c ∨ ∃ r, o.locals u = .answered c r) ∧ c.queue = q) ∧
    (o.shared q).values.length ≤ others.length

/-- What the calls do. -/
inductive Answered [DecidableEq κ] (o : Queues τ κ α) (t : τ) :
    Call κ α → Return α → (κ → Contents α) → Prop
  | constructed (q : κ) (maxCount : Int) : Answered o t (.construct q maxCount) .construct
      (Function.update o.shared q ⟨maxCount, []⟩)
  | enqueued (q : κ) (data : α) : Answered o t (.tryEnqueue q data) (.tryEnqueue true)
      (Function.update o.shared q ⟨(o.shared q).mMaxCount, (o.shared q).values ++ [data]⟩)
  | full (q : κ) (data : α) : (o.shared q).mMaxCount ≤ (o.shared q).values.length →
      Answered o t (.tryEnqueue q data) (.tryEnqueue false) o.shared
  | dequeued (q : κ) (outData : α) (values : List α) : (o.shared q).values = outData :: values →
      Answered o t (.tryDequeue q) (.tryDequeue (some outData))
        (Function.update o.shared q ⟨(o.shared q).mMaxCount, values⟩)
  | empty (q : κ) : Busy o t q → Answered o t (.tryDequeue q) (.tryDequeue none) o.shared

variable [DecidableEq κ]

/-! ## What is seen of queues -/

/-- What a thread returns with its next step. -/
def returns (m : Memory κ α) : Pc κ α → Option (Call κ α × Return α)
  | .enqueue q data .loadCount =>
    if (m.queue q).mMaxCount ≤ (m.queue q).mCount then
      some (.tryEnqueue q data, .tryEnqueue false) else none
  | .enqueue q data .fetchAdd => some (.tryEnqueue q data, .tryEnqueue true)
  | .dequeue q _ _ _ .fetchAdd => some (.tryDequeue q, .tryDequeue none)
  | .dequeue q outData _ _ .deleteObject => some (.tryDequeue q, .tryDequeue (some outData))
  | _ => none

/-- The returns that are seen of a step. -/
abbrev seenNext (t : τ) (m : Memory κ α) (pc : Pc κ α) :
    List (CallEvent τ (Call κ α) (Return α)) :=
  ((returns m pc).map fun r => .ret t r.1 r.2).toList

/-- The calls and returns that are seen of a step. The constructor is one step. -/
def seenCalls (s : State τ κ α) :
    ThreadAction τ (Action κ α) Empty → List (CallEvent τ (Call κ α) (Return α))
  | .thread t (.construct q maxCount _) =>
    [.call t (.construct q maxCount), .ret t (.construct q maxCount) .construct]
  | .thread t (.enqueue q data) => [.call t (.tryEnqueue q data)]
  | .thread t (.dequeue q _) => [.call t (.tryDequeue q)]
  | .thread t (.next _) => seenNext t s.shared (s.locals t)

/-! ## The queues behind the nodes -/

/-- Where a call is, by where its thread is. -/
def phase (_ : Memory κ α) : Pc κ α → Phase (Call κ α) (Return α)
  | .idle => .idle
  | .enqueue q data step => match step with
    | .moveTail _ | .fetchAdd => .answered (.tryEnqueue q data) (.tryEnqueue true)
    | _ => .called (.tryEnqueue q data)
  | .dequeue q outData _ _ step => match step with
    | .fetchAdd => .answered (.tryDequeue q) (.tryDequeue none)
    | .deleteObject => .answered (.tryDequeue q) (.tryDequeue (some outData))
    | _ => .called (.tryDequeue q)

/-- The queues that the nodes stand for. -/
def contents (m : Memory κ α) (g : κ → List Nat) (q : κ) : Contents α :=
  ⟨(m.queue q).mMaxCount, (g q).tail.map m.data⟩

variable [DecidableEq τ] {l w : List (Event κ α)} {s s' : State τ κ α} {g g' : κ → List Nat} {t : τ}
  {q : κ} {m : Memory κ α} {pc : Pc κ α} {k : Outside}

omit [DecidableEq τ] in
/-- **What is in a queue** changes as nodes are linked and taken. -/
theorem values_eq (h : Inv l s g) (h' : Inv (l ++ w) s' g') (q : κ) :
    (contents s.shared g q).values ++ linkedTo q w =
      takenFrom q w ++ (contents s'.shared g' q).values := by
  have hbefore := h.order q
  have hafter := h'.order q
  simp only [linkedTo, takenFrom, List.filterMap_append] at hbefore hafter ⊢
  rw [hbefore, List.append_assoc, List.append_assoc] at hafter
  exact List.append_cancel_left hafter

omit [DecidableEq τ] in
theorem contents_eq (h : Inv l s g) (h' : Inv (l ++ w) s' g')
    (hmax : ∀ q, (s'.shared.queue q).mMaxCount = (s.shared.queue q).mMaxCount)
    (hw : ∀ q, linkedTo q w = [] ∧ takenFrom q w = []) :
    contents s'.shared g' = contents s.shared g := by
  funext q
  have hvalues := values_eq h h' q
  rw [(hw q).1, (hw q).2, List.append_nil, List.nil_append] at hvalues
  exact congrArg₂ Contents.mk (hmax q) hvalues.symm

/-! ## Steps -/

/-- The step of a thread is one that an atomic object can follow, and what is in the queues then is
what the nodes stand for. -/
def Follows (s : State τ κ α) (t : τ) (h : List (CallEvent τ (Call κ α) (Return α)))
    (m : Memory κ α) (pc : Pc κ α) (g g' : κ → List Nat) : Prop :=
  AtomicObject.Does Answered (AtomicObject.behind phase s (contents s.shared g)) t
    (phase s.shared (s.locals t)) h (contents m g') (phase m pc)

/-- A step of a thread, with what is known of it. -/
structure Steps (l : List (Event κ α)) (s : State τ κ α) (t : τ) (m : Memory κ α) (pc : Pc κ α)
    (g g' : κ → List Nat) : Prop where
  before : Inv l s g
  after : Inv (l ++ seen s.shared (s.locals t)) (s.set t m pc) g'
  maxCount : ∀ q, (m.queue q).mMaxCount = (s.shared.queue q).mMaxCount

namespace Steps

theorem same (h : Steps l s t m pc g g') {pc₀ : Pc κ α} (hpc : s.locals t = pc₀)
    (hw : ∀ q, linkedTo q (seen s.shared pc₀) = [] ∧ takenFrom q (seen s.shared pc₀) = []) :
    contents m g' = contents s.shared g := by
  have hafter := h.after
  rw [hpc] at hafter
  exact contents_eq h.before hafter h.maxCount hw

theorem quiet (h : Steps l s t m pc g g') {pc₀ : Pc κ α} (hpc : s.locals t = pc₀)
    (hw : ∀ q, linkedTo q (seen s.shared pc₀) = [] ∧ takenFrom q (seen s.shared pc₀) = [])
    (hphase : phase m pc = phase s.shared pc₀) (hsee : returns s.shared pc₀ = none) :
    Follows s t (seenNext t s.shared (s.locals t)) m pc g g' := by
  unfold Follows seenNext
  rw [h.same hpc hw, hpc, hphase, hsee]
  exact .quiet _

theorem ret (h : Steps l s t m .idle g g') {pc₀ : Pc κ α} {c : Call κ α} {r : Return α}
    (hpc : s.locals t = pc₀)
    (hw : ∀ q, linkedTo q (seen s.shared pc₀) = [] ∧ takenFrom q (seen s.shared pc₀) = [])
    (hphase : phase s.shared pc₀ = .answered c r) (hsee : returns s.shared pc₀ = some (c, r)) :
    Follows s t (seenNext t s.shared (s.locals t)) m .idle g g' := by
  unfold Follows seenNext
  rw [h.same hpc hw, hpc, hphase, hsee]
  exact .ret c r

theorem update (h : Steps l s t m pc g g') {values : List α}
    (hself : (contents m g' q).values = values)
    (hother : ∀ q', q' ≠ q → (contents m g' q').values = (contents s.shared g q').values) :
    contents m g' =
      Function.update (contents s.shared g) q ⟨(s.shared.queue q).mMaxCount, values⟩ := by
  funext q'
  by_cases hq : q' = q
  · subst hq
    rw [Function.update_self, ← hself, ← h.maxCount]
    rfl
  · rw [Function.update_of_ne hq]
    exact congrArg₂ Contents.mk (h.maxCount q') (hother q' hq)

end Steps

theorem enqueueStep_follows (h : Steps l s t m pc g g') {data : α} {step : EnqueueStep}
    (hpc : s.locals t = .enqueue q data step)
    (hs : enqueueStep k s.shared q data step = some (m, pc)) :
    Follows s t (seenNext t s.shared (s.locals t)) m pc g g' := by
  have hnone : ∀ q : κ, linkedTo q ([] : List (Event κ α)) = [] ∧
      takenFrom q ([] : List (Event κ α)) = [] := fun _ => ⟨rfl, rfl⟩
  cases step with
  | loadCount =>
    cases hs
    by_cases hfull : (s.shared.queue q).mMaxCount ≤ (s.shared.queue q).mCount
    · have hle : (s.shared.queue q).mCount ≤ (g q).tail.length :=
        Threads.Counted.le (h.before.count q)
      have hlength : (s.shared.queue q).mMaxCount ≤
          (((g q).tail.map s.shared.data).length : Int) := by
        rw [List.length_map]
        omega
      unfold Follows seenNext
      rw [h.same hpc hnone, hpc, returns, if_pos hfull, if_pos hfull]
      exact .answerRet (.full q data hlength)
    · refine h.quiet hpc hnone ?_ ?_
      · rw [if_neg hfull]
        rfl
      · rw [returns, if_neg hfull]
  | newObject | setData | setNext | readTail =>
    cases hs
    exact h.quiet hpc hnone rfl rfl
  | readNext a pNode =>
    obtain ⟨b, rfl, hnext⟩ := Option.map_eq_some_iff.1 hs
    cases hnext
    exact h.quiet hpc hnone rfl rfl
  | readTailAgain a pExpected =>
    cases hs
    refine h.quiet hpc hnone ?_ rfl
    split <;> rfl
  | swap a pNode =>
    obtain ⟨b, rfl, hswap⟩ := Option.map_eq_some_iff.1 hs
    by_cases hlast : s.shared.pNextNode b = none
    · rw [if_pos hlast] at hswap
      cases hswap
      have hafter := h.after
      rw [hpc, seen, if_pos hlast] at hafter
      have hvalues := values_eq h.before hafter
      have hself := hvalues q
      simp only [linkedTo, takenFrom, List.filterMap_cons, List.filterMap_nil, if_pos,
        List.nil_append] at hself
      unfold Follows seenNext
      rw [h.update hself.symm fun q' hq => ?_, hpc]
      · exact .answer (.enqueued q data)
      · have hother := hvalues q'
        simp only [linkedTo, takenFrom, List.filterMap_cons, List.filterMap_nil,
          if_neg (Ne.symm hq), List.nil_append, List.append_nil] at hother
        exact hother.symm
    · rw [if_neg hlast] at hswap
      cases hswap
      refine h.quiet hpc ?_ rfl rfl
      rw [seen, if_neg hlast]
      exact hnone
  | retry a step =>
    obtain ⟨⟨m', next⟩, hmove, hs⟩ := Option.map_eq_some_iff.1 hs
    cases hs
    refine h.quiet hpc hnone ?_ rfl
    cases next <;> rfl
  | moveTail step =>
    obtain ⟨⟨m', next⟩, hmove, hs⟩ := Option.map_eq_some_iff.1 hs
    cases hs
    refine h.quiet hpc hnone ?_ rfl
    cases next <;> rfl
  | fetchAdd =>
    cases hs
    exact h.ret hpc (fun _ => ⟨rfl, rfl⟩) rfl rfl

omit [DecidableEq τ] in
/-- A thread that has not counted yet finds others, if nothing is counted. -/
theorem busy (h : Inv l s g) {outData : α} {e d : Node16}
    (hpc : s.locals t = .dequeue q outData e d .fetchSub)
    (hcount : (s.shared.queue q).mCount ≤ 0) :
    Busy (AtomicObject.behind phase s (contents s.shared g)) t q := by
  have hone : ∀ pc : Pc κ α, pc.claims q + pc.fails q + pc.pending q ≤ 1 := by
    intro pc
    rcases pc with _ | ⟨q', _, _ | _ | _ | _ | _ | _ | _ | _ | _ | _ | _⟩ |
        ⟨q', _, _, _, _ | _ | _ | _ | _ | _ | _ | _ | _ | _ | _ | _⟩ <;>
      simp only [Pc.claims, Pc.fails, Pc.pending] <;> (try split) <;> decide
  have hcalls : ∀ pc : Pc κ α, 0 < pc.claims q + pc.fails q + pc.pending q →
      ∃ c, (phase s.shared pc = .called c ∨ ∃ r, phase s.shared pc = .answered c r) ∧
        c.queue = q := by
    intro pc hpos
    cases pc with
    | idle => exact absurd hpos (Nat.lt_irrefl 0)
    | enqueue q' data step =>
      have hq : q' = q := by
        by_contra hne
        cases step <;> simp [Pc.claims, Pc.fails, Pc.pending, hne] at hpos
      refine ⟨.tryEnqueue q' data, ?_, hq⟩
      cases step <;> first | exact .inl rfl | exact .inr ⟨_, rfl⟩
    | dequeue q' outData e d step =>
      have hq : q' = q := by
        by_contra hne
        cases step <;> simp [Pc.claims, Pc.fails, Pc.pending, hne] at hpos
      refine ⟨.tryDequeue q', ?_, hq⟩
      cases step <;> first | exact .inl rfl | exact .inr ⟨_, rfl⟩
  obtain ⟨ts, hnodup, hlength, hts⟩ :=
    Threads.Counted.exists_threads (h.count q) hcount fun u => hone _
  refine ⟨ts, hnodup, fun u hu => ⟨?_, hcalls _ (hts u hu)⟩, ?_⟩
  · rintro rfl
    have hpos := hts u hu
    rw [hpc] at hpos
    exact absurd hpos (Nat.lt_irrefl 0)
  · change ((g q).tail.map s.shared.data).length ≤ ts.length
    rw [List.length_map]
    exact hlength

theorem dequeueStep_follows (h : Steps l s t m pc g g') {outData : α} {e d : Node16}
    {step : DequeueStep} (hpc : s.locals t = .dequeue q outData e d step)
    (hs : dequeueStep k s.shared q outData e d step = some (m, pc)) :
    Follows s t (seenNext t s.shared (s.locals t)) m pc g g' := by
  have hnone : ∀ q : κ, linkedTo q ([] : List (Event κ α)) = [] ∧
      takenFrom q ([] : List (Event κ α)) = [] := fun _ => ⟨rfl, rfl⟩
  cases step with
  | fetchSub =>
    cases hs
    by_cases hcount : (s.shared.queue q).mCount ≤ 0
    · rw [if_pos hcount] at h ⊢
      unfold Follows seenNext
      rw [h.same hpc hnone, hpc]
      exact .answer (.empty q (busy h.before hpc hcount))
    · rw [if_neg hcount] at h ⊢
      exact h.quiet hpc hnone rfl rfl
  | fetchAdd =>
    cases hs
    exact h.ret hpc hnone rfl rfl
  | compare | compareTail | compareHead | readNode =>
    cases hs
    refine h.quiet hpc hnone ?_ rfl
    split <;> rfl
  | moveTail step =>
    obtain ⟨⟨m', next⟩, hmove, hs⟩ := Option.map_eq_some_iff.1 hs
    cases hs
    refine h.quiet hpc hnone ?_ rfl
    cases next <;> rfl
  | readCount =>
    cases hs
    exact h.quiet hpc hnone rfl rfl
  | readNext =>
    obtain ⟨p, hp, hnext⟩ := Option.map_eq_some_iff.1 hs
    cases hnext
    refine h.quiet hpc hnone ?_ rfl
    split <;> rfl
  | readData =>
    obtain ⟨p, hp, hdata⟩ := Option.map_eq_some_iff.1 hs
    cases hdata
    exact h.quiet hpc hnone rfl rfl
  | swap =>
    simp only [dequeueStep] at hs
    by_cases hhead : (s.shared.queue q).mHead = e
    · rw [if_pos hhead] at hs
      cases hs
      have hafter := h.after
      rw [hpc, seen, if_pos hhead] at hafter
      have hvalues := values_eq h.before hafter
      have hself := hvalues q
      simp only [linkedTo, takenFrom, List.filterMap_cons, List.filterMap_nil, if_pos,
        List.append_nil, List.singleton_append] at hself
      unfold Follows seenNext
      rw [h.update rfl fun q' hq => ?_, hpc]
      · exact .answer (.dequeued q outData _ hself)
      · have hother := hvalues q'
        simp only [linkedTo, takenFrom, List.filterMap_cons, List.filterMap_nil,
          if_neg (Ne.symm hq), List.nil_append, List.append_nil] at hother
        exact hother.symm
    · rw [if_neg hhead] at hs
      cases hs
      refine h.quiet hpc ?_ rfl rfl
      rw [seen, if_neg hhead]
      exact hnone
  | deleteObject =>
    cases hs
    exact h.ret hpc (fun _ => ⟨rfl, rfl⟩) rfl rfl

theorem construct_contents (h : Inv l s g) {maxCount : Int} {a : Nat}
    (hafter : Inv (l ++ []) (s.set t (s.shared.construct q maxCount a) .idle) g')
    (hnew : (s.shared.queue q).mHead.pNode = none) :
    contents (s.shared.construct q maxCount a) g' =
      Function.update (contents s.shared g) q ⟨maxCount, []⟩ := by
  have hvalues : ∀ q', (contents (s.shared.construct q maxCount a) g' q').values =
      (contents s.shared g q').values := by
    intro q'
    exact ((List.append_nil _).symm.trans (values_eq h hafter q')).symm
  have hnil : g q = [] := by
    by_contra hne
    exact (h.memory.queue q).constructed.2 hne hnew
  funext q'
  by_cases hq : q' = q
  · subst hq
    rw [Function.update_self, contents, construct_self]
    refine congrArg (Contents.mk maxCount) ((hvalues q').trans ?_)
    rw [contents, hnil]
    rfl
  · rw [Function.update_of_ne hq]
    refine congrArg₂ Contents.mk ?_ (hvalues q')
    rw [construct_other hq]

/-- **Atomic queues can follow every step** that links nodes at tails. -/
theorem act_follows (h : Inv l s g) {a : Action κ α} (hguard : CallsGuard s t a)
    (hlink : LinkGuard s t) (hs : act a s.shared (s.locals t) = some (m, pc)) :
    ∃ g', Inv (l ++ watched s (.thread t a)) (s.set t m pc) g' ∧
      Follows s t (seenCalls s (.thread t a)) m pc g g' := by
  obtain ⟨g', hafter⟩ := h.act hguard hlink hs
  refine ⟨g', hafter, ?_⟩
  cases a with
  | next k =>
    change step k s.shared (s.locals t) = some (m, pc) at hs
    have hsteps : Steps l s t m pc g g' := ⟨h, hafter, fun q => step_maxCount hs⟩
    cases hpc : s.locals t with
    | idle =>
      rw [hpc] at hs
      cases hs
    | enqueue q data step =>
      rw [hpc] at hs
      exact enqueueStep_follows hsteps hpc hs
    | dequeue q outData e d step =>
      rw [hpc] at hs
      exact dequeueStep_follows hsteps hpc hs
  | construct q maxCount a =>
    cases hpc : s.locals t <;> rw [hpc] at hs <;> cases hs
    unfold Follows
    rw [construct_contents h hafter hguard.1, hpc]
    exact .atOnce (.constructed q maxCount)
  | enqueue q data | dequeue q outData =>
    cases hpc : s.locals t <;> rw [hpc] at hs <;> cases hs
    have hsame := contents_eq (w := []) h hafter (fun _ => rfl) fun _ => ⟨rfl, rfl⟩
    rw [Threads.set_shared] at hsame
    unfold Follows
    rw [hsame, hpc]
    exact .call _

/-! ## Runs -/

/-- The runs in which nodes are linked at tails, with the calls and returns. -/
abbrev Observed : List (CallEvent τ (Call κ α) (Return α)) → State τ κ α → Prop :=
  (machine τ κ α).Observed (Threads.Guard (fun s t a => CallsGuard s t a ∧ LinkGuard s t)
    fun _ _ => True) seenCalls

/-- Atomic queues have followed every run that links nodes at tails. -/
theorem followed {h : List (CallEvent τ (Call κ α) (Return α))} (hs : Observed h s) : ∃ e l g,
    Inv l s g ∧ AtomicObject.Moves Answered
      (AtomicObject.fresh τ (Call κ α) (Return α) fun _ => ⟨0, []⟩) h e
      (AtomicObject.behind phase s (contents s.shared g)) := by
  have hrun : ∃ v₀ e v, (v₀ = fun _ => ⟨0, []⟩) ∧ AtomicObject.Moves Answered
      (AtomicObject.fresh τ (Call κ α) (Return α) v₀) h e (AtomicObject.behind phase s v) ∧
      ∃ l g, Inv l s g ∧ v = contents s.shared g := by
    refine Threads.linearizable Answered phase (fun v => v = fun _ => ⟨0, []⟩)
      (fun s v => ∃ l g, Inv l s g ∧ v = contents s.shared g) ?_ ?_ hs
    · intro s hs
      refine ⟨⟨_, rfl, [], _, .init hs.1 hs.2, ?_⟩, fun t => by rw [hs.2 t]; rfl⟩
      funext q
      rw [contents, hs.1.queue q]
      rfl
    · intro s v t a m pc hv hguard hact
      obtain ⟨l, g, hI, rfl⟩ := hv
      obtain ⟨g', hI', hfollows⟩ := act_follows hI hguard.1 hguard.2 hact
      exact ⟨_, hfollows, ⟨_, g', hI', rfl⟩, fun _ _ => rfl⟩
  obtain ⟨-, e, -, rfl, hmoves, l, g, hI, rfl⟩ := hrun
  exact ⟨e, l, g, hI, hmoves⟩

/-- **`TryEnqueue` and `TryDequeue` are linearizable** in the runs in which every compare-and-swap of
`TryEnqueue` that succeeds is on the node at the tail: the calls and returns are those of atomic
queues, which are not constructed at first and now have the values of the nodes that are reachable
from their heads. -/
theorem fifo_atomic {h : List (CallEvent τ (Call κ α) (Return α))} (hs : Observed h s) : ∃ e o,
    AtomicObject.Moves Answered
      (AtomicObject.fresh τ (Call κ α) (Return α) fun _ => ⟨0, []⟩) h e o ∧
    ∀ q, (o.shared q).mMaxCount = (s.shared.queue q).mMaxCount ∧
      Reaches s.shared q (o.shared q).values := by
  obtain ⟨e, l, g, hI, hmoves⟩ := followed hs
  exact ⟨e, _, hmoves, fun q => ⟨rfl, hI.reaches q⟩⟩

/-- Two threads enqueue, one in between the steps of the other, and one value is dequeued. -/
theorem fifo_atomic_two : ∃ (s : State Bool Bool Nat) (e : List (Call Bool Nat × Return Nat))
    (o : Queues Bool Bool Nat), AtomicObject.Moves Answered
      (AtomicObject.fresh Bool (Call Bool Nat) (Return Nat) fun _ => ⟨0, []⟩)
      [.call false (.construct false 10), .ret false (.construct false 10) .construct,
        .call false (.tryEnqueue false 8), .call true (.tryEnqueue false 7),
        .ret true (.tryEnqueue false 7) (.tryEnqueue true),
        .ret false (.tryEnqueue false 8) (.tryEnqueue true), .call true (.tryDequeue false),
        .ret true (.tryDequeue false) (.tryDequeue (some 7))] e o ∧
    ∀ q, (o.shared q).mMaxCount = (s.shared.queue q).mMaxCount ∧
      Reaches s.shared q (o.shared q).values := by
  let run := [.thread false (.construct false 10 0), .thread false (.enqueue false 8)] ++
    steps false 7 2 ++ .thread true (.enqueue false 7) :: steps true 13 3 ++ steps false 13 0 ++
    .thread true (.dequeue false 0) :: steps true 9 0
  have hguard : (machine Bool Bool Nat).Allowed
      (Threads.Guard (fun s t a => CallsGuard s t a ∧ LinkGuard s t) fun _ _ => True) twoQueues
      run := by
    decide +kernel
  have hrun : Observed _ _ :=
    Machine.Observed.exec run (.init (s := twoQueues) ⟨⟨fun _ => rfl, rfl⟩, fun _ => rfl⟩)
      hguard rfl
  exact ⟨_, fifo_atomic hrun⟩

end CppNetEngine.LockFreeQueue.Atomic
