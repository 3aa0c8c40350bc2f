import CppNetEngine.Queue.Proof.Frame
import CppNetEngine.Queue.Weak

/-!
# `continue` in `TryDequeue`

The `continue`s of the loop go to its condition, the compare-and-swap on `mHead`, with what earlier
iterations have left in `expected` and `desired`. An iteration that has come to its end has read a
node and its successor and assigned `outData` from it, and these are what it installs
(`Iteration.Ok`). So heads are null, and calls return what they have not read, just where a
compare-and-swap succeeds that `continue` has come to (`installsRead_iff`).
-/

namespace CppNetEngine.LockFreeQueue

variable {τ κ α : Type*} {m m' : Memory κ α} {q : κ}

/-! ## The property -/

/-- The value is that of `desired`, the successor of `expected`. -/
structure Assignment.Of (a : Assignment α) (expected desired : Node16) (outData : α) : Prop where
  expected : expected.pNode = some a.pNode
  desired : desired.pNode = some a.pNextNode
  outData : outData = a.outData

/-- No head is null, and a `TryDequeue` that has moved a head, and returns true, has assigned its
`outData` in that iteration from the successor of the node it has unlinked. -/
structure InstallsRead (s : WeakState τ κ α) : Prop where
  head : ∀ q, (s.shared.queue q).mHead.pNode ≠ none
  assigned : ∀ t q outData expected desired,
    (s.locals t).pc = .dequeue q outData expected desired .deleteObject →
      ∃ a, (s.locals t).assigned = some a ∧ a.Of expected desired outData

/-- The compare-and-swap of a `TryDequeue` that has come to it by `continue` does not succeed. -/
def ContinueGuard (s : WeakState τ κ α) (t : τ) : WeakAction κ α → Prop
  | .next _ => match s.locals t with
    | ⟨.dequeue q _ expected _ .swap, none⟩ => (s.shared.queue q).mHead ≠ expected
    | _ => True
  | _ => True

/-! ## Iterations -/

/-- What an iteration has read, and assigned, where it is. -/
def Iteration.Ok (i : Iteration κ α) : Prop :=
  match i.pc with
  | .dequeue _ _ _ _ .compare => i.assigned = none
  | .dequeue _ _ _ _ (.compareTail _) => i.assigned = none
  | .dequeue _ _ _ _ (.compareHead _) => i.assigned = none
  | .dequeue _ _ _ _ (.moveTail _) => i.assigned = none
  | .dequeue _ _ _ _ .readCount => i.assigned = none
  | .dequeue _ _ _ _ .readNode => i.assigned = none
  | .dequeue _ _ expected _ .readNext => i.assigned = none ∧ expected.pNode ≠ none
  | .dequeue _ _ expected desired .readData =>
    i.assigned = none ∧ expected.pNode ≠ none ∧ desired.pNode ≠ none
  | .dequeue _ outData expected desired .swap =>
    ∀ a, i.assigned = some a → a.Of expected desired outData
  | .dequeue _ outData expected desired .deleteObject =>
    ∃ a, i.assigned = some a ∧ a.Of expected desired outData
  | _ => True

/-- **A step of `TryDequeue`**, not a compare-and-swap that succeeds behind a `continue`, goes on
with what the iteration has read. -/
theorem dequeueStep_ok [DecidableEq κ] {k : Outside} {outData : α} {expected desired : Node16}
    {step : DequeueStep} {assigned : Option (Assignment α)} {pc : Pc κ α}
    (hok : Iteration.Ok ⟨.dequeue q outData expected desired step, assigned⟩)
    (hguard : step = .swap → assigned = none → (m.queue q).mHead ≠ expected)
    (hhead : (m.queue q).mHead.pNode ≠ none)
    (h : dequeueStep k m q outData expected desired step = some (m', pc)) :
    (Iteration.after m ⟨.dequeue q outData expected desired step, assigned⟩ pc).Ok := by
  cases step with
  | fetchSub =>
    cases h
    split
    · trivial
    · rfl
  | fetchAdd | deleteObject =>
    cases h
    trivial
  | compare | compareTail pHead | compareHead pTail =>
    cases h
    split <;> exact hok
  | moveTail step =>
    obtain ⟨⟨m1, next⟩, hmove, hr⟩ := Option.map_eq_some_iff.1 h
    cases hr
    cases next with
    | some next => exact hok
    | none =>
      -- `continue`
      intro a ha
      have hnone : assigned = none := hok
      have hassigned : assigned = some a := ha
      rw [hnone] at hassigned
      cases hassigned
  | readCount =>
    cases h
    exact hok
  | readNode =>
    cases h
    rw [if_neg hhead]
    exact ⟨hok, hhead⟩
  | readNext =>
    obtain ⟨pNode, hp, hr⟩ := Option.map_eq_some_iff.1 h
    cases hr
    have hnone : assigned = none := hok.1
    have hexpected := hok.2
    split
    · intro a ha
      have hassigned : assigned = some a := ha
      rw [hnone] at hassigned
      cases hassigned
    · rename_i hnext
      exact ⟨hnone, hexpected, hnext⟩
  | readData =>
    obtain ⟨pNextNode, hd, hr⟩ := Option.map_eq_some_iff.1 h
    cases hr
    obtain ⟨hnone, hexpected, -⟩ := hok
    obtain ⟨expectedNode, count⟩ := expected
    obtain ⟨desiredNode, count'⟩ := desired
    obtain ⟨pNode, rfl⟩ := Option.ne_none_iff_exists'.1 hexpected
    obtain rfl : desiredNode = some pNextNode := hd
    intro a ha
    cases ha
    exact ⟨rfl, rfl, rfl⟩
  | swap =>
    simp only [dequeueStep] at h
    split at h
    · rename_i heq
      cases h
      cases assigned with
      | none => exact (hguard rfl rfl heq).elim
      | some a => exact ⟨a, rfl, hok a rfl⟩
    · cases h
      rfl

/-- Such a step leaves no head null. -/
theorem dequeueStep_head [DecidableEq κ] {k : Outside} {outData : α} {expected desired : Node16}
    {step : DequeueStep} {assigned : Option (Assignment α)} {pc : Pc κ α}
    (hok : Iteration.Ok ⟨.dequeue q outData expected desired step, assigned⟩)
    (hguard : step = .swap → assigned = none → (m.queue q).mHead ≠ expected)
    (hhead : ∀ q, (m.queue q).mHead.pNode ≠ none)
    (h : dequeueStep k m q outData expected desired step = some (m', pc)) :
    ∀ q, (m'.queue q).mHead.pNode ≠ none := by
  intro q'
  cases dequeueStep_frame h with
  | stays hheads =>
    rw [hheads.head]
    exact hhead q'
  | takes hstep heq hm =>
    subst hstep hm
    cases assigned with
    | none => exact absurd heq (hguard rfl rfl)
    | some a =>
      by_cases hq : q' = q
      · rw [hq, Memory.setHead_self, (hok a rfl).desired]
        exact Option.some_ne_none _
      · rw [Memory.setHead_other hq]
        exact hhead q'

theorem fail_ok [DecidableEq κ] {i : Iteration κ α} {pc : Pc κ α} (hok : i.Ok)
    (h : fail m i.pc = some pc) : (i.after m pc).Ok := by
  obtain ⟨pc0, assigned⟩ := i
  unfold fail at h
  split at h
  · cases h
    trivial
  · cases h
    trivial
  · cases h
    trivial
  · rename_i heq
    dsimp only at heq
    subst heq
    cases h
    intro a ha
    have hnone : assigned = none := hok
    have hassigned : assigned = some a := ha
    rw [hnone] at hassigned
    cases hassigned
  · cases h
    rfl
  · cases h

/-! ## Runs -/

/-- The invariant of the threads. -/
structure ContinueInv (s : WeakState τ κ α) : Prop where
  head : ∀ q, (s.shared.queue q).mHead.pNode ≠ none
  ok : ∀ t, (s.locals t).Ok

theorem ContinueInv.installsRead {s : WeakState τ κ α} (h : ContinueInv s) : InstallsRead s where
  head := h.head
  assigned := by
    intro t q outData expected desired hpc
    have hok := h.ok t
    unfold Iteration.Ok at hok
    rw [hpc] at hok
    exact hok

theorem ContinueInv.set [DecidableEq τ] {s : WeakState τ κ α} (h : ContinueInv s) {t : τ}
    {shared : Memory κ α} {i : Iteration κ α}
    (hhead : ∀ q, (shared.queue q).mHead.pNode ≠ none) (hi : i.Ok) :
    ContinueInv (s.set t shared i) where
  head := hhead
  ok := by
    intro u
    by_cases hut : u = t
    · rw [hut, Threads.set_self]
      exact hi
    · rw [Threads.set_other _ _ _ _ hut]
      exact h.ok u

theorem ContinueInv.act [DecidableEq τ] [DecidableEq κ] {s : WeakState τ κ α} (h : ContinueInv s)
    {t : τ} {a : WeakAction κ α} (hguard : ContinueGuard s t a) {i : Iteration κ α}
    (hact : weakAct a s.shared (s.locals t) = some (m, i)) : ContinueInv (s.set t m i) := by
  have hok := h.ok t
  unfold ContinueGuard at hguard
  generalize s.locals t = i0 at hact hok hguard
  obtain ⟨pc0, assigned⟩ := i0
  cases a with
  | enqueue q data =>
    cases pc0 <;> cases hact
    exact h.set h.head trivial
  | dequeue q outData =>
    cases pc0 <;> cases hact
    exact h.set h.head trivial
  | fail =>
    obtain ⟨pc, hfail, hr⟩ := Option.map_eq_some_iff.1 hact
    cases hr
    exact h.set h.head (fail_ok hok hfail)
  | next k =>
    obtain ⟨⟨m1, pc⟩, hstep, hr⟩ := Option.map_eq_some_iff.1 hact
    cases hr
    cases pc0 with
    | idle => cases hstep
    | enqueue q data step =>
      have hframe := enqueueStep_frame hstep
      refine h.set (fun q' => ?_) ?_
      · rw [hframe.heads.head]
        exact h.head q'
      · obtain rfl | ⟨step', rfl⟩ := hframe.pc <;> trivial
    | dequeue q outData expected desired step =>
      have hswap : step = .swap → assigned = none → (s.shared.queue q).mHead ≠ expected := by
        intro hstep hnone
        subst hstep hnone
        exact hguard
      exact h.set (dequeueStep_head hok hswap h.head hstep)
        (dequeueStep_ok hok hswap (h.head q) hstep)

/-- A step against the guard returns what it has not read. -/
theorem not_installsRead_step [DecidableEq τ] [DecidableEq κ] {s s' : WeakState τ κ α}
    {a : ThreadAction τ (WeakAction κ α) Empty}
    (hguard : ¬ Threads.Guard ContinueGuard (fun _ _ => True) s a)
    (hstep : (weakMachine τ κ α).step s a = some s') : ¬ InstallsRead s' := by
  obtain ⟨t, b, shared, i, rfl, hact, rfl⟩ | ⟨e, -⟩ := Threads.step_cases hstep
  · replace hguard : ¬ ContinueGuard s t b := hguard
    cases b with
    | enqueue q data => exact (hguard trivial).elim
    | dequeue q outData => exact (hguard trivial).elim
    | fail => exact (hguard trivial).elim
    | next k =>
      unfold ContinueGuard at hguard
      dsimp only at hguard
      split at hguard
      · rename_i q outData expected desired hlocal
        have heq := Decidable.not_not.1 hguard
        rw [hlocal] at hact
        have hswap : step k s.shared (.dequeue q outData expected desired .swap) =
            some (s.shared.setHead q desired,
              .dequeue q outData expected desired .deleteObject) := by
          simp only [step, dequeueStep]
          rw [if_pos heq]
        simp only [weakAct, hswap, Option.map_some] at hact
        cases hact
        intro h
        obtain ⟨a, ha, -⟩ := h.assigned t q outData expected desired (by rw [Threads.set_self]; rfl)
        rw [Threads.set_self] at ha
        cases ha
      · exact (hguard trivial).elim
  · exact e.elim

/-- **When `TryDequeue` installs only what it has read**: no compare-and-swap that a `continue` has
come to succeeds. -/
theorem installsRead_iff [DecidableEq τ] [DecidableEq κ] {s s' : WeakState τ κ α}
    (hinit : (weakMachine τ κ α).init s) {as : List (ThreadAction τ (WeakAction κ α) Empty)}
    (hrun : (weakMachine τ κ α).exec s as = some s') :
    (weakMachine τ κ α).Always InstallsRead s as ↔
      (weakMachine τ κ α).Allowed (Threads.Guard ContinueGuard fun _ _ => True) s as := by
  have hinv : ContinueInv s := by
    refine ⟨fun q => ?_, fun t => ?_⟩
    · obtain ⟨maxCount, pDummyNode, -, -, hq⟩ := hinit.1 q
      rw [hq]
      exact Option.some_ne_none _
    · rw [hinit.2 t]
      trivial
  refine Machine.always_iff (I := ContinueInv) (fun s h => h.installsRead) ?_
    (fun s a s' _ => not_installsRead_step) as hinv hrun
  intro s a s' h hok hstep
  obtain ⟨t, b, shared, i, rfl, hact, rfl⟩ | ⟨e, -⟩ := Threads.step_cases hstep
  · exact h.act hok hact
  · exact e.elim

/-! ## A null head -/

/-- A queue with its dummy node, before any call. -/
def fresh : WeakState Unit Unit Nat where
  shared :=
    { queue := fun _ => ⟨10, 0, ⟨some 0, 0⟩, ⟨some 0, 0⟩⟩
      data := fun _ => 0
      pNextNode := fun _ => none
      allocated := {0} }
  locals := fun _ => ⟨.idle, none⟩

theorem fresh_init : (weakMachine Unit Unit Nat).init fresh :=
  ⟨fun _ => ⟨10, 0, by decide, rfl, rfl⟩, fun _ => rfl⟩

/-- The thread takes `n` steps, with node 1 if it needs one. -/
def ownSteps (n : Nat) : List (ThreadAction Unit (WeakAction Unit Nat) Empty) :=
  List.replicate n (.thread () (.next ⟨1, false⟩))

/-- A `TryEnqueue` whose `moveTail` takes `last` for its compare-and-swap. -/
def enqueueOne (last : WeakAction Unit Nat) :
    List (ThreadAction Unit (WeakAction Unit Nat) Empty) :=
  .thread () (.enqueue () 5) :: ownSteps 11 ++ [.thread () last] ++ ownSteps 1

/-- The compare-and-swap of `moveTail` fails spuriously in `TryEnqueue`, so `TryDequeue` moves the tail
and comes to its own by `continue`. That fails, and the next iteration dequeues the value. -/
theorem installsRead_continue :
    (weakMachine Unit Unit Nat).Always InstallsRead fresh
      (enqueueOne .fail ++ [.thread () (.dequeue () 0)] ++ ownSteps 16) := by
  have hrun : (weakMachine Unit Unit Nat).exec fresh
      (enqueueOne .fail ++ [.thread () (.dequeue () 0)] ++ ownSteps 16) = some ⟨_, _⟩ :=
    rfl
  refine (installsRead_iff fresh_init hrun).2 ?_
  repeat' refine And.intro ?_ ?_
  any_goals exact trivial
  -- `expected` is still what it was initialized to
  show (⟨some 0, 0⟩ : Node16) ≠ ⟨none, 0⟩
  decide

/-- **A null head**: one thread, and the compare-and-swap of `moveTail` fails spuriously while the
tail lags, in `TryEnqueue` and then in two iterations of `TryDequeue`. The first `continue` loads
`mHead` into `expected`, the second installs the null pointer that `desired` still holds. -/
theorem not_installsRead_fresh :
    ∃ s', (weakMachine Unit Unit Nat).exec fresh
        (enqueueOne .fail ++ [.thread () (.dequeue () 0)] ++ ownSteps 6 ++ [.thread () .fail] ++
          ownSteps 6 ++ [.thread () .fail] ++ ownSteps 1) = some s' ∧
      (s'.shared.queue ()).mHead.pNode = none ∧
      (s'.locals ()).assigned = none ∧ ¬ InstallsRead s' := by
  refine ⟨_, rfl, rfl, rfl, fun h => ?_⟩
  exact h.head () rfl

end CppNetEngine.LockFreeQueue
