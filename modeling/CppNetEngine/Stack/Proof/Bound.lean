import CppNetEngine.Queue.Proof.Bound
import CppNetEngine.Stack.LockFreeStack
import CppNetEngine.Stack.Proof.TopNode

/-!
# The bound of a lock-free stack

`TryPush` compares `mCount` with `mMaxCount` before it has a node, and counts after it has linked it,
as `TryEnqueue` does. The nodes of a stack are those that `mCount` says and those that the calls in
progress have still to count, so the bound of stacks, as that of queues, holds throughout a run
exactly when every node that is linked finds room (`bounded_iff_room`). Two threads that pass the
comparison together break it (`not_bounded`).
-/

namespace CppNetEngine.LockFreeStack

open TopNode

variable {τ α : Type*}

/-- Neither `Count()` nor what is linked exceeds `mMaxCount`. -/
structure Bounded (m : Memory α) : Prop where
  count : m.mCount ≤ m.mMaxCount
  linked : ∃ nodes, Linked m.links.pNextNode m.links.top.pNode nodes ∧
    (nodes.length : Int) ≤ m.mMaxCount

/-- What the threads of a stack have to do with its nodes. -/
def users : Users (Pc α) (Memory α) Nat where
  links := Memory.links
  count := Memory.mCount
  allocated := Memory.allocated
  popping
    | .tryPop _ (.pop step) => some step
    | _ => none
  pushing
    | .tryPush _ (.push _ step) => some step
    | _ => none
  holds
    | .tryPush _ (.setData p) | .tryPush _ (.push p _) => some p
    | .tryPop _ (.readData p) | .tryPop _ (.deleteObject p) => some p
    | _ => none
  fails
    | .tryPop _ .fetchAdd => 1
    | _ => 0
  pending
    | .tryPush _ .fetchAdd => 1
    | _ => 0

/-- `mCount` is less than `mMaxCount`, also if the calls in progress are counted that make it too
small: those of `TryPop` that have counted down, and not yet taken a node or counted up again, and
those of `TryPush` that have linked a node, and not yet counted it. -/
def HasRoom (s : State τ α) : Prop :=
  Threads.Room s users.claims users.fails users.pending s.shared.mCount s.shared.mMaxCount

/-- What the compare-and-swap of `TryPush` expects, if that is next. -/
def Pc.expects : Pc α → Option (Option Nat)
  | .tryPush _ (.push _ (.swap pExpected)) => some pExpected
  | _ => none

/-- The step is the compare-and-swap of `TryPush`, and succeeds. -/
def Puts (s : State τ α) (t : τ) : Action α → Prop
  | .next k => (s.locals t).expects = some s.shared.links.top.pNode ∧ k.spurious = false
  | .tryPush _ | .tryPop _ => False

/-- The compare-and-swap of `TryPush` succeeds only where the stack has room. -/
def RoomGuard (s : State τ α) (t : τ) (a : Action α) : Prop := Puts s t a → HasRoom s

instance (s : State τ α) (t : τ) : ∀ a, Decidable (Puts s t a)
  | .next _ => inferInstanceAs (Decidable (_ ∧ _))
  | .tryPush _ | .tryPop _ => inferInstanceAs (Decidable False)

instance [Fintype τ] (s : State τ α) (t : τ) (a : Action α) : Decidable (RoomGuard s t a) :=
  inferInstanceAs (Decidable (_ → Threads.Room _ _ _ _ _ _))

variable [DecidableEq τ] {s s' : State τ α} {t : τ} {m : Memory α} {pc : Pc α} {k : Outside}
  {pops : Nat} {l : List Nat}

/-- What a step does to the nodes, of which the thread puts one at the top or does not. -/
def Moved (s : State τ α) (t : τ) (a : Action α) (m : Memory α) (pc : Pc α) (l : List Nat) :
    Prop :=
  ∃ pops' l', users.Inv (s.set t m pc) pops' l' ∧ m.mMaxCount = s.shared.mMaxCount ∧
    ((¬ Puts s t a ∧ l'.length ≤ l.length) ∨ (Puts s t a ∧ l'.length = l.length + 1))

/-- A step that is not the compare-and-swap of `TryPush`. -/
theorem Moved.of_keep {a : Action α} (h : users.Inv (s.set t m pc) pops l)
    (hmax : m.mMaxCount = s.shared.mMaxCount) (hputs : ¬ Puts s t a) : Moved s t a m pc l :=
  ⟨pops, l, h, hmax, .inl ⟨hputs, Nat.le_refl _⟩⟩

omit [DecidableEq τ] in
theorem not_puts {pc₀ : Pc α} (hpc : s.locals t = pc₀) (h : pc₀.expects = none) (a : Action α) :
    ¬ Puts s t a := by
  cases a with
  | next k =>
    rintro ⟨heq, -⟩
    rw [hpc, h] at heq
    cases heq
  | tryPush | tryPop => exact id

omit [DecidableEq τ] in
theorem puts_iff {data : α} {p : Nat} {step : PushStep}
    (hpc : s.locals t = .tryPush data (.push p step)) :
    Puts s t (.next k) ↔ (pushStep k.spurious s.shared.links p step).2 = none := by
  unfold Puts
  rw [hpc]
  cases step with
  | readNode | setNext =>
    constructor
    · rintro ⟨h, -⟩
      cases h
    · intro h
      cases h
  | swap e =>
    simp only [Pc.expects, pushStep, Option.some.injEq]
    split <;> rename_i hcond
    · exact ⟨fun _ => rfl, fun _ => ⟨hcond.1.symm, hcond.2⟩⟩
    · constructor
      · exact fun h => absurd ⟨h.1.symm, h.2⟩ hcond
      · intro h
        cases h

theorem tryPushStep_moved (h : users.Inv s pops l) {data : α} {step : TryPushStep}
    (hpc : s.locals t = .tryPush data step)
    (hguard : CallsGuard s t (.next k)) :
    Moved s t (.next k) (tryPushStep k s.shared data step).1
      (tryPushStep k s.shared data step).2 l := by
  cases step with
  | loadCount =>
    have hputs := not_puts hpc rfl (.next k)
    simp only [tryPushStep]
    split
    · refine .of_keep (h.goto ⟨rfl, rfl, rfl⟩ ?_ nofun nofun ?_) rfl hputs <;> rw [hpc] <;>
        exact ⟨rfl, rfl⟩
    · refine .of_keep (h.goto ⟨rfl, rfl, rfl⟩ ?_ nofun nofun ?_) rfl hputs <;> rw [hpc] <;>
        exact ⟨rfl, rfl⟩
  | newObject =>
    have hfresh := h.fresh (hguard (by rw [hpc]; rfl))
    refine .of_keep (h.keep rfl (fun _ _ => rfl) (fun p hp => .inl ?_) nofun nofun (fun p hp => ?_)
      ?_ (.inr ?_)) rfl (not_puts hpc rfl _)
    · exact Finset.mem_insert_of_mem hp
    · cases hp
      exact ⟨Finset.mem_insert_self _ _, hfresh.1, fun u _ => hfresh.2 u⟩
    · rw [hpc]
      rfl
    · rw [hpc]
      exact Int.le_refl _
  | setData p =>
    refine .of_keep (h.goto ⟨rfl, rfl, rfl⟩ ?_ (fun step hstep => ?_) ?_ ?_) rfl
      (not_puts hpc rfl _)
    · rw [hpc]
      exact ⟨rfl, rfl⟩
    · cases hstep
      rfl
    · rw [hpc]
      exact fun p => id
    · rw [hpc]
      exact ⟨rfl, rfl⟩
  | push p step =>
    have hputs := puts_iff (k := k) hpc
    simp only [tryPushStep]
    cases hs : pushStep k.spurious s.shared.links p step with
    | mk links r =>
      rw [hs] at hputs
      have hI := h.push (m := { s.shared with links := links })
        (fun r => .tryPush data (r.elim .fetchAdd (.push p)))
        (by rw [hpc]; rfl) (by rw [hpc]; rfl) hs ⟨rfl, rfl, rfl⟩ (fun _ => ⟨rfl, rfl⟩) rfl
        (fun r => by cases r <;> rfl) (by rw [hpc]; rfl)
        (fun r => by rw [hpc]; cases r <;> exact ⟨rfl, rfl⟩)
      rcases hI with ⟨hI, step', rfl⟩ | ⟨rfl, hI⟩
      · exact ⟨pops, l, hI, rfl, .inl ⟨fun hp => (nomatch hputs.1 hp), Nat.le_refl _⟩⟩
      · exact ⟨pops, p :: l, hI, rfl, .inr ⟨hputs.2 rfl, rfl⟩⟩
  | fetchAdd =>
    refine .of_keep (h.addCount ⟨rfl, rfl⟩ nofun rfl rfl ?_ (.inr ?_)) rfl (not_puts hpc rfl _)
    · simp [users, Users.claims, hpc, tryPushStep]
    · simp [users, hpc, tryPushStep]

theorem tryPopStep_moved (h : users.Inv s pops l) {outData : α} {step : TryPopStep}
    (hpc : s.locals t = .tryPop outData step)
    (hs : tryPopStep k s.shared outData step = some (m, pc)) : Moved s t (.next k) m pc l := by
  have hputs := not_puts hpc rfl (.next k)
  cases step with
  | fetchSub =>
    simp only [tryPopStep] at hs
    split at hs <;> rename_i hn <;> cases hs
    · refine .of_keep (h.addCount ⟨rfl, rfl⟩ (by rintro _ ⟨⟩) rfl rfl ?_ (.inr ?_)) rfl hputs
      · simp [users, Users.claims, hpc]
      · simp [users, hpc]
    · refine .of_keep (h.addCount ⟨rfl, rfl⟩ (fun step hstep => ?_) rfl rfl ?_ (.inl ?_)) rfl hputs
      · cases hstep
        rfl
      · simp [users, Users.claims, hpc]
      · simp only [users]
        omega
  | fetchAdd =>
    cases hs
    refine .of_keep (h.addCount ⟨rfl, rfl⟩ (by rintro _ ⟨⟩) rfl rfl ?_ (.inr ?_)) rfl hputs
    · simp [users, Users.claims, hpc]
    · simp [users, hpc]
  | pop step =>
    obtain ⟨⟨links, r⟩, hpop, heq⟩ := Option.map_eq_some_iff.1 hs
    cases heq
    have hI := h.pop (m := { s.shared with links := links })
      (fun r => .tryPop outData (r.elim .pop .readData)) (by rw [hpc]; rfl) hpop
      (fun n _ heq => heq) ⟨rfl, rfl, rfl⟩ (fun _ => ⟨rfl, rfl⟩) (fun _ => ⟨rfl, rfl, rfl⟩)
      (fun r => by rw [hpc]; cases r <;> exact ⟨rfl, rfl⟩)
    rcases hI with ⟨hI, step', rfl⟩ | ⟨p, l', rfl, rfl, hI⟩
    · exact .of_keep hI rfl hputs
    · exact ⟨pops + 1, l', hI, rfl, .inl ⟨hputs, Nat.le_succ _⟩⟩
  | readData p =>
    cases hs
    refine .of_keep (h.goto ⟨rfl, rfl, rfl⟩ ?_ (by rintro _ ⟨⟩) ?_ ?_) rfl hputs <;> rw [hpc]
    · exact ⟨rfl, rfl⟩
    · exact fun p => id
    · exact ⟨rfl, rfl⟩
  | deleteObject p =>
    cases hs
    refine .of_keep (h.keep rfl (fun _ _ => rfl) (fun p' hp' => ?_) (by rintro _ ⟨⟩)
      (by rintro _ ⟨⟩) (by rintro _ ⟨⟩) ?_ (.inr ?_)) rfl hputs
    · by_cases hp : p' = p
      · right
        rw [hpc, hp]
        rfl
      · exact .inl (Finset.mem_erase.2 ⟨hp, hp'⟩)
    · rw [hpc]
      rfl
    · rw [hpc]
      exact Int.le_refl _

/-- **A step of a thread** keeps the invariant of the nodes. -/
theorem act_moved (h : users.Inv s pops l) {a : Action α} (hguard : CallsGuard s t a)
    (hs : act a s.shared (s.locals t) = some (m, pc)) : Moved s t a m pc l := by
  cases a with
  | next k =>
    change step k s.shared (s.locals t) = some (m, pc) at hs
    cases hpc : s.locals t with
    | idle =>
      rw [hpc] at hs
      cases hs
    | tryPush data step =>
      rw [hpc] at hs
      have hmoved := tryPushStep_moved h hpc hguard
      rw [Option.some.inj hs] at hmoved
      exact hmoved
    | tryPop outData step =>
      rw [hpc] at hs
      exact tryPopStep_moved h hpc hs
  | tryPush | tryPop =>
    cases hpc : s.locals t <;> rw [hpc] at hs <;> cases hs
    refine .of_keep (h.goto ⟨rfl, rfl, rfl⟩ ?_ nofun nofun ?_) rfl (not_puts hpc rfl _) <;>
      rw [hpc] <;> exact ⟨rfl, rfl⟩

/-! ## The bound -/

/-- The invariant, with the bound. -/
def BoundInv (s : State τ α) : Prop :=
  ∃ pops l, users.Inv s pops l ∧ (l.length : Int) ≤ s.shared.mMaxCount

omit [DecidableEq τ] in
theorem bounded_iff (h : users.Inv s pops l) :
    Bounded s.shared ↔ (l.length : Int) ≤ s.shared.mMaxCount := by
  constructor
  · rintro ⟨-, nodes, hnodes, hle⟩
    rw [h.links.linked.unique hnodes]
    exact hle
  · intro hle
    have hcount : s.shared.mCount ≤ l.length := h.count.le
    exact ⟨by omega, l, h.links.linked, hle⟩

omit [DecidableEq τ] in
theorem inv_init (hinit : s.shared.Initial) (hidle : ∀ t, s.locals t = .idle) :
    users.Inv s 0 [] := by
  obtain ⟨hcount, htop, -⟩ := hinit
  refine ⟨⟨?_, List.nodup_nil, ?_⟩, nofun, fun t step hstep => ?_, fun t p step hp => ?_,
    fun t p hp => ?_, fun t u p hp => ?_, ?_⟩
  · change s.shared.links.top.pNode = none
    rw [htop]
  · change s.shared.links.top.count = 0
    rw [htop]
  · rw [hidle t] at hstep
    cases hstep
  · rw [hidle t] at hp
    cases hp
  · rw [hidle t] at hp
    cases hp
  · rw [hidle t] at hp
    cases hp
  · change Threads.Counted s users.claims users.fails users.pending s.shared.mCount 0
    rw [hcount]
    refine .init (n := 0) fun t => ?_
    rw [hidle t]
    exact ⟨rfl, rfl, rfl⟩

/-- **The bound of a stack holds throughout a run** exactly when it is not negative, and every node
that is linked finds room. -/
theorem always_bounded_iff {as : List (ThreadAction τ (Action α) Empty)}
    (hinit : (machine τ α).init s)
    (hallowed : (machine τ α).Allowed (Threads.Guard CallsGuard fun _ _ => True) s as)
    (he : (machine τ α).exec s as = some s') :
    (machine τ α).Always (fun s => Bounded s.shared) s as ↔
      0 ≤ s.shared.mMaxCount ∧
        (machine τ α).Allowed (Threads.Guard RoomGuard fun _ _ => True) s as := by
  have hinv := inv_init hinit.1 hinit.2
  have hiff : 0 ≤ s.shared.mMaxCount →
      ((machine τ α).Always (fun s => Bounded s.shared) s as ↔
        (machine τ α).Allowed (Threads.Guard RoomGuard fun _ _ => True) s as) := by
    intro hmax
    refine Machine.always_iff_of_allowed (I := BoundInv) ?_ ?_ ?_ as ⟨0, [], hinv, hmax⟩ hallowed he
    · rintro s ⟨pops, l, hI, hle⟩
      exact (bounded_iff hI).2 hle
    · rintro s a s' ⟨pops, l, hI, hle⟩ hguard hroom hs
      obtain ⟨t, b, m, pc, rfl, hact, rfl⟩ | ⟨e, -⟩ := Threads.step_cases hs
      · obtain ⟨pops', l', hI', hmax', ⟨-, hlen⟩ | ⟨hputs, hlen⟩⟩ := act_moved hI hguard hact
        · refine ⟨pops', l', hI', ?_⟩
          rw [Threads.set_shared]
          omega
        · refine ⟨pops', l', hI', ?_⟩
          have hlt : (l.length : Int) < s.shared.mMaxCount := hI.count.room_iff.1 (hroom hputs)
          rw [Threads.set_shared]
          omega
      · exact e.elim
    · rintro s a s' ⟨pops, l, hI, hle⟩ hguard hroom hs hbounded
      obtain ⟨t, b, m, pc, rfl, hact, rfl⟩ | ⟨e, -⟩ := Threads.step_cases hs
      · obtain ⟨pops', l', hI', hmax', ⟨hputs, -⟩ | ⟨hputs, hlen⟩⟩ := act_moved hI hguard hact
        · exact hroom fun hp => absurd hp hputs
        · have hle' := (bounded_iff hI').1 hbounded
          rw [Threads.set_shared] at hle'
          exact hroom fun _ => hI.count.room_iff.2 (by omega)
      · exact e.elim
  constructor
  · intro halways
    have hmax : 0 ≤ s.shared.mMaxCount := by
      have hfirst : Bounded s.shared := by
        cases as with
        | nil => exact halways
        | cons => exact halways.1
      exact (bounded_iff hinv).1 hfirst
    exact ⟨hmax, (hiff hmax).1 halways⟩
  · rintro ⟨hmax, hroom⟩
    exact (hiff hmax).2 hroom

/-! ## Queues and stacks -/

/-- **The bounds of queues and of stacks hold throughout a run** exactly when they are not negative,
and every compare-and-swap that links a node finds room for it; queues link their nodes at tails. -/
theorem bounded_iff_room {τ κ α : Type*} [DecidableEq τ] [DecidableEq κ] :
    (∀ (s s' : LockFreeQueue.State τ κ α)
        (as : List (ThreadAction τ (LockFreeQueue.Action κ α) Empty)),
      (LockFreeQueue.machine τ κ α).init s →
      (LockFreeQueue.machine τ κ α).Allowed (Threads.Guard (fun s t a =>
        LockFreeQueue.CallsGuard s t a ∧ LockFreeQueue.LinkGuard s t) fun _ _ => True) s as →
      (LockFreeQueue.machine τ κ α).exec s as = some s' →
      ((LockFreeQueue.machine τ κ α).Always (fun s => ∀ q, LockFreeQueue.Bounded s.shared q) s as ↔
        (LockFreeQueue.machine τ κ α).Allowed
          (Threads.Guard LockFreeQueue.RoomGuard fun _ _ => True) s as)) ∧
    ∀ (s s' : State τ α) (as : List (ThreadAction τ (Action α) Empty)),
      (machine τ α).init s →
      (machine τ α).Allowed (Threads.Guard CallsGuard fun _ _ => True) s as →
      (machine τ α).exec s as = some s' →
      ((machine τ α).Always (fun s => Bounded s.shared) s as ↔ 0 ≤ s.shared.mMaxCount ∧
        (machine τ α).Allowed (Threads.Guard RoomGuard fun _ _ => True) s as) :=
  ⟨fun _ _ _ => LockFreeQueue.always_bounded_iff, fun _ _ _ => always_bounded_iff⟩

/-- A stack that holds one value. -/
def oneValue : State Bool Nat :=
  ⟨⟨1, 0, ⟨⟨none, 0⟩, fun _ => none⟩, fun _ => 0, ∅⟩, fun _ => .idle⟩

theorem oneValue_init : (machine Bool Nat).init oneValue := ⟨⟨rfl, rfl, rfl⟩, fun _ => rfl⟩

/-- A thread takes steps; `NewObject` gives it the node at the address. -/
def steps (t : Bool) (n address : Nat) : List (ThreadAction Bool (Action Nat) Empty) :=
  List.replicate n (.thread t (.next ⟨false, address⟩))

/-- One thread enqueues and pushes a value, and then the other finds no room. -/
theorem bounded_iff_room_inTurn :
    (LockFreeQueue.machine Bool Bool Nat).Always (fun s => ∀ q, LockFreeQueue.Bounded s.shared q)
        LockFreeQueue.twoQueues
        ([.thread false (.construct false 1 0), .thread false (.enqueue false 7)] ++
          LockFreeQueue.steps false 13 1 ++ .thread true (.enqueue false 8) ::
          LockFreeQueue.steps true 1 2) ∧
      (machine Bool Nat).Always (fun s => Bounded s.shared) oneValue
        (.thread false (.tryPush 7) :: steps false 7 1 ++ .thread true (.tryPush 8) ::
          steps true 1 2) := by
  obtain ⟨hqueue, hstack⟩ := bounded_iff_room (τ := Bool) (κ := Bool) (α := Nat)
  constructor
  · refine (hqueue _ _ _ ⟨⟨fun _ => rfl, rfl⟩, fun _ => rfl⟩ ?_ rfl).2 ?_
    · decide +kernel
    · decide +kernel
  · refine (hstack _ _ _ oneValue_init ?_ rfl).2 ⟨by decide, ?_⟩
    · decide +kernel
    · decide +kernel

/-- **Two threads compare before either counts**: a queue and a stack for one value each hold two,
and their `Count()` is two. -/
theorem not_bounded : ∃ (s : LockFreeQueue.State Bool Bool Nat) (s' : State Bool Nat),
    (LockFreeQueue.machine Bool Bool Nat).ReachableIf (Threads.Guard (fun s t a =>
      LockFreeQueue.CallsGuard s t a ∧ LockFreeQueue.LinkGuard s t) fun _ _ => True) s ∧
    (s.shared.queue false).mMaxCount = 1 ∧ (s.shared.queue false).mCount = 2 ∧
    LockFreeQueue.Reaches s.shared false [8, 7] ∧ ¬ LockFreeQueue.Bounded s.shared false ∧
    (machine Bool Nat).ReachableIf (Threads.Guard CallsGuard fun _ _ => True) s' ∧
    s'.shared.mMaxCount = 1 ∧ s'.shared.mCount = 2 ∧
    Linked s'.shared.links.pNextNode s'.shared.links.top.pNode [1, 2] ∧ ¬ Bounded s'.shared := by
  let run := [.thread false (.construct false 1 0), .thread false (.enqueue false 7)] ++
    LockFreeQueue.steps false 1 0 ++ .thread true (.enqueue false 8) ::
    LockFreeQueue.steps true 13 2 ++ LockFreeQueue.steps false 12 1
  have hqueue : (LockFreeQueue.machine Bool Bool Nat).Allowed (Threads.Guard (fun s t a =>
      LockFreeQueue.CallsGuard s t a ∧ LockFreeQueue.LinkGuard s t) fun _ _ => True)
      LockFreeQueue.twoQueues run := by
    decide +kernel
  let run' := .thread false (.tryPush 7) :: steps false 1 0 ++ .thread true (.tryPush 8) ::
    steps true 7 2 ++ steps false 6 1
  have hstack : (machine Bool Nat).Allowed (Threads.Guard CallsGuard fun _ _ => True)
      oneValue run' := by
    decide +kernel
  refine ⟨_, _, Machine.ReachableIf.exec run
    (.init (s := LockFreeQueue.twoQueues) ⟨⟨fun _ => rfl, rfl⟩, fun _ => rfl⟩) hqueue rfl, rfl, rfl,
    ⟨[0, 2, 1], ⟨rfl, rfl, rfl, rfl⟩, rfl⟩, fun h => absurd h.count (by decide),
    Machine.ReachableIf.exec run' (.init (s := oneValue) oneValue_init) hstack rfl, rfl, rfl,
    ⟨rfl, rfl, rfl⟩, fun h => absurd h.count (by decide)⟩

end CppNetEngine.LockFreeStack
