import CppNetEngine.Lib.Progress
import CppNetEngine.Stack.Proof.Lifo
import Mathlib.Tactic.Ring

/-!
# Lock-freedom

A thread starts its loop again only because another has changed the top since, so it is never the
case that all threads only wait for each other: among so many steps some call returns (`lockFree`).
That it is the call of a given thread is not said; the others can always be faster.
-/

namespace CppNetEngine.TopNode

variable {γ : Type*} [DecidableEq γ]

/-- The steps to the end of the loop of `TryPop` and `Alloc`, if nobody else changes the top. -/
def popLeft (top : Node16 γ) : PopStep γ → Nat
  | .readCount => 4
  | .readNode count => if count = top.count then 3 else 7
  | .readNext count pNode => if top = ⟨pNode, count⟩ then 2 else 6
  | .swap count pNode _ => if top = ⟨some pNode, count⟩ then 1 else 5

/-- The steps to the end of the loop of `TryPush` and `Free`, if nobody else changes the top. -/
def pushLeft (top : Node16 γ) : PushStep → Nat
  | .readNode => 3
  | .setNext pExpected => if top.pNode = pExpected then 2 else 5
  | .swap pExpected => if top.pNode = pExpected then 1 else 4

theorem popLeft_le (top : Node16 γ) (step : PopStep γ) : popLeft top step ≤ 7 := by
  cases step <;> simp only [popLeft] <;> (try split) <;> decide

omit [DecidableEq γ] in
theorem pushLeft_le (top : Node16 γ) (step : PushStep) : pushLeft top step ≤ 5 := by
  cases step <;> simp only [pushLeft] <;> (try split) <;> decide

/-- Whoever changes the top gives others at most four more steps to do. -/
theorem popLeft_change (top top' : Node16 γ) (step : PopStep γ) :
    popLeft top' step ≤ popLeft top step + 4 := by
  cases step <;> simp only [popLeft] <;> (repeat' split) <;> omega

omit [DecidableEq γ] in
theorem pushLeft_change (top top' : Node16 γ) (step : PushStep) :
    pushLeft top' step ≤ pushLeft top step + 4 := by
  cases step <;> simp only [pushLeft] <;> (repeat' split) <;> omega

/-- **A step of the loop of `TryPop`** that does not fail without a reason: there is less left to
do, or it has taken a node. -/
theorem popStep_left [Add γ] [One γ] {m m' : Links γ} {step : PopStep γ} {r : PopStep γ ⊕ Nat}
    (hs : popStep false m step = some (m', r)) :
    (m' = m ∧ ∃ step', r = .inl step' ∧ popLeft m.top step' < popLeft m.top step) ∨
      ∃ p, r = .inr p := by
  cases step with
  | readCount =>
    cases hs
    exact .inl ⟨rfl, _, rfl, by simp [popLeft]⟩
  | readNode count =>
    cases hs
    refine .inl ⟨rfl, _, rfl, ?_⟩
    by_cases hcount : count = m.top.count
    · subst hcount
      simp [popLeft]
    · have hne : m.top ≠ ⟨m.top.pNode, count⟩ := fun h => hcount (congrArg Node16.count h).symm
      simp [popLeft, hcount, hne]
  | readNext count pNode =>
    obtain ⟨p, rfl, heq⟩ := Option.map_eq_some_iff.1 hs
    cases heq
    refine .inl ⟨rfl, _, rfl, ?_⟩
    simp only [popLeft]
    split <;> omega
  | swap count pNode pNextNode =>
    simp only [popStep] at hs
    split at hs <;> rename_i hcond <;> cases hs
    · exact .inr ⟨_, rfl⟩
    · refine .inl ⟨rfl, _, rfl, ?_⟩
      have hne : m.top ≠ ⟨some pNode, count⟩ := fun h => hcond ⟨h, trivial⟩
      simp [popLeft, hne]

omit [DecidableEq γ] in
/-- **A step of the loop of `TryPush`** that does not fail without a reason. -/
theorem pushStep_left {m m' : Links γ} {pDesired : Nat} {step : PushStep} {r : Option PushStep}
    (hs : pushStep false m pDesired step = (m', r)) :
    (m'.top = m.top ∧ ∃ step', r = some step' ∧ pushLeft m.top step' < pushLeft m.top step) ∨
      r = none := by
  cases step with
  | readNode =>
    cases hs
    exact .inl ⟨rfl, _, rfl, by simp [pushLeft]⟩
  | setNext pExpected =>
    cases hs
    refine .inl ⟨rfl, _, rfl, ?_⟩
    simp only [pushLeft]
    split <;> omega
  | swap pExpected =>
    simp only [pushStep] at hs
    split at hs <;> rename_i hcond <;> cases hs
    · exact .inr rfl
    · refine .inl ⟨rfl, _, rfl, ?_⟩
      have hne : m.top.pNode ≠ pExpected := fun h => hcond ⟨h, trivial⟩
      simp [pushLeft, hne]

end CppNetEngine.TopNode

namespace CppNetEngine.LockFreeStack

open TopNode Threads

variable {τ α : Type*}

/-- The steps to the return of a call, if nobody else changes the top; a call for a thread without
one. -/
def left (m : Memory α) : Pc α → Nat
  | .idle => 7
  | .tryPush _ step => match step with
    | .loadCount => 6
    | .newObject => 5
    | .setData _ => 4
    | .push _ step => pushLeft m.links.top step
    | .fetchAdd => 0
  | .tryPop _ step => match step with
    | .fetchSub => 6
    | .pop step => popLeft m.links.top step + 1
    | .readData _ => 1
    | .fetchAdd | .deleteObject _ => 0

/-- How often the thread can still change the top before it returns. -/
def ways : Pc α → Nat
  | .tryPush _ .fetchAdd => 0
  | .tryPop _ .fetchAdd | .tryPop _ (.readData _) | .tryPop _ (.deleteObject _) => 0
  | _ => 1

theorem left_le (m : Memory α) (pc : Pc α) : left m pc ≤ 8 := by
  rcases pc with _ | ⟨_, _ | _ | _ | ⟨_, step⟩ | _⟩ | ⟨_, _ | _ | step | _ | _⟩ <;>
    simp only [left] <;> (try omega)
  · exact Nat.le_trans (pushLeft_le _ step) (by omega)
  · exact Nat.succ_le_succ (popLeft_le _ step)

theorem ways_le (pc : Pc α) : ways pc ≤ 1 := by
  unfold ways
  split <;> decide

/-- Who leaves the top as it is leaves the others alone. -/
theorem left_congr {m m' : Memory α} (h : m'.links.top = m.links.top) (pc : Pc α) :
    left m' pc = left m pc := by
  rcases pc with _ | ⟨_, _ | _ | _ | _ | _⟩ | ⟨_, _ | _ | _ | _ | _⟩ <;> simp only [left, h]

theorem left_change (m m' : Memory α) (pc : Pc α) : left m' pc ≤ left m pc + 4 := by
  rcases pc with _ | ⟨_, _ | _ | _ | ⟨_, step⟩ | _⟩ | ⟨_, _ | _ | step | _ | _⟩ <;>
    simp only [left] <;> (try omega)
  · exact pushLeft_change _ _ step
  · have := popLeft_change m.links.top m'.links.top step
    omega

/-- A step that is not the last of a call has less left to do, or has changed the top for the last
time. -/
abbrev Advances (m m' : Memory α) (pc pc' : Pc α) : Prop :=
  Quiet left ways m m' pc pc' ∨ InTheWay left ways 4 m m' pc pc'

theorem Advances.of_top {m m' : Memory α} {pc pc' : Pc α} (htop : m'.links.top = m.links.top)
    (hleft : left m pc' < left m pc) (hways : ways pc' ≤ ways pc) : Advances m m' pc pc' :=
  .inl ⟨by rw [left_congr htop]; exact hleft, hways, fun l => Nat.le_of_eq (left_congr htop l)⟩

theorem Advances.of_ways {m m' : Memory α} {pc pc' : Pc α} (hleft : left m' pc' ≤ 4)
    (hways : ways pc' < ways pc) : Advances m m' pc pc' :=
  .inr ⟨Nat.le_trans hleft (Nat.le_add_left _ _), hways, left_change m m'⟩

section

variable {s s' : State τ α} {t : τ} {m m' : Memory α} {pc : Pc α} {k : Outside}

theorem tryPushStep_advances {data : α} {step : TryPushStep} (hk : k.spurious = false)
    (hret : returns m (.tryPush data step) = none) :
    Advances m (tryPushStep k m data step).1 (.tryPush data step)
      (tryPushStep k m data step).2 := by
  cases step with
  | loadCount =>
    by_cases hfull : m.mMaxCount ≤ m.mCount
    · rw [returns, if_pos hfull] at hret
      cases hret
    · simp only [tryPushStep, if_neg hfull]
      exact .of_top rfl (Nat.lt_succ_self 5) (Nat.le_refl 1)
  | newObject => exact .of_top rfl (Nat.lt_succ_self 4) (Nat.le_refl 1)
  | setData p => exact .of_top rfl (Nat.lt_succ_self 3) (Nat.le_refl 1)
  | push p step =>
    simp only [tryPushStep]
    cases hs : pushStep k.spurious m.links p step with
    | mk links r =>
      rw [hk] at hs
      obtain ⟨htop, step', rfl, hlt⟩ | rfl := pushStep_left hs
      · exact .of_top htop hlt (Nat.le_refl 1)
      · exact .of_ways (Nat.zero_le 4) Nat.one_pos
  | fetchAdd => cases hret

theorem tryPopStep_advances {outData : α} {step : TryPopStep} (hk : k.spurious = false)
    (hret : returns m (.tryPop outData step) = none)
    (hs : tryPopStep k m outData step = some (m', pc)) :
    Advances m m' (.tryPop outData step) pc := by
  cases step with
  | fetchSub =>
    cases hs
    split
    · exact .of_top rfl (Nat.succ_pos 5) (Nat.zero_le 1)
    · exact .of_top rfl (Nat.lt_succ_self 5) (Nat.le_refl 1)
  | pop step =>
    obtain ⟨⟨links, r⟩, hpop, heq⟩ := Option.map_eq_some_iff.1 hs
    cases heq
    rw [hk] at hpop
    obtain ⟨rfl, step', rfl, hlt⟩ | ⟨p, rfl⟩ := popStep_left hpop
    · exact .of_top rfl (Nat.succ_lt_succ hlt) (Nat.le_refl 1)
    · exact .of_ways (by decide : 1 ≤ 4) Nat.one_pos
  | readData p =>
    cases hs
    exact .of_top rfl Nat.one_pos (Nat.le_refl 0)
  | fetchAdd | deleteObject => cases hret

/-- A `compare_exchange_weak` does not fail without a reason. -/
def Fair : Action α → Prop
  | .next k => k.spurious = false
  | .tryPush _ | .tryPop _ => True

theorem act_advances {a : Action α} (hfair : Fair a)
    (hsee : ∀ e ∈ seen s (.thread t a), ¬ e.IsRet)
    (hs : act a s.shared (s.locals t) = some (m, pc)) : Advances s.shared m (s.locals t) pc := by
  cases a with
  | next k =>
    have hret : returns s.shared (s.locals t) = none := by
      cases hret : returns s.shared (s.locals t) with
      | none => rfl
      | some r => exact absurd trivial (hsee (.ret t r.1 r.2) (by simp [seen, hret]))
    change step k s.shared (s.locals t) = some (m, pc) at hs
    generalize s.locals t = pc₀ at hret hs ⊢
    cases pc₀ with
    | idle => cases hs
    | tryPush data step =>
      have hadvances := tryPushStep_advances hfair hret
      rw [Option.some.inj hs] at hadvances
      exact hadvances
    | tryPop outData step => exact tryPopStep_advances hfair hret hs
  | tryPush | tryPop =>
    generalize s.locals t = pc₀ at hs ⊢
    cases pc₀ <;> cases hs
    exact .of_top rfl (Nat.lt_succ_self 6) (Nat.le_refl 1)

variable [DecidableEq τ]

omit [DecidableEq τ] in
theorem step_isSome {pops : Nat} {l : List Nat} (h : users.Inv s pops l) (hbusy : s.locals t ≠ .idle)
    (k : Outside) : (step k s.shared (s.locals t)).isSome := by
  cases hpc : s.locals t with
  | idle => exact absurd hpc hbusy
  | tryPush data step => rfl
  | tryPop outData step =>
    cases step with
    | pop step =>
      have hstep : users.popping (s.locals t) = some step := by rw [hpc]; rfl
      have hsome := h.popStep_isSome hstep k.spurious s.shared.links
      simp only [LockFreeStack.step, tryPopStep, Option.isSome_map]
      exact hsome
    | fetchSub | fetchAdd | readData | deleteObject => rfl

/-- **Lock-freedom.** A thread can always go on with its call, and among so many steps of threads,
of which none fails without a reason, some call returns. -/
theorem lockFree [Fintype τ]
    (h : (machine τ α).ReachableIf (Guard CallsGuard fun _ _ => True) s) :
    (∀ t k, s.locals t ≠ .idle → ((machine τ α).step s (.thread t (.next k))).isSome) ∧
    ∀ as s', (machine τ α).exec s as = some s' →
      (∀ t k, .thread t (.next k) ∈ as → k.spurious = false) →
      Fintype.card τ * (4 * Fintype.card τ + 9) < as.length →
      ∃ t c r, .ret t c r ∈ (machine τ α).watch seen s as := by
  constructor
  · intro t k hbusy
    obtain ⟨e, hobserved⟩ : ∃ e, Observed e s := h.observed
    obtain ⟨-, l, ⟨⟨pops, hinv⟩, -⟩, -⟩ := followed hobserved
    exact Option.isSome_map.trans (step_isSome hinv hbusy k)
  · intro as s' he hspurious hlength
    have hseen := Threads.exists_seen left ways 4 left_le ways_le
      (fun s t a m pc hfair hsee hs => act_advances hfair hsee hs) as ?_ he ?_
    · obtain ⟨e, he, hret⟩ := hseen
      cases e with
      | call => exact hret.elim
      | ret t c r => exact ⟨t, c, r, he⟩
    · intro t a ha
      cases a with
      | next k => exact hspurious t k ha
      | tryPush | tryPop => trivial
    · refine Nat.lt_of_le_of_lt (Nat.le_of_eq ?_) hlength
      ring

/-- A value is pushed and popped three times. -/
theorem lockFree_two :
    (∀ t k, oneValue.locals t ≠ .idle →
      ((machine Bool Nat).step oneValue (.thread t (.next k))).isSome) ∧
    ∃ t c r, .ret t c r ∈ (machine Bool Nat).watch seen oneValue
      (List.replicate 3 (.thread false (.tryPush 7) :: steps false 7 1 ++
        .thread true (.tryPop 0) :: steps true 7 0)).flatten := by
  obtain ⟨hnext, hreturn⟩ := lockFree (.init oneValue_init)
  refine ⟨hnext, hreturn _ _ rfl ?_ (by decide)⟩
  intro t k hk
  simp [steps] at hk
  rcases hk with h | h | h | h | h | h <;> rw [h.2]

end

end CppNetEngine.LockFreeStack
