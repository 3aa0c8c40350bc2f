import CppNetEngine.Timer.Ticking
import CppNetEngine.Timer.Proof.NeverEarly
import Mathlib.Tactic.Ring

/-!
# Wheel time and the clock

`mbTicking` lets one thread at a time advance `mLastTickTime` and run the loop (`Inv.single`), so
that `mLastTickTime` is ahead of `mCurrentTick` by the ticks that thread has still to process, and
by none when `mbTicking` is false. The loop counts in 32 bits: it ends just where fewer ticks than
that are due (`ends_loop`, `not_ends_of_long`), which is when wheel time does not drift
(`noDrift_iff`).
-/

namespace CppNetEngine.TickingWheel

open ClockedWheel (nsPerMs)

variable {α τ : Type}

/-! ## The property -/

/-- After finitely many steps of its own a thread's call returns, or computes the number of ticks it
makes, whatever happens in between. -/
inductive Ends : Pc α → Prop
  | idle : Ends .idle
  | elapsed (now : Nat) : Ends (.elapsed now)
  | next {pc : Pc α} :
      (∀ (s s' : TickingWheel α) (pc' : Pc α), s.next pc = some (s', pc') → Ends pc') → Ends pc

/-- The reading of a `Tick` that has made its ticks. -/
def Pc.reading : Pc α → Option Nat
  | .turnBack now => some now
  | .store now _ => some now
  | .execute now _ => some now
  | _ => none

/-- `mLastTickTime` is the time of tick number `mCurrentTick + ahead`. -/
def OnTime (t0 : Nat) (s : TickingWheel α) (ahead : Nat) : Prop :=
  s.mLastTickTime = t0 + s.mTickIntervalMs * (s.mCurrentTick + ahead) * nsPerMs

/-- Wheel time follows the clock. -/
structure NoDrift (t0 : Nat) (s : Threads τ (Pc α) (TickingWheel α)) : Prop where
  ends : ∀ t, Ends (s.locals t)
  onTime : s.shared.mbTicking = false → OnTime t0 s.shared 0
  reading : ∀ t now, (s.locals t).reading = some now →
    now < s.shared.mLastTickTime + s.shared.mTickIntervalMs * nsPerMs
  once : s.shared.processed = List.range s.shared.mCurrentTick

/-- A `Tick` that has read the clock finds fewer intervals than its counter can count. -/
def TickGuard (s : Threads τ (Pc α) (TickingWheel α)) (t : τ) : Act α → Prop
  | .next => match s.locals t with
    | .elapsed now => s.shared.tickCount now < counterSize
    | _ => True
  | _ => True

/-! ## The loop -/

theorem ends_execute (now : Nat) (executeList : List (TimingNode α)) :
    Ends (.execute now executeList) := by
  induction executeList with
  | nil =>
    refine .next fun s s' pc' h => ?_
    cases h
    exact .idle
  | cons node rest ih =>
    refine .next fun s s' pc' h => ?_
    cases h
    exact ih

theorem ends_store (now : Nat) (executeList : List (TimingNode α)) :
    Ends (.store now executeList) := by
  refine .next fun s s' pc' h => ?_
  cases h
  exact ends_execute now executeList

/-- The loop ends when its counter can reach the number of ticks. -/
theorem ends_loop (now : Nat) {n : Nat} (hn : n < counterSize) : ∀ (todo : Nat) {i : Nat}
    (executeList : List (TimingNode α)), n - i ≤ todo → Ends (.loop now i n executeList) := by
  intro todo
  induction todo with
  | zero =>
    intro i executeList htodo
    refine .next fun s s' pc' h => ?_
    simp only [TickingWheel.next] at h
    rw [if_neg (by omega)] at h
    cases h
    exact ends_store now executeList
  | succ todo ih =>
    intro i executeList htodo
    refine .next fun s s' pc' h => ?_
    simp only [TickingWheel.next] at h
    split at h
    · rename_i hi
      cases h
      rw [Nat.mod_eq_of_lt (by omega)]
      exact ih _ (by omega)
    · cases h
      exact ends_store now executeList

theorem ends_advance (now : Nat) {n : Nat} (hn : n < counterSize) :
    Ends (.advance now n : Pc α) := by
  refine .next fun s s' pc' h => ?_
  cases h
  exact ends_loop now hn n [] (by omega)

/-- The counter of a longer loop starts over before it gets there. -/
def Long : Pc α → Prop
  | .advance _ n => counterSize ≤ n
  | .loop _ i n _ => i < counterSize ∧ counterSize ≤ n
  | _ => False

theorem not_ends_of_long {pc : Pc α} (h : Ends pc) : ¬ Long pc := by
  induction h with
  | idle => exact id
  | elapsed now => exact id
  | @next pc hnext ih =>
    intro hlong
    cases pc with
    | advance now n =>
      exact ih (TickingWheel.new α 0 0) _ _ rfl ⟨Nat.two_pow_pos 32, hlong⟩
    | loop now i n executeList =>
      obtain ⟨hi, hn⟩ := hlong
      have hstep : (TickingWheel.new α 0 0).next (.loop now i n executeList) =
          some ((TickingWheel.new α 0 0).processTick, .loop now ((i + 1) % counterSize) n
            (executeList ++ (TickingWheel.new α 0 0).timers.wheel.processTick.2)) :=
        if_pos (by omega)
      exact ih _ _ _ hstep ⟨Nat.mod_lt _ (Nat.two_pow_pos 32), hn⟩
    | idle => exact hlong
    | addTiming pCallback delayMs => exact hlong
    | exchange => exact hlong
    | readClock => exact hlong
    | elapsed now => exact hlong
    | turnBack now => exact hlong
    | store now executeList => exact hlong
    | execute now executeList => exact hlong

/-! ## The invariant -/

/-- The thread has raised `mbTicking`. -/
def Pc.Holds : Pc α → Prop
  | .readClock => True
  | .elapsed _ => True
  | .turnBack _ => True
  | .advance _ _ => True
  | .loop _ _ _ _ => True
  | .store _ _ => True
  | _ => False

/-- What a thread knows where it is. -/
def PcOk (t0 : Nat) (s : TickingWheel α) : Pc α → Prop
  | .readClock => s.mbTicking = true ∧ OnTime t0 s 0
  | .elapsed now => s.mbTicking = true ∧ OnTime t0 s 0 ∧ s.mLastTickTime ≤ now ∧ now ≤ s.clock
  | .turnBack now => s.mbTicking = true ∧ OnTime t0 s 0 ∧
      now < s.mLastTickTime + s.mTickIntervalMs * nsPerMs
  | .advance now n => s.mbTicking = true ∧ OnTime t0 s 0 ∧ n < counterSize ∧
      s.mLastTickTime + n * s.mTickIntervalMs * nsPerMs ≤ now ∧ now ≤ s.clock ∧
      now < s.mLastTickTime + (n * s.mTickIntervalMs * nsPerMs + s.mTickIntervalMs * nsPerMs)
  | .loop now i n _ => s.mbTicking = true ∧ i ≤ n ∧ n < counterSize ∧ OnTime t0 s (n - i) ∧
      now < s.mLastTickTime + s.mTickIntervalMs * nsPerMs
  | .store now _ => s.mbTicking = true ∧ OnTime t0 s 0 ∧
      now < s.mLastTickTime + s.mTickIntervalMs * nsPerMs
  | .execute now _ => now < s.mLastTickTime + s.mTickIntervalMs * nsPerMs
  | _ => True

/-- The invariant of the threads. -/
structure Inv (t0 : Nat) (s : Threads τ (Pc α) (TickingWheel α)) : Prop where
  pcs : ∀ t, PcOk t0 s.shared (s.locals t)
  single : ∀ t u, (s.locals t).Holds → (s.locals u).Holds → t = u
  onTime : s.shared.mbTicking = false → OnTime t0 s.shared 0
  /-- Wheel time is never ahead of the clock. -/
  clock : s.shared.mLastTickTime ≤ s.shared.clock
  interval : 0 < s.shared.mTickIntervalMs
  once : s.shared.processed = List.range s.shared.mCurrentTick

theorem PcOk.mbTicking {t0 : Nat} {s : TickingWheel α} {pc : Pc α} (h : PcOk t0 s pc)
    (hholds : pc.Holds) : s.mbTicking = true := by
  cases pc with
  | readClock => exact h.1
  | elapsed now => exact h.1
  | turnBack now => exact h.1
  | advance now n => exact h.1
  | loop now i n executeList => exact h.1
  | store now executeList => exact h.1
  | idle => exact hholds.elim
  | addTiming pCallback delayMs => exact hholds.elim
  | exchange => exact hholds.elim
  | execute now executeList => exact hholds.elim

/-- A thread that does not tick only knows that its reading is behind. -/
theorem PcOk.of_not_holds {t0 : Nat} {s s' : TickingWheel α} {pc : Pc α} (h : PcOk t0 s pc)
    (hholds : ¬ pc.Holds) (hlast : s.mLastTickTime ≤ s'.mLastTickTime)
    (hinterval : s'.mTickIntervalMs = s.mTickIntervalMs) : PcOk t0 s' pc := by
  cases pc with
  | readClock => exact (hholds trivial).elim
  | elapsed now => exact (hholds trivial).elim
  | turnBack now => exact (hholds trivial).elim
  | advance now n => exact (hholds trivial).elim
  | loop now i n executeList => exact (hholds trivial).elim
  | store now executeList => exact (hholds trivial).elim
  | idle => trivial
  | addTiming pCallback delayMs => trivial
  | exchange => trivial
  | execute now executeList =>
    show now < s'.mLastTickTime + s'.mTickIntervalMs * nsPerMs
    rw [hinterval]
    exact Nat.lt_of_lt_of_le h (Nat.add_le_add_right hlast _)

/-- The wheel's time is as it was, and the clock has not gone back. -/
structure Same (s s' : TickingWheel α) : Prop where
  mbTicking : s'.mbTicking = s.mbTicking
  last : s'.mLastTickTime = s.mLastTickTime
  interval : s'.mTickIntervalMs = s.mTickIntervalMs
  current : s'.mCurrentTick = s.mCurrentTick
  clock : s.clock ≤ s'.clock
  processed : s'.processed = s.processed

theorem Same.onTime {t0 : Nat} {s s' : TickingWheel α} (h : Same s s') {ahead : Nat} :
    OnTime t0 s' ahead ↔ OnTime t0 s ahead := by
  unfold OnTime
  rw [h.last, h.interval, h.current]

theorem PcOk.same {t0 : Nat} {s s' : TickingWheel α} (hs : Same s s') {pc : Pc α}
    (h : PcOk t0 s pc) : PcOk t0 s' pc := by
  have hclock := hs.clock
  cases pc with
  | readClock => simpa only [PcOk, hs.mbTicking, hs.onTime] using h
  | elapsed now =>
    simp only [PcOk, hs.mbTicking, hs.onTime, hs.last] at h ⊢
    exact ⟨h.1, h.2.1, h.2.2.1, h.2.2.2.trans hclock⟩
  | turnBack now => simpa only [PcOk, hs.mbTicking, hs.onTime, hs.last, hs.interval] using h
  | advance now n =>
    simp only [PcOk, hs.mbTicking, hs.onTime, hs.last, hs.interval] at h ⊢
    obtain ⟨h1, h2, h3, h4, h5, h6⟩ := h
    exact ⟨h1, h2, h3, h4, h5.trans hclock, h6⟩
  | loop now i n executeList =>
    simpa only [PcOk, hs.mbTicking, hs.onTime, hs.last, hs.interval] using h
  | store now executeList =>
    simpa only [PcOk, hs.mbTicking, hs.onTime, hs.last, hs.interval] using h
  | idle => trivial
  | addTiming pCallback delayMs => trivial
  | exchange => trivial
  | execute now executeList => simpa only [PcOk, hs.last, hs.interval] using h

/-! ## Steps -/

theorem tickStep_current (w : TimingWheel α) : w.tickStep.mCurrentTick = w.mCurrentTick + 1 := by
  have hcascade : (TimingWheel.cascadeTick w).mCurrentTick = w.mCurrentTick := by
    unfold TimingWheel.cascadeTick
    split
    · dsimp only
      split
      · exact (TimingWheel.cascade_tick _ _).1.trans (TimingWheel.cascade_tick _ _).1
      · exact (TimingWheel.cascade_tick _ _).1
    · rfl
  exact congrArg (· + 1) hcascade

@[simp] theorem processTick_current (s : TickingWheel α) :
    s.processTick.mCurrentTick = s.mCurrentTick + 1 := tickStep_current _

@[simp] theorem processTick_interval (s : TickingWheel α) :
    s.processTick.mTickIntervalMs = s.mTickIntervalMs := ClockedWheel.tickStep_interval _

theorem onTime_processTick {t0 : Nat} {s : TickingWheel α} {ahead : Nat} :
    OnTime t0 s.processTick ahead ↔ OnTime t0 s (ahead + 1) := by
  unfold OnTime
  rw [processTick_current, processTick_interval, Nat.add_right_comm s.mCurrentTick, Nat.add_assoc]
  exact Iff.rfl

@[simp] theorem advance_last (s : TickingWheel α) (ns : Nat) :
    (s.advance ns).mLastTickTime = s.mLastTickTime + ns := rfl

@[simp] theorem advance_interval (s : TickingWheel α) (ns : Nat) :
    (s.advance ns).mTickIntervalMs = s.mTickIntervalMs := rfl

@[simp] theorem advance_current (s : TickingWheel α) (ns : Nat) :
    (s.advance ns).mCurrentTick = s.mCurrentTick := rfl

theorem onTime_advance {t0 n : Nat} {s : TickingWheel α} (h : OnTime t0 s 0) :
    OnTime t0 (s.advance (n * s.mTickIntervalMs * nsPerMs)) n := by
  unfold OnTime at h ⊢
  rw [advance_last, advance_interval, advance_current, h]
  ring

/-- A reading lies in the interval behind the ticks that it makes due. -/
theorem tickCount_bounds {s : TickingWheel α} (hpos : 0 < s.mTickIntervalMs) {now : Nat}
    (hnow : s.mLastTickTime ≤ now) :
    s.mLastTickTime + s.tickCount now * s.mTickIntervalMs * nsPerMs ≤ now ∧
      now < s.mLastTickTime +
        (s.tickCount now * s.mTickIntervalMs * nsPerMs + s.mTickIntervalMs * nsPerMs) := by
  have hns : 0 < nsPerMs := by decide
  have hdiv : s.tickCount now = (now - s.mLastTickTime) / (nsPerMs * s.mTickIntervalMs) :=
    Nat.div_div_eq_div_mul _ _ _
  have hlow := Nat.div_mul_le_self (now - s.mLastTickTime) (nsPerMs * s.mTickIntervalMs)
  have hhigh := Nat.lt_div_mul_add (a := now - s.mLastTickTime) (Nat.mul_pos hns hpos)
  rw [← hdiv] at hlow hhigh
  rw [Nat.mul_assoc, Nat.mul_comm s.mTickIntervalMs]
  omega

section Rules

variable [DecidableEq τ] {t0 : Nat} {s : Threads τ (Pc α) (TickingWheel α)} {t : τ}
  {shared : TickingWheel α} {pc : Pc α}

/-- A step that leaves the wheel's time alone. -/
theorem Inv.quiet (h : Inv t0 s) (hs : Same s.shared shared) (hpc : PcOk t0 s.shared pc)
    (hholds : pc.Holds → (s.locals t).Holds) : Inv t0 (s.set t shared pc) where
  pcs := by
    intro u
    by_cases hut : u = t
    · subst hut
      rw [Threads.set_self]
      exact hpc.same hs
    · rw [Threads.set_other _ _ _ _ hut]
      exact (h.pcs u).same hs
  single := by
    have hold : ∀ v, ((s.set t shared pc).locals v).Holds → (s.locals v).Holds := by
      intro v hv
      by_cases hvt : v = t
      · subst hvt
        rw [Threads.set_self] at hv
        exact hholds hv
      · rwa [Threads.set_other _ _ _ _ hvt] at hv
    exact fun u v hu hv => h.single u v (hold u hu) (hold v hv)
  onTime := by
    intro hfree
    rw [Threads.set_shared, hs.mbTicking] at hfree
    exact hs.onTime.2 (h.onTime hfree)
  clock := by
    rw [Threads.set_shared, hs.last]
    exact h.clock.trans hs.clock
  interval := by
    rw [Threads.set_shared, hs.interval]
    exact h.interval
  once := by
    rw [Threads.set_shared, hs.processed, hs.current]
    exact h.once

/-- A step of the one thread that may tick. -/
theorem Inv.alone (h : Inv t0 s) (hothers : ∀ u, u ≠ t → ¬ (s.locals u).Holds)
    (hlast : s.shared.mLastTickTime ≤ shared.mLastTickTime)
    (hinterval : shared.mTickIntervalMs = s.shared.mTickIntervalMs) (hpc : PcOk t0 shared pc)
    (honTime : shared.mbTicking = false → OnTime t0 shared 0)
    (hclock : shared.mLastTickTime ≤ shared.clock)
    (honce : shared.processed = List.range shared.mCurrentTick) : Inv t0 (s.set t shared pc) where
  pcs := by
    intro u
    by_cases hut : u = t
    · subst hut
      rw [Threads.set_self]
      exact hpc
    · rw [Threads.set_other _ _ _ _ hut]
      exact (h.pcs u).of_not_holds (hothers u hut) hlast hinterval
  single := by
    have hself : ∀ v, ((s.set t shared pc).locals v).Holds → v = t := by
      intro v hv
      by_contra hvt
      rw [Threads.set_other _ _ _ _ hvt] at hv
      exact hothers v hvt hv
    exact fun u v hu hv => (hself u hu).trans (hself v hv).symm
  onTime := honTime
  clock := hclock
  interval := by
    rw [Threads.set_shared, hinterval]
    exact h.interval
  once := honce

end Rules

/-- Other threads do not tick while one does. -/
theorem Inv.others {t0 : Nat} {s : Threads τ (Pc α) (TickingWheel α)} (h : Inv t0 s) {t : τ}
    (ht : (s.locals t).Holds) : ∀ u, u ≠ t → ¬ (s.locals u).Holds :=
  fun u hut hu => hut (h.single u t hu ht)

theorem Same.refl (s : TickingWheel α) : Same s s := ⟨rfl, rfl, rfl, rfl, Nat.le_refl _, rfl⟩

theorem same_addTiming (s : TickingWheel α) (pCallback : α) (delayMs : Nat) :
    Same s { s with timers := s.timers.step (.addTiming pCallback delayMs) } where
  mbTicking := rfl
  last := rfl
  interval := ClockedWheel.step_interval s.timers _
  current := by
    show (Timers.step s.timers _).wheel.mCurrentTick = s.timers.wheel.mCurrentTick
    simp only [Timers.step, TimingWheel.addTiming]
    split
    · rfl
    · exact TimingWheel.addNode_tick _ _
  clock := Nat.le_refl _
  processed := rfl

theorem Inv.advance [DecidableEq τ] {t0 : Nat} {s : Threads τ (Pc α) (TickingWheel α)}
    (h : Inv t0 s) {t : τ} (hothers : ∀ u, u ≠ t → ¬ (s.locals u).Holds)
    (hticking : s.shared.mbTicking = true) {now n ns : Nat} (hcount : n < counterSize)
    (honTime : OnTime t0 (s.shared.advance ns) n)
    (hclock : s.shared.mLastTickTime + ns ≤ s.shared.clock)
    (hnow : now < s.shared.mLastTickTime + (ns + s.shared.mTickIntervalMs * nsPerMs)) :
    Inv t0 (s.set t (s.shared.advance ns) (.loop now 0 n [])) := by
  rw [← Nat.add_assoc] at hnow
  refine h.alone hothers (Nat.le_add_right _ _) rfl
    ⟨hticking, Nat.zero_le _, hcount, honTime, hnow⟩ (fun hfree => ?_) hclock h.once
  rw [show s.shared.mbTicking = false from hfree] at hticking
  cases hticking

/-- **One step keeps the invariant**, if it computes no more ticks than the loop can count. -/
theorem Inv.next [DecidableEq τ] {t0 : Nat} {s : Threads τ (Pc α) (TickingWheel α)} (h : Inv t0 s)
    {t : τ} (hguard : TickGuard s t .next) {shared : TickingWheel α} {pc : Pc α}
    (hnext : s.shared.next (s.locals t) = some (shared, pc)) : Inv t0 (s.set t shared pc) := by
  have hpc := h.pcs t
  have hothers := h.others (t := t)
  cases hlocal : s.locals t with
  | idle =>
    rw [hlocal] at hnext
    cases hnext
  | addTiming pCallback delayMs =>
    rw [hlocal] at hnext
    cases hnext
    exact h.quiet (same_addTiming s.shared pCallback delayMs) trivial (fun hholds => hholds.elim)
  | exchange =>
    rw [hlocal] at hnext
    simp only [TickingWheel.next] at hnext
    cases hnext
    cases hticking : s.shared.mbTicking with
    | true =>
      -- turned away
      have hsame : Same s.shared { s.shared with mbTicking := true } :=
        ⟨hticking.symm, rfl, rfl, rfl, Nat.le_refl _, rfl⟩
      exact h.quiet hsame trivial (fun hholds => hholds.elim)
    | false =>
      have hnone : ∀ u, u ≠ t → ¬ (s.locals u).Holds := by
        intro u _ hu
        rw [(h.pcs u).mbTicking hu] at hticking
        cases hticking
      exact h.alone hnone (Nat.le_refl _) rfl ⟨rfl, h.onTime hticking⟩ nofun h.clock h.once
  | readClock =>
    rw [hlocal] at hnext hpc
    cases hnext
    refine h.quiet (.refl _) ⟨hpc.1, hpc.2, h.clock, Nat.le_refl _⟩ fun _ => ?_
    rw [hlocal]
    trivial
  | elapsed now =>
    rw [hlocal] at hnext hpc hothers
    unfold TickGuard at hguard
    rw [hlocal] at hguard
    obtain ⟨hticking, honTime, hnow, hclock⟩ := hpc
    obtain ⟨hlow, hhigh⟩ := tickCount_bounds h.interval hnow
    simp only [TickingWheel.next] at hnext
    cases hnext
    refine h.alone (hothers trivial) (Nat.le_refl _) rfl ?_ (fun _ => honTime) h.clock h.once
    split
    · rename_i hfew
      refine ⟨hticking, honTime, ?_⟩
      have hzero : s.shared.tickCount now = 0 := Nat.div_eq_of_lt hfew
      rw [hzero, Nat.zero_mul, Nat.zero_mul, Nat.zero_add] at hhigh
      exact hhigh
    · exact ⟨hticking, honTime, hguard, hlow, hclock, hhigh⟩
  | turnBack now =>
    rw [hlocal] at hnext hpc hothers
    cases hnext
    exact h.alone (hothers trivial) (Nat.le_refl _) rfl trivial (fun _ => hpc.2.1) h.clock h.once
  | advance now n =>
    rw [hlocal] at hnext hpc hothers
    obtain ⟨hticking, honTime, hcount, hlow, hclock, hhigh⟩ := hpc
    cases hnext
    exact h.advance (hothers trivial) hticking hcount (onTime_advance honTime)
      (hlow.trans hclock) hhigh
  | loop now i n executeList =>
    rw [hlocal] at hnext hpc hothers
    obtain ⟨hticking, hi, hcount, honTime, hnow⟩ := hpc
    simp only [TickingWheel.next] at hnext
    split at hnext
    · rename_i hlt
      cases hnext
      rw [Nat.mod_eq_of_lt (by omega)]
      refine h.alone (hothers trivial) (Nat.le_refl _) (processTick_interval _)
        ⟨hticking, hlt, hcount, ?_, ?_⟩ ?_ h.clock ?_
      · rw [onTime_processTick, show n - (i + 1) + 1 = n - i by omega]
        exact honTime
      · rw [processTick_interval]
        exact hnow
      · intro hfree
        rw [show s.shared.mbTicking = false from hfree] at hticking
        cases hticking
      · rw [processTick_current, List.range_succ, ← h.once]
        rfl
    · rename_i hend
      cases hnext
      rw [show n - i = 0 by omega] at honTime
      exact h.alone (hothers trivial) (Nat.le_refl _) rfl ⟨hticking, honTime, hnow⟩
        (fun _ => honTime) h.clock h.once
  | store now executeList =>
    rw [hlocal] at hnext hpc hothers
    cases hnext
    exact h.alone (hothers trivial) (Nat.le_refl _) rfl hpc.2.2 (fun _ => hpc.2.1) h.clock h.once
  | execute now executeList =>
    rw [hlocal] at hnext hpc
    cases executeList with
    | nil =>
      cases hnext
      exact h.quiet (.refl _) trivial (fun hholds => hholds.elim)
    | cons node rest =>
      cases hnext
      have hsame : Same s.shared { s.shared with executed := s.shared.executed ++ [⟨now, node⟩] } :=
        ⟨rfl, rfl, rfl, rfl, Nat.le_refl _, rfl⟩
      exact h.quiet hsame hpc (fun hholds => hholds.elim)

/-! ## Runs -/

theorem ends_readClock : Ends (.readClock : Pc α) := by
  refine .next fun s s' pc' h => ?_
  cases h
  exact .elapsed _

theorem PcOk.ends {t0 : Nat} {s : TickingWheel α} {pc : Pc α} (h : PcOk t0 s pc) : Ends pc := by
  cases pc with
  | idle => exact .idle
  | addTiming pCallback delayMs =>
    refine .next fun s s' pc' h => ?_
    cases h
    exact .idle
  | exchange =>
    refine .next fun s s' pc' h => ?_
    simp only [TickingWheel.next] at h
    cases h
    split
    · exact .idle
    · exact ends_readClock
  | readClock => exact ends_readClock
  | elapsed now => exact .elapsed now
  | turnBack now =>
    refine .next fun s s' pc' h => ?_
    cases h
    exact .idle
  | advance now n => exact ends_advance now h.2.2.1
  | loop now i n executeList => exact ends_loop now h.2.2.1 (n - i) executeList (Nat.le_refl _)
  | store now executeList => exact ends_store now executeList
  | execute now executeList => exact ends_execute now executeList

theorem Inv.noDrift {t0 : Nat} {s : Threads τ (Pc α) (TickingWheel α)} (h : Inv t0 s) :
    NoDrift t0 s where
  ends := fun t => (h.pcs t).ends
  onTime := h.onTime
  reading := by
    intro t now hreading
    have hpc := h.pcs t
    cases hlocal : s.locals t <;> rw [hlocal] at hreading hpc <;> cases hreading
    · exact hpc.2.2
    · exact hpc.2.2
    · exact hpc
  once := h.once

theorem inv_init {tickInterval t0 : Nat} [DecidableEq τ] {s : Threads τ (Pc α) (TickingWheel α)}
    (h : (machine τ α tickInterval t0).init s) : Inv t0 s := by
  obtain ⟨hshared, hidle⟩ := h
  have hnone : ∀ t, ¬ (s.locals t).Holds := by
    intro t
    rw [hidle t]
    exact id
  refine ⟨fun t => ?_, fun t u ht _ => (hnone t ht).elim, fun _ => ?_, ?_, ?_, ?_⟩
  · rw [hidle t]
    trivial
  · rw [hshared]
    show t0 = t0 + _ * (0 + 0) * nsPerMs
    omega
  · rw [hshared]
    exact Nat.le_refl _
  · rw [hshared]
    exact Nat.lt_of_lt_of_le (by decide) (Nat.le_max_right _ _)
  · rw [hshared]
    rfl

/-- Steps that meet the guard keep the invariant. -/
theorem Inv.step {tickInterval t0 : Nat} [DecidableEq τ] {s s' : Threads τ (Pc α) (TickingWheel α)}
    {a : ThreadAction τ (Act α) Nat} (h : Inv t0 s)
    (hguard : Threads.Guard TickGuard (fun _ _ => True) s a)
    (hstep : (machine τ α tickInterval t0).step s a = some s') : Inv t0 s' := by
  obtain ⟨t, b, shared, pc, rfl, hact, rfl⟩ | ⟨ns, shared, rfl, hpass, rfl⟩ :=
    Threads.step_cases hstep
  · cases b with
    | next => exact h.next hguard hact
    | tick =>
      cases hlocal : s.locals t <;> rw [hlocal] at hact <;> cases hact
      exact h.quiet (.refl _) trivial (fun hholds => hholds.elim)
    | addTiming pCallback delayMs =>
      cases hlocal : s.locals t <;> rw [hlocal] at hact <;> cases hact
      exact h.quiet (.refl _) trivial (fun hholds => hholds.elim)
  · cases hpass
    have hsame : Same s.shared (pass ns s.shared) :=
      ⟨rfl, rfl, rfl, rfl, Nat.le_add_right _ _, rfl⟩
    exact ⟨fun t => (h.pcs t).same hsame, h.single, h.onTime,
      h.clock.trans (Nat.le_add_right _ _), h.interval, h.once⟩

/-- A step that computes more ticks than the loop can count does not end. -/
theorem not_ends_step {tickInterval t0 : Nat} [DecidableEq τ]
    {s s' : Threads τ (Pc α) (TickingWheel α)} {a : ThreadAction τ (Act α) Nat}
    (hguard : ¬ Threads.Guard TickGuard (fun _ _ => True) s a)
    (hstep : (machine τ α tickInterval t0).step s a = some s') : ∃ t, ¬ Ends (s'.locals t) := by
  obtain ⟨t, b, shared, pc, rfl, hact, rfl⟩ | ⟨ns, shared, rfl, hpass, rfl⟩ :=
    Threads.step_cases hstep
  · cases b with
    | tick => exact (hguard trivial).elim
    | addTiming pCallback delayMs => exact (hguard trivial).elim
    | next =>
      replace hguard : ¬ TickGuard s t .next := hguard
      unfold TickGuard at hguard
      cases hlocal : s.locals t <;> rw [hlocal] at hguard
      case elapsed now =>
        rw [hlocal] at hact
        cases hact
        refine ⟨t, fun hends => not_ends_of_long hends ?_⟩
        rw [Threads.set_self]
        have hlong : counterSize ≤ s.shared.tickCount now := Nat.le_of_not_lt hguard
        have hdue : ¬ s.shared.elapsedMs now < s.shared.mTickIntervalMs := by
          intro hfew
          rw [tickCount, Nat.div_eq_of_lt hfew] at hlong
          exact absurd hlong (by decide)
        rw [if_neg hdue]
        exact hlong
      all_goals exact (hguard trivial).elim
  · exact (hguard trivial).elim

/-- **When wheel time does not drift**: every `Tick` that finds `mbTicking` false finds fewer than
2^32 intervals between `mLastTickTime` and the clock. -/
theorem noDrift_iff [DecidableEq τ] {tickInterval t0 : Nat}
    {s s' : Threads τ (Pc α) (TickingWheel α)} (hinit : (machine τ α tickInterval t0).init s)
    {as : List (ThreadAction τ (Act α) Nat)}
    (hrun : (machine τ α tickInterval t0).exec s as = some s') :
    (machine τ α tickInterval t0).Always (NoDrift t0) s as ↔
      (machine τ α tickInterval t0).Allowed (Threads.Guard TickGuard fun _ _ => True) s as := by
  refine Machine.always_iff (I := Inv t0) (fun s h => h.noDrift)
    (fun s a s' h hok hstep => h.step hok hstep) ?_ as (inv_init hinit) hrun
  intro s a s' _ hno hstep hdrift
  obtain ⟨t, hends⟩ := not_ends_step hno hstep
  exact hends (hdrift.ends t)

/-- A wheel with an interval of 16 ms, made at 0, before any call. -/
def idleWheel : Threads Bool (Pc Unit) (TickingWheel Unit) := ⟨new Unit 16 0, fun _ => .idle⟩

/-- A `Tick` reads the clock after the given time. -/
def tickAfter (ns : Nat) : List (ThreadAction Bool (Act Unit) Nat) :=
  [.env ns, .thread false .tick, .thread false .next, .thread false .next, .thread false .next]

/-- After 40 ms it makes two ticks and returns. -/
theorem noDrift_idleWheel :
    (machine Bool Unit 16 0).Always (NoDrift 0) idleWheel
      (tickAfter 40000000 ++ List.replicate 6 (.thread false .next)) := by
  have hrun : (machine Bool Unit 16 0).exec idleWheel
      (tickAfter 40000000 ++ List.replicate 6 (.thread false .next)) = some ⟨_, _⟩ := rfl
  have hfew : (new Unit 16 0).tickCount 40000000 < counterSize := by decide
  refine (noDrift_iff ⟨rfl, fun _ => rfl⟩ hrun).2 ⟨trivial, trivial, trivial, trivial, hfew, ?_⟩
  exact ⟨trivial, trivial, trivial, trivial, trivial, trivial, trivial⟩

/-- **After 2^32 intervals** the loop of `Tick` does not end. -/
theorem not_noDrift_idleWheel :
    ∃ s', (machine Bool Unit 16 0).exec idleWheel (tickAfter (2 ^ 32 * 16000000)) = some s' ∧
      ¬ Ends (s'.locals false) ∧ ¬ NoDrift 0 s' := by
  have hends : ¬ Ends (.advance (2 ^ 32 * 16000000) (2 ^ 32) : Pc Unit) := by
    intro h
    exact not_ends_of_long h (Nat.le_refl _)
  refine ⟨_, rfl, ?_, fun h => ?_⟩
  · exact hends
  · exact hends (h.ends false)

end CppNetEngine.TickingWheel
