import CppNetEngine.Timer.Clock
import CppNetEngine.Timer.Proof.Exact

/-!
# When a timer fires early

`mLastTickTime` moves by one interval with every tick step, so a node of tick `c + d`, added at
tick `c`, is executed by a `Tick` whose reading is at least `d + 1` intervals after the
`mLastTickTime` of the `AddTiming` (`executed_late`), and by the first such `Tick`
(`executed_first`). That is as late as asked for exactly if the time since `mLastTickTime`, and what
the delay is more than whole intervals, are together at most one interval (`neverEarly_iff`).
-/

namespace CppNetEngine.ClockedWheel

open TimingWheel

variable {α : Type*}

/-! ## Tick steps -/

theorem tickStep_interval (w : TimingWheel α) :
    w.tickStep.mTickIntervalMs = w.mTickIntervalMs := by
  have hcascade : (cascadeTick w).mTickIntervalMs = w.mTickIntervalMs := by
    unfold cascadeTick
    split
    · dsimp only
      split
      · exact ((cascade_tick _ _).2.trans (cascade_tick _ _).2)
      · exact (cascade_tick _ _).2
    · rfl
  exact hcascade

theorem step_interval (s : Timers α) (call : Timers.Call α) :
    (s.step call).wheel.mTickIntervalMs = s.wheel.mTickIntervalMs := by
  cases call with
  | tick => exact tickStep_interval s.wheel
  | addTiming cb delayMs =>
    simp only [Timers.step, addTiming]
    split
    · rfl
    · exact addNode_interval _ _

/-- Tick steps of the wheel. -/
abbrev ticks (α : Type*) (n : Nat) : List (Timers.Call α) := List.replicate n .tick

theorem run_ticks (n : Nat) : ∀ s : Timers α, (s.run (ticks α n)).flags = s.flags ∧
    (s.run (ticks α n)).wheel.mTickIntervalMs = s.wheel.mTickIntervalMs ∧
      (Inv s.wheel → (s.run (ticks α n)).wheel.mCurrentTick = s.wheel.mCurrentTick + n) := by
  induction n with
  | zero => exact fun s => ⟨rfl, rfl, fun _ => rfl⟩
  | succ n ih =>
    intro s
    obtain ⟨hflags, hinterval, htick⟩ := ih (s.step .tick)
    refine ⟨hflags, hinterval.trans (step_interval s .tick), fun hi => ?_⟩
    have hstep := Timers.step_tick hi .tick
    have := htick (Timers.step_inv hi .tick)
    simp only at hstep
    rw [hstep] at this
    change ((s.step .tick).run (ticks α n)).wheel.mCurrentTick = _
    omega

/-- **The loop of `Tick`** runs tick steps and executes what each of them hands over. -/
theorem tickLoop_spec (n : Nat) : ∀ s : Timers α,
    (tickLoop n s.wheel).1 = (s.run (ticks α n)).wheel ∧
      ∀ node, node ∈ (tickLoop n s.wheel).2 ↔
        ∃ i < n, node ∈ (s.run (ticks α i)).wheel.processTick.2 := by
  induction n with
  | zero => exact fun s => ⟨rfl, fun node => ⟨fun h => (nomatch h), fun ⟨i, hi, _⟩ => (nomatch hi)⟩⟩
  | succ n ih =>
    intro s
    obtain ⟨hwheel, hmem⟩ := ih (s.step .tick)
    refine ⟨hwheel, fun node => ?_⟩
    rw [tickLoop, List.mem_append, show s.wheel.tickStep = (s.step .tick).wheel from rfl, hmem]
    refine ⟨?_, ?_⟩
    · rintro (h | ⟨i, hi, h⟩)
      · exact ⟨0, Nat.zero_lt_succ n, h⟩
      · exact ⟨i + 1, Nat.succ_lt_succ hi, h⟩
    · rintro ⟨i, hi, h⟩
      cases i with
      | zero => exact .inl h
      | succ i => exact .inr ⟨i, Nat.lt_of_succ_lt_succ hi, h⟩

/-- **What `Tick` does**, with or without a whole interval. -/
theorem tick_eq_some {s s' : ClockedWheel α} {now : Nat} {out : List (TimingNode α)} :
    s.tick now = some (s', out) ↔ s.tickCount now < 2 ^ 32 ∧
      s' = { timers := s.timers.run (ticks α (s.tickCount now))
             mLastTickTime := s.mLastTickTime +
               s.tickCount now * s.timers.wheel.mTickIntervalMs * nsPerMs
             now := now } ∧
      out = (tickLoop (s.tickCount now) s.timers.wheel).2 := by
  have htimers : ∀ k, ({ s.timers with wheel := (tickLoop k s.timers.wheel).1 } : Timers α) =
      s.timers.run (ticks α k) := by
    intro k
    rw [(tickLoop_spec k s.timers).1]
    exact congrArg (Timers.mk _) (run_ticks k s.timers).1.symm
  unfold tick
  by_cases helapsed : (now - s.mLastTickTime) / nsPerMs < s.timers.wheel.mTickIntervalMs
  · have hzero : s.tickCount now = 0 := Nat.div_eq_of_lt helapsed
    rw [if_pos helapsed, hzero, Option.some.injEq, Prod.mk.injEq]
    refine ⟨fun h => ⟨by decide, ?_, h.2.symm⟩, fun h => ⟨?_, h.2.2.symm⟩⟩
    · simp [← h.1, ticks, Timers.run]
    · simp [h.2.1, ticks, Timers.run]
  · rw [if_neg helapsed]
    by_cases hmany : 2 ^ 32 ≤ s.tickCount now
    · rw [if_pos hmany]
      exact ⟨fun h => (nomatch h), fun h => absurd h.1 (Nat.not_lt.2 hmany)⟩
    · rw [if_neg hmany]
      simp only [htimers, Option.some.injEq, Prod.mk.injEq]
      exact ⟨fun h => ⟨Nat.lt_of_not_le hmany, h.1.symm, h.2.symm⟩,
        fun h => ⟨h.2.1.symm, h.2.2.symm⟩⟩

/-! ## Runs -/

/-- A wheel in use. -/
structure ClockInv (s : ClockedWheel α) : Prop where
  inv : Inv s.timers.wheel
  flags : ∀ n ∈ pending s.timers.wheel, n.mpCancelFlag < s.timers.flags
  interval : 0 < s.timers.wheel.mTickIntervalMs
  last : s.mLastTickTime ≤ s.now

theorem le_tickCount {s : ClockedWheel α} (hpos : 0 < s.timers.wheel.mTickIntervalMs) {n now : Nat} :
    n ≤ s.tickCount now ↔
      n * s.timers.wheel.mTickIntervalMs * nsPerMs ≤ now - s.mLastTickTime := by
  rw [tickCount, Nat.le_div_iff_mul_le hpos, Nat.le_div_iff_mul_le (by decide)]

/-- What a call leaves: the timers after some calls of `Timers`, and `mLastTickTime` moved by an
interval for each tick step. -/
theorem call_spec {s s' : ClockedWheel α} (hI : ClockInv s) {now : Nat} {c : Timers.Call α}
    {out : List (TimingNode α)} (h : s.call now c = some (s', out)) :
    ∃ calls, s'.timers = s.timers.run calls ∧ s.now ≤ now ∧ s'.now = now ∧
      s'.mLastTickTime + s.timers.wheel.mCurrentTick * s.timers.wheel.mTickIntervalMs * nsPerMs =
        s.mLastTickTime + s'.timers.wheel.mCurrentTick * s.timers.wheel.mTickIntervalMs * nsPerMs ∧
      s'.timers.wheel.mTickIntervalMs = s.timers.wheel.mTickIntervalMs ∧ s'.mLastTickTime ≤ now := by
  have hlast := hI.last
  cases c with
  | addTiming cb delayMs =>
    simp only [call] at h
    split at h <;> rename_i hnow <;> cases h
    have htick := Timers.step_tick hI.inv (.addTiming cb delayMs)
    refine ⟨[.addTiming cb delayMs], rfl, Nat.le_of_not_lt hnow, rfl, ?_, step_interval _ _, ?_⟩
    · simp only [htick, Nat.add_zero]
    · dsimp only
      omega
  | tick =>
    simp only [call] at h
    split at h <;> rename_i hnow
    · cases h
    obtain ⟨-, rfl, -⟩ := tick_eq_some.1 h
    obtain ⟨-, hinterval, htick⟩ := run_ticks (s.tickCount now) s.timers
    have hle : s.tickCount now * s.timers.wheel.mTickIntervalMs * nsPerMs ≤
        now - s.mLastTickTime := (le_tickCount hI.interval).1 (Nat.le_refl _)
    refine ⟨_, rfl, Nat.le_of_not_lt hnow, rfl, ?_, hinterval, ?_⟩
    · simp only [htick hI.inv, Nat.add_mul]
      omega
    · dsimp only
      omega

theorem ClockInv.call {s s' : ClockedWheel α} (hI : ClockInv s) {now : Nat} {c : Timers.Call α}
    {out : List (TimingNode α)} (h : s.call now c = some (s', out)) : ClockInv s' := by
  obtain ⟨calls, htimers, -, hnow, -, hinterval, hlast⟩ := call_spec hI h
  refine ⟨?_, ?_, hinterval ▸ hI.interval, hnow ▸ hlast⟩
  · rw [htimers]
    exact Timers.run_inv calls hI.inv
  · rw [htimers]
    exact Timers.pending_flag calls hI.inv hI.flags

theorem clockInv_of_reachable {tickInterval : Nat} {s : ClockedWheel α}
    (h : (machine α tickInterval).Reachable s) : ClockInv s := by
  refine Machine.ReachableIf.invariant (I := ClockInv) ?_ ?_ h
  · rintro s ⟨t, rfl⟩
    refine ⟨new_inv tickInterval, fun n hn => ?_, ?_, Nat.le_refl _⟩
    · rw [show pending (new α tickInterval t).timers.wheel = 0 from new_pending tickInterval] at hn
      exact absurd hn (Multiset.notMem_zero n)
    · exact Nat.lt_of_lt_of_le (by decide) (Nat.le_max_right tickInterval defaultTickInterval)
  · rintro s ⟨now, c⟩ s' - hI - hs
    obtain ⟨⟨s1, out⟩, hcall, rfl⟩ := Option.map_eq_some_iff.1 hs
    exact hI.call hcall

/-! ## After an `AddTiming` -/

section After

variable {tickInterval : Nat} {s s1 : ClockedWheel α} {t : Nat} {pCallback : α} {delayMs : Nat}
  {calls : List (Timers.Call α)}

/-- A state after the `AddTiming` in `s` at `t` and some further calls. -/
structure Follows (s : ClockedWheel α) (t : Nat) (pCallback : α) (delayMs : Nat)
    (calls : List (Timers.Call α)) (s' : ClockedWheel α) : Prop where
  timers : s'.timers = s.timers.run (.addTiming pCallback delayMs :: calls)
  now : t ≤ s'.now
  last : s'.mLastTickTime + s.timers.wheel.mCurrentTick * s.timers.wheel.mTickIntervalMs * nsPerMs =
    s.mLastTickTime + s'.timers.wheel.mCurrentTick * s.timers.wheel.mTickIntervalMs * nsPerMs
  interval : s'.timers.wheel.mTickIntervalMs = s.timers.wheel.mTickIntervalMs
  inv : ClockInv s'

theorem follows_addTiming (hI : ClockInv s) {out : List (TimingNode α)}
    (h : s.call t (.addTiming pCallback delayMs) = some (s1, out)) :
    Follows s t pCallback delayMs [] s1 := by
  obtain ⟨-, -, -, hnow, hlast, hinterval, -⟩ := call_spec hI h
  refine ⟨?_, Nat.le_of_eq hnow.symm, hlast, hinterval, hI.call h⟩
  simp only [call] at h
  split at h <;> cases h
  rfl

theorem Follows.call {s2 : ClockedWheel α}
    (hf : Follows s t pCallback delayMs calls s1) {now : Nat} {c : Timers.Call α}
    {out : List (TimingNode α)} (h : s1.call now c = some (s2, out)) :
    ∃ calls', Follows s t pCallback delayMs calls' s2 := by
  obtain ⟨calls', htimers, hle, hnow, hlast, hinterval, -⟩ := call_spec hf.inv h
  have hlast1 := hf.last
  refine ⟨calls ++ calls', ?_, ?_, ?_, hinterval.trans hf.interval, hf.inv.call h⟩
  · rw [htimers, hf.timers, ← Timers.run_append]
    rfl
  · exact hnow ▸ Nat.le_trans hf.now hle
  · rw [hf.interval] at hlast
    omega

/-- The tick of the node that the `AddTiming` in `s` makes. -/
def expireTick (s : ClockedWheel α) (delayMs : Nat) : Nat :=
  s.timers.wheel.mCurrentTick +
    min delayMs s.timers.wheel.getMaxDelayMs / s.timers.wheel.mTickIntervalMs

/-- What a tick step after the `AddTiming` hands over of its node. -/
theorem Follows.out (hf : Follows s t pCallback delayMs calls s1) (hI : ClockInv s)
    (hd : 1 ≤ delayMs) (i : Nat) {node : TimingNode α} :
    (node ∈ (s1.timers.run (ticks α i)).wheel.processTick.2 ∧
        node.mpCancelFlag = s.timers.flags) ↔
      s1.timers.wheel.mCurrentTick + i = s.expireTick delayMs ∧
        node = s.timers.wheel.timingNode s.timers.flags pCallback delayMs := by
  have hrun : s1.timers.run (ticks α i) =
      s.timers.run (.addTiming pCallback delayMs :: (calls ++ ticks α i)) := by
    rw [hf.timers, ← Timers.run_append]
    rfl
  have hout := Timers.out_after hI.inv hI.flags pCallback hd (calls ++ ticks α i)
  rw [← hrun, (run_ticks i s1.timers).2.2 hf.inv.inv] at hout
  have hmem : (node ∈ (s1.timers.run (ticks α i)).wheel.processTick.2 ∧
      node.mpCancelFlag = s.timers.flags) ↔
      node ∈ ((s1.timers.run (ticks α i)).wheel.processTick.2).filter
        (·.mpCancelFlag = s.timers.flags) := by
    rw [List.mem_filter, decide_eq_true_iff]
  have hexp : (s.timers.wheel.timingNode s.timers.flags pCallback delayMs).mExpireTick =
      s.expireTick delayMs := rfl
  rw [hmem, hout, hexp]
  by_cases htick : s1.timers.wheel.mCurrentTick + i = s.expireTick delayMs
  · rw [if_pos htick, List.mem_singleton]
    exact ⟨fun h => ⟨htick, h⟩, fun h => h.2⟩
  · rw [if_neg htick]
    exact ⟨fun h => (nomatch h), fun h => absurd h.1 htick⟩

/-- What a `Tick` after the `AddTiming` executes of its node. -/
theorem Follows.see_iff (hf : Follows s t pCallback delayMs calls s1) (hI : ClockInv s)
    (hd : 1 ≤ delayMs) (a : Nat × Timers.Call α) {e : Executed α} :
    (e ∈ see s1 a ∧ e.node.mpCancelFlag = s.timers.flags) ↔
      a.2 = .tick ∧ s1.now ≤ a.1 ∧ s1.tickCount a.1 < 2 ^ 32 ∧ e.now = a.1 ∧
        (∃ i < s1.tickCount a.1, s1.timers.wheel.mCurrentTick + i = s.expireTick delayMs) ∧
        e.node = s.timers.wheel.timingNode s.timers.flags pCallback delayMs := by
  obtain ⟨now, c⟩ := a
  cases c with
  | addTiming cb delay =>
    refine ⟨fun ⟨h, _⟩ => ?_, fun h => (nomatch h.1)⟩
    simp only [see, ClockedWheel.call] at h
    split at h
    · cases h
    · rename_i r hr
      split at hr <;> cases hr
      cases h
  | tick =>
    by_cases hnow : now < s1.now
    · refine ⟨fun ⟨h, _⟩ => ?_, fun h => absurd h.2.1 (Nat.not_le.2 hnow)⟩
      simp only [see, ClockedWheel.call, if_pos hnow] at h
      cases h
    have hsee : e ∈ see s1 (now, .tick) ↔ ∃ s2 out, s1.tick now = some (s2, out) ∧ e.now = now ∧
        e.node ∈ out := by
      simp only [see, ClockedWheel.call, if_neg hnow]
      cases htick : s1.tick now with
      | none => simp
      | some r =>
        obtain ⟨s2, out⟩ := r
        obtain ⟨enow, enode⟩ := e
        simp only [List.mem_map, Executed.mk.injEq, Option.some.injEq, Prod.mk.injEq]
        refine ⟨?_, ?_⟩
        · rintro ⟨n, hn, rfl, rfl⟩
          exact ⟨s2, out, ⟨rfl, rfl⟩, rfl, hn⟩
        · rintro ⟨s3, out', ⟨rfl, rfl⟩, rfl, hn⟩
          exact ⟨enode, hn, rfl, rfl⟩
    rw [hsee]
    refine ⟨?_, ?_⟩
    · rintro ⟨⟨s2, out, htick, henow, hmem⟩, hflag⟩
      obtain ⟨hcount, -, rfl⟩ := tick_eq_some.1 htick
      obtain ⟨i, hi, hmem⟩ := ((tickLoop_spec _ s1.timers).2 _).1 hmem
      obtain ⟨hexp, hnode⟩ := (hf.out hI hd i).1 ⟨hmem, hflag⟩
      exact ⟨rfl, Nat.le_of_not_lt hnow, hcount, henow, ⟨i, hi, hexp⟩, hnode⟩
    · rintro ⟨-, -, hcount, henow, ⟨i, hi, hexp⟩, hnode⟩
      obtain ⟨hmem, hflag⟩ := (hf.out hI hd i).2 ⟨hexp, hnode⟩
      exact ⟨⟨_, _, tick_eq_some.2 ⟨hcount, rfl, rfl⟩, henow,
        ((tickLoop_spec _ s1.timers).2 _).2 ⟨i, hi, hmem⟩⟩, hflag⟩

/-- The end of the interval in which the node's tick step is due. -/
def dueTime (s : ClockedWheel α) (delayMs : Nat) : Nat :=
  s.mLastTickTime + (min delayMs s.timers.wheel.getMaxDelayMs / s.timers.wheel.mTickIntervalMs + 1) *
    s.timers.wheel.mTickIntervalMs * nsPerMs

/-- **A `Tick` that executes the node is not before its due time.** -/
theorem Follows.executed_late (hf : Follows s t pCallback delayMs calls s1) (hI : ClockInv s)
    (hd : 1 ≤ delayMs) {a : Nat × Timers.Call α} {e : Executed α} (he : e ∈ see s1 a)
    (hflag : e.node.mpCancelFlag = s.timers.flags) :
    s.dueTime delayMs ≤ e.now ∧ s1.tickCount e.now < 2 ^ 32 := by
  obtain ⟨-, hle, hcount, henow, ⟨i, hi, hexp⟩, -⟩ := (hf.see_iff hI hd a).1 ⟨he, hflag⟩
  rw [henow]
  refine ⟨?_, hcount⟩
  have hpassed := (le_tickCount hf.inv.interval).1 (show i + 1 ≤ s1.tickCount a.1 from hi)
  have hlast := hf.last
  have hnow := hf.inv.last
  rw [hf.interval] at hpassed
  -- the intervals passed are those up to the node's tick and one more
  have hsum : s1.timers.wheel.mCurrentTick + (i + 1) = s.timers.wheel.mCurrentTick +
      (min delayMs s.timers.wheel.getMaxDelayMs / s.timers.wheel.mTickIntervalMs + 1) := by
    rw [expireTick] at hexp
    omega
  have hscaled : s1.timers.wheel.mCurrentTick * s.timers.wheel.mTickIntervalMs * nsPerMs +
        (i + 1) * s.timers.wheel.mTickIntervalMs * nsPerMs =
      s.timers.wheel.mCurrentTick * s.timers.wheel.mTickIntervalMs * nsPerMs +
        (min delayMs s.timers.wheel.getMaxDelayMs / s.timers.wheel.mTickIntervalMs + 1) *
          s.timers.wheel.mTickIntervalMs * nsPerMs := by
    simp only [← Nat.add_mul, hsum]
  rw [dueTime]
  omega

/-- **The first `Tick` from the due time on executes the node**, if its loop ends. -/
theorem Follows.executed_first (hf : Follows s t pCallback delayMs [] s1) (hI : ClockInv s)
    (hd : 1 ≤ delayMs) (htick : s1.timers.wheel.mCurrentTick = s.timers.wheel.mCurrentTick)
    {now : Nat} (hnow : s1.now ≤ now) (hdue : s.dueTime delayMs ≤ now)
    (hcount : s1.tickCount now < 2 ^ 32) :
    ∃ e ∈ see s1 (now, .tick), e.node.mpCancelFlag = s.timers.flags ∧ e.now = now := by
  have hlast := hf.last
  rw [htick] at hlast
  have hpassed : min delayMs s.timers.wheel.getMaxDelayMs / s.timers.wheel.mTickIntervalMs + 1 ≤
      s1.tickCount now := by
    rw [le_tickCount hf.inv.interval, hf.interval]
    rw [dueTime] at hdue
    omega
  obtain ⟨he, hflag⟩ := (hf.see_iff hI hd (now, .tick)
    (e := ⟨now, s.timers.wheel.timingNode s.timers.flags pCallback delayMs⟩)).2
    ⟨rfl, hnow, hcount, rfl, ⟨_, hpassed, by rw [htick]; rfl⟩, rfl⟩
  exact ⟨_, he, hflag, rfl⟩

/-- No `Tick` ends that has too many steps to run. -/
theorem Follows.stuck (cs : List (Nat × Timers.Call α)) : ∀ {calls : List (Timers.Call α)}
    {s1 : ClockedWheel α}, Follows s t pCallback delayMs calls s1 → ClockInv s → 1 ≤ delayMs →
    2 ^ 32 ≤ s1.tickCount t →
    ∀ e ∈ (machine α tickInterval).watch see s1 cs, e.node.mpCancelFlag ≠ s.timers.flags := by
  induction cs with
  | nil => exact fun _ _ _ _ e he => nomatch he
  | cons a cs ih =>
    intro calls s1 hf hI hd hmany e he hflag
    have hmore : ∀ now, s1.now ≤ now → 2 ^ 32 ≤ s1.tickCount now := fun now hnow =>
      (le_tickCount hf.inv.interval).2 <| Nat.le_trans
        ((le_tickCount hf.inv.interval).1 hmany) (Nat.sub_le_sub_right (Nat.le_trans hf.now hnow) _)
    rcases List.mem_append.1 he with he | he
    · obtain ⟨-, hle, hcount, henow, -⟩ := (hf.see_iff hI hd a).1 ⟨he, hflag⟩
      exact absurd hcount (Nat.not_lt.2 (hmore _ hle))
    · split at he <;> rename_i s2 hs
      · cases he
      · obtain ⟨⟨s2, out⟩, hcall, rfl⟩ := Option.map_eq_some_iff.1 hs
        obtain ⟨calls', hf'⟩ := hf.call hcall
        refine ih hf' hI hd ?_ e he hflag
        -- only an `AddTiming` came in between, which leaves `mLastTickTime`
        obtain ⟨now, c⟩ := a
        cases c with
        | addTiming cb delay =>
          simp only [ClockedWheel.call] at hcall
          split at hcall <;> cases hcall
          have hinterval := step_interval s1.timers (.addTiming cb delay)
          unfold tickCount at hmany ⊢
          rw [hinterval]
          exact hmany
        | tick =>
          simp only [ClockedWheel.call] at hcall
          split at hcall <;> rename_i hnow
          · cases hcall
          · exact absurd (tick_eq_some.1 hcall).1
              (Nat.not_lt.2 (hmore _ (Nat.le_of_not_lt hnow)))

/-- Whatever is called, the node is not executed before its due time. -/
theorem Follows.watch_late (cs : List (Nat × Timers.Call α)) : ∀ {calls : List (Timers.Call α)}
    {s1 : ClockedWheel α}, Follows s t pCallback delayMs calls s1 → ClockInv s → 1 ≤ delayMs →
    ∀ e ∈ (machine α tickInterval).watch see s1 cs, e.node.mpCancelFlag = s.timers.flags →
      s.dueTime delayMs ≤ e.now := by
  induction cs with
  | nil => exact fun _ _ _ e he => nomatch he
  | cons a cs ih =>
    intro calls s1 hf hI hd e he hflag
    rcases List.mem_append.1 he with he | he
    · exact (hf.executed_late hI hd he hflag).1
    · split at he <;> rename_i s2 hs
      · cases he
      · obtain ⟨⟨s2, out⟩, hcall, rfl⟩ := Option.map_eq_some_iff.1 hs
        obtain ⟨calls', hf'⟩ := hf.call hcall
        exact ih hf' hI hd e he hflag

/-- The due time is late enough exactly if the time since `mLastTickTime` and the delay modulo the
interval are at most one interval. -/
theorem dueTime_iff (hI : ClockInv s) (ht : s.now ≤ t)
    (hmax : delayMs ≤ s.timers.wheel.getMaxDelayMs) :
    t + delayMs * nsPerMs ≤ s.dueTime delayMs ↔
      (t - s.mLastTickTime) + delayMs % s.timers.wheel.mTickIntervalMs * nsPerMs ≤
        s.timers.wheel.mTickIntervalMs * nsPerMs := by
  have hlast := hI.last
  have hdelay := Nat.div_add_mod' delayMs s.timers.wheel.mTickIntervalMs
  have hscaled := congrArg (· * nsPerMs) hdelay
  simp only [Nat.add_mul] at hscaled
  rw [dueTime, Nat.min_eq_left hmax, Nat.add_mul, Nat.add_mul, Nat.one_mul]
  omega

end After

/-- **When a timer never fires early.** An `AddTiming` is made at the reading `t` in a state of any
run. However the run goes on, its node is executed by no `Tick` with a reading before
`t + delayMs`, if and only if the time since `mLastTickTime` and the delay modulo the interval are
together at most one interval; or so many that no later `Tick` returns. -/
theorem neverEarly_iff {tickInterval : Nat} {s s1 : ClockedWheel α}
    (h : (machine α tickInterval).Reachable s) {t : Nat} {pCallback : α} {delayMs : Nat}
    (hd : 0 < delayMs) (hmax : delayMs ≤ s.timers.wheel.getMaxDelayMs)
    (hs : (machine α tickInterval).step s (t, .addTiming pCallback delayMs) = some s1) :
    (∀ cs, ∀ e ∈ (machine α tickInterval).watch see s1 cs,
        e.node.mpCancelFlag = s.timers.flags → t + delayMs * nsPerMs ≤ e.now) ↔
      (t - s.mLastTickTime) + delayMs % s.timers.wheel.mTickIntervalMs * nsPerMs ≤
          s.timers.wheel.mTickIntervalMs * nsPerMs ∨
        2 ^ 32 ≤ s.tickCount t := by
  have hI := clockInv_of_reachable h
  obtain ⟨⟨s1, out⟩, hcall, rfl⟩ := Option.map_eq_some_iff.1 hs
  have hf := follows_addTiming hI hcall
  have hsame : s1.mLastTickTime = s.mLastTickTime ∧ s1.now = t ∧ s.now ≤ t ∧
      s1.timers = s.timers.step (.addTiming pCallback delayMs) := by
    simp only [call] at hcall
    split at hcall <;> rename_i hnow <;> cases hcall
    exact ⟨rfl, rfl, Nat.le_of_not_lt hnow, rfl⟩
  obtain ⟨hlast, hnow, ht, htimers⟩ := hsame
  have htick : s1.timers.wheel.mCurrentTick = s.timers.wheel.mCurrentTick := by
    rw [htimers]
    exact Timers.step_tick hI.inv (.addTiming pCallback delayMs)
  have hcount : ∀ now, s1.tickCount now = s.tickCount now := by
    intro now
    rw [tickCount, tickCount, hlast, hf.interval]
  rw [← dueTime_iff hI ht hmax]
  refine ⟨fun hall => ?_, fun hcond cs e he hflag => ?_⟩
  · by_contra hnot
    obtain ⟨hearly, hfew⟩ := not_or.1 hnot
    -- the first `Tick` at or after the due time
    let now := max t (s.dueTime delayMs)
    have hends : s1.tickCount now < 2 ^ 32 := by
      rw [hcount]
      rcases Nat.le_total (s.dueTime delayMs) t with hle | hle
      · rw [show now = t from Nat.max_eq_left hle]
        exact Nat.lt_of_not_le hfew
      · rw [show now = s.dueTime delayMs from Nat.max_eq_right hle]
        have hsteps := delayTicks_le s.timers.wheel delayMs
        have hdiv : s.tickCount (s.dueTime delayMs) =
            min delayMs s.timers.wheel.getMaxDelayMs / s.timers.wheel.mTickIntervalMs + 1 := by
          rw [tickCount, dueTime, Nat.add_sub_cancel_left, Nat.mul_div_cancel _ (by decide),
            Nat.mul_div_cancel _ hI.interval]
        rw [hdiv]
        omega
    obtain ⟨e, he, hflag, henow⟩ := hf.executed_first hI hd htick
      (by rw [hnow]; exact Nat.le_max_left _ _) (Nat.le_max_right _ _) hends
    have hlate := hall [(now, .tick)] e (List.mem_append_left _ he) hflag
    rw [henow] at hlate
    rcases Nat.le_total (s.dueTime delayMs) t with hle | hle
    · rw [Nat.max_eq_left hle] at hlate
      have hpos : 0 < delayMs * nsPerMs := Nat.mul_pos hd (by decide)
      omega
    · rw [Nat.max_eq_right hle] at hlate
      exact hearly hlate
  · rcases hcond with hcond | hmany
    · exact Nat.le_trans hcond (hf.watch_late cs hI hd e he hflag)
    · exact absurd hflag (hf.stuck cs hI hd (by rw [hcount]; exact hmany) e he)

/-! ## One timer -/

/-- A delay of 40 ms, asked for 8 ms after `mLastTickTime`. -/
theorem neverEarly_iff_40ms : ∃ s s1 : ClockedWheel Unit,
    (machine Unit 16).step s (8000000, .addTiming () 40) = some s1 ∧
      ∀ cs, ∀ e ∈ (machine Unit 16).watch see s1 cs, e.node.mpCancelFlag = s.timers.flags →
        8000000 + 40 * nsPerMs ≤ e.now := by
  have hs : (machine Unit 16).step (new Unit 16 0) (8000000, .addTiming () 40) = some _ := rfl
  exact ⟨_, _, hs, (neverEarly_iff (.init ⟨0, rfl⟩) (by decide) (by decide +kernel) hs).2
    (.inl (by decide +kernel))⟩

/-- A delay of 16 ms, asked for 20 ms after `mLastTickTime`: the next `Tick` executes it, 12 ms
after the call. -/
theorem not_neverEarly : ∃ (s1 : ClockedWheel Unit) (e : Executed Unit),
    (machine Unit 16).step (new Unit 16 0) (20000000, .addTiming () 16) = some s1 ∧
      e ∈ (machine Unit 16).watch see s1 [(32000000, .tick)] ∧ e.node.mpCancelFlag = 0 ∧
        e.now < 20000000 + 16 * nsPerMs := by
  refine ⟨_, ⟨32000000, ⟨1, 0, ()⟩⟩, rfl, ?_, rfl, by decide⟩
  exact List.mem_append_left _ (by decide +kernel)

end CppNetEngine.ClockedWheel
