import CppNetEngine.Timer.Proof.WheelInv

/-!
# Exactness of the timing wheel

Over a run of `AddTiming` calls and tick steps from the empty wheel, a node added at tick `c` with
a delay of `d` ticks is handed over by exactly one tick step, the one that runs at tick `c + d`
(`addTiming_exact`). The run is followed on the calendar of the wheel (`run_abs`): the operations
`ops` of the calls are timely, and the node is told from all others by its cancel flag
(`ops_flag`, `pending_flag`).
-/

namespace CppNetEngine.Timers

open TimingWheel

variable {α : Type*}

/-! ## A run as a run of the calendar -/

/-- The calendar operations of a run: an `AddTiming` without delay makes no node. -/
def ops : Timers α → List (Call α) → List (Calendar.Op (TimingNode α))
  | _, [] => []
  | s, .addTiming cb delayMs :: calls =>
    let rest := ops (s.step (.addTiming cb delayMs)) calls
    if delayMs = 0 then rest else .insert (s.wheel.timingNode s.flags cb delayMs) :: rest
  | s, .tick :: calls => .tick :: ops (s.step .tick) calls

theorem timingNode_bounds (w : TimingWheel α) (flag : Nat) (cb : α) (delayMs : Nat) :
    w.mCurrentTick ≤ (w.timingNode flag cb delayMs).mExpireTick ∧
      (w.timingNode flag cb delayMs).mExpireTick ≤ w.mCurrentTick + 2 ^ 23 :=
  ⟨Nat.le_add_right _ _, Nat.add_le_add_left (delayTicks_le w delayMs) _⟩

theorem step_inv {s : Timers α} (h : Inv s.wheel) (call : Call α) : Inv (s.step call).wheel := by
  cases call with
  | tick => exact tickStep_inv h
  | addTiming cb delayMs =>
    obtain ⟨h1, h2⟩ := timingNode_bounds s.wheel s.flags cb delayMs
    simp only [step, addTiming]
    split
    · exact h
    · exact addNode_inv h h1 h2

theorem run_inv (calls : List (Call α)) :
    ∀ {s : Timers α}, Inv s.wheel → Inv (s.run calls).wheel := by
  induction calls with
  | nil => exact fun h => h
  | cons call calls ih => exact fun h => ih (step_inv h call)

/-- **The wheel refines its calendar** over a whole run. -/
theorem run_abs (calls : List (Call α)) : ∀ {s : Timers α}, Inv s.wheel →
    abs (s.run calls).wheel = (abs s.wheel).run TimingNode.mExpireTick (s.ops calls) ∧
      (abs s.wheel).Timely TimingNode.mExpireTick (s.ops calls) := by
  induction calls with
  | nil => exact fun _ => ⟨rfl, trivial⟩
  | cons call calls ih =>
    intro s h
    obtain ⟨hr, ht⟩ := ih (step_inv h call)
    change abs ((s.step call).run calls).wheel = _ ∧ _
    rw [hr]
    cases call with
    | tick =>
      have he : abs (s.step .tick).wheel = (abs s.wheel).tick TimingNode.mExpireTick :=
        abs_tickStep h
      rw [he] at ht ⊢
      exact ⟨rfl, ht⟩
    | addTiming cb delayMs =>
      obtain ⟨h1, -⟩ := timingNode_bounds s.wheel s.flags cb delayMs
      by_cases hd : delayMs = 0
      · have he : (s.step (.addTiming cb delayMs)).wheel = s.wheel := by simp [step, addTiming, hd]
        have ho : s.ops (.addTiming cb delayMs :: calls) =
            (s.step (.addTiming cb delayMs)).ops calls := by simp [ops, hd]
        rw [he] at ht ⊢
        rw [ho]
        exact ⟨rfl, ht⟩
      · have he : abs (s.step (.addTiming cb delayMs)).wheel =
            (abs s.wheel).insert (s.wheel.timingNode s.flags cb delayMs) := by
          simp [step, addTiming, hd, abs_addNode]
        have ho : s.ops (.addTiming cb delayMs :: calls) =
            .insert (s.wheel.timingNode s.flags cb delayMs) ::
              (s.step (.addTiming cb delayMs)).ops calls := by simp [ops, hd]
        rw [he] at ht ⊢
        rw [ho]
        exact ⟨rfl, h1, ht⟩

/-! ## Cancel flags name nodes -/

theorem step_flags (s : Timers α) (call : Call α) : s.flags ≤ (s.step call).flags := by
  cases call with
  | tick => exact Nat.le_refl _
  | addTiming cb delayMs => exact Nat.le_succ _

theorem run_flags (calls : List (Call α)) : ∀ s : Timers α, s.flags ≤ (s.run calls).flags := by
  induction calls with
  | nil => exact fun s => Nat.le_refl _
  | cons call calls ih => exact fun s => Nat.le_trans (step_flags s call) (ih (s.step call))

theorem ops_flag (calls : List (Call α)) : ∀ (s : Timers α) {n : TimingNode α},
    .insert n ∈ s.ops calls → s.flags ≤ n.mpCancelFlag := by
  induction calls with
  | nil => intro s n hn; cases hn
  | cons call calls ih =>
    intro s n hn
    have hrest := @ih (s.step call) n
    cases call with
    | tick =>
      rcases List.mem_cons.1 hn with h | h
      · cases h
      · exact Nat.le_trans (step_flags s .tick) (hrest h)
    | addTiming cb delayMs =>
      have hle := step_flags s (.addTiming cb delayMs)
      simp only [ops] at hn
      split at hn
      · exact Nat.le_trans hle (hrest hn)
      · rcases List.mem_cons.1 hn with h | h
        · cases h; exact Nat.le_refl _
        · exact Nat.le_trans hle (hrest h)

theorem pending_flag (calls : List (Call α)) : ∀ {s : Timers α}, Inv s.wheel →
    (∀ n ∈ pending s.wheel, n.mpCancelFlag < s.flags) →
    ∀ n ∈ pending (s.run calls).wheel, n.mpCancelFlag < (s.run calls).flags := by
  induction calls with
  | nil => exact fun _ h => h
  | cons call calls ih =>
    intro s hi h
    refine ih (step_inv hi call) ?_
    cases call with
    | tick =>
      intro n hn
      obtain ⟨-, -, hp⟩ := processTick_spec hi
      exact h n (hp ▸ Multiset.mem_add.2 (.inr hn))
    | addTiming cb delayMs =>
      intro n hn
      simp only [step, addTiming] at hn
      split at hn
      · exact Nat.lt_succ_of_lt (h n hn)
      · rw [addNode_pending] at hn
        rcases Multiset.mem_cons.1 hn with rfl | hn
        · exact Nat.lt_succ_self _
        · exact Nat.lt_succ_of_lt (h n hn)

/-! ## The tick steps of a run -/

/-- The state in which the `i`-th call of a run from the empty wheel is made. -/
def before (tickInterval : Nat) (calls : List (Call α)) (i : Nat) : Timers α :=
  (new α tickInterval).run (calls.take i)

theorem before_inv (tickInterval : Nat) (calls : List (Call α)) (i : Nat) :
    Inv (before tickInterval calls i).wheel := run_inv _ (new_inv tickInterval)

theorem run_append (s : Timers α) (a b : List (Call α)) : s.run (a ++ b) = (s.run a).run b :=
  List.foldl_append

theorem before_succ (tickInterval : Nat) {calls : List (Call α)} {i : Nat} {call : Call α}
    (h : calls[i]? = some call) :
    before tickInterval calls (i + 1) = (before tickInterval calls i).step call := by
  rw [before, List.take_add_one, h, run_append]
  rfl

theorem step_tick {s : Timers α} (h : Inv s.wheel) (call : Call α) :
    (s.step call).wheel.mCurrentTick =
      s.wheel.mCurrentTick + (match call with | .tick => 1 | .addTiming _ _ => 0) := by
  cases call with
  | tick => exact congrArg (· + 1) (processTick_tick h)
  | addTiming cb delayMs =>
    simp only [step, addTiming]
    split
    · rfl
    · exact addNode_tick _ _

theorem run_tick_le (calls : List (Call α)) : ∀ {s : Timers α}, Inv s.wheel →
    s.wheel.mCurrentTick ≤ (s.run calls).wheel.mCurrentTick := by
  induction calls with
  | nil => exact fun _ => Nat.le_refl _
  | cons call calls ih =>
    intro s h
    have := step_tick h call
    exact Nat.le_trans (by omega) (ih (step_inv h call))

theorem before_add (tickInterval : Nat) (calls : List (Call α)) {i j : Nat} (h : i ≤ j) :
    before tickInterval calls j = (before tickInterval calls i).run ((calls.drop i).take (j - i)) := by
  rw [before, before, ← run_append]
  congr 1
  rw [← List.take_add, Nat.add_sub_cancel' h]

theorem before_tick_mono (tickInterval : Nat) (calls : List (Call α)) {i j : Nat} (h : i ≤ j) :
    (before tickInterval calls i).wheel.mCurrentTick ≤
      (before tickInterval calls j).wheel.mCurrentTick := by
  rw [before_add tickInterval calls h]
  exact run_tick_le _ (before_inv tickInterval calls i)

theorem before_tick_lt (tickInterval : Nat) {calls : List (Call α)} {i j : Nat}
    (hi : calls[i]? = some .tick) (h : i < j) :
    (before tickInterval calls i).wheel.mCurrentTick <
      (before tickInterval calls j).wheel.mCurrentTick := by
  have h1 := before_tick_mono tickInterval calls (show i + 1 ≤ j from h)
  have h2 := step_tick (before_inv tickInterval calls i) (.tick (α := α))
  rw [before_succ tickInterval hi] at h1
  simp only at h2
  omega

/-- Every tick number a run has passed was processed by exactly one of its tick steps. -/
theorem existsUnique_tick (tickInterval : Nat) (calls : List (Call α)) {t : Nat}
    (ht : t < ((new α tickInterval).run calls).wheel.mCurrentTick) :
    ∃! j, calls[j]? = some .tick ∧ (before tickInterval calls j).wheel.mCurrentTick = t := by
  have hex : ∀ n, t < (before tickInterval calls n).wheel.mCurrentTick →
      ∃ j, calls[j]? = some .tick ∧ (before tickInterval calls j).wheel.mCurrentTick = t := by
    intro n
    induction n with
    | zero => exact fun h => absurd h (Nat.not_lt_zero t)
    | succ n ih =>
      intro h
      by_cases hn : t < (before tickInterval calls n).wheel.mCurrentTick
      · exact ih hn
      · cases hc : calls[n]? with
        | none =>
          have hlen := List.getElem?_eq_none_iff.1 hc
          rw [before, List.take_of_length_le (by omega)] at h
          rw [before, List.take_of_length_le hlen] at hn
          exact absurd h hn
        | some call =>
          have hs := step_tick (before_inv tickInterval calls n) call
          rw [before_succ tickInterval hc] at h
          cases call with
          | tick => exact ⟨n, hc, by simp only at hs; omega⟩
          | addTiming cb delayMs => simp only at hs; omega
  obtain ⟨j, hj, hjt⟩ := hex calls.length (by rw [before, List.take_length]; exact ht)
  refine ⟨j, ⟨hj, hjt⟩, fun i ⟨hi, hit⟩ => ?_⟩
  rcases Nat.lt_trichotomy i j with h | h | h
  · have := before_tick_lt tickInterval hi h; omega
  · exact h
  · have := before_tick_lt tickInterval hj h; omega

/-! ## Exactness -/

/-- What a tick step after the addition hands over of the added node. -/
theorem out_after {s : Timers α} (hi : Inv s.wheel)
    (hf : ∀ n ∈ pending s.wheel, n.mpCancelFlag < s.flags) (cb : α) {delayMs : Nat}
    (hd : 1 ≤ delayMs) (calls : List (Call α)) :
    ((s.run (.addTiming cb delayMs :: calls)).wheel.processTick.2).filter
        (·.mpCancelFlag = s.flags) =
      if (s.run (.addTiming cb delayMs :: calls)).wheel.mCurrentTick =
          (s.wheel.timingNode s.flags cb delayMs).mExpireTick
        then [s.wheel.timingNode s.flags cb delayMs] else [] := by
  set node := s.wheel.timingNode s.flags cb delayMs with hnode
  set s1 := s.step (.addTiming cb delayMs) with hs1
  have hi1 : Inv s1.wheel := step_inv hi _
  have hw1 : s1.wheel = s.wheel.addNode node := by
    rw [hs1]
    simp only [step, addTiming]
    rw [if_neg (by omega)]
  obtain ⟨habs, htimely⟩ := run_abs calls hi1
  have hrun : s.run (.addTiming cb delayMs :: calls) = s1.run calls := rfl
  have hnew : ∀ n, .insert n ∈ s1.ops calls → ¬ n.mpCancelFlag = s.flags := by
    intro n hn he
    have := ops_flag calls s1 hn
    have hfl : s1.flags = s.flags + 1 := rfl
    omega
  have hold : (pending s1.wheel).filter (·.mpCancelFlag = s.flags) = {node} := by
    rw [hw1, addNode_pending, Multiset.filter_cons,
      Multiset.filter_eq_nil.2 fun n hn => Nat.ne_of_lt (hf n hn), add_zero]
    exact if_pos rfl
  have key := Calendar.run_out (fun n : TimingNode α => n.mpCancelFlag = s.flags) hi1.valid
    htimely hnew
  rw [← habs, ← processTick_out (run_inv calls hi1), Multiset.filter_coe,
    show (abs s1.wheel).pending = pending s1.wheel from rfl, hold] at key
  rw [hrun]
  change _ = Multiset.filter (·.mExpireTick = (s1.run calls).wheel.mCurrentTick) {node} at key
  rw [Multiset.filter_singleton] at key
  by_cases hc : node.mExpireTick = (s1.run calls).wheel.mCurrentTick
  · rw [if_pos hc] at key
    rw [if_pos hc.symm]
    exact Multiset.coe_eq_singleton.1 key
  · rw [if_neg hc] at key
    rw [if_neg (Ne.symm hc)]
    exact (Multiset.coe_eq_zero _).1 key

/-- **Exactness.** The node of the `k`-th call, an `AddTiming` with a delay of `d` ticks made at
tick `c`, is handed over by the tick step that runs at tick `c + d` and by no other; and once the
run has passed tick `c + d` there was exactly one such step. -/
theorem addTiming_exact (tickInterval : Nat) (calls : List (Call α)) (k : Nat) (pCallback : α)
    (delayMs : Nat) (hk : calls[k]? = some (.addTiming pCallback delayMs)) (hd : 1 ≤ delayMs) :
    let s := before tickInterval calls k
    let c := s.wheel.mCurrentTick
    let d := min delayMs s.wheel.getMaxDelayMs / s.wheel.mTickIntervalMs
    (∀ j, calls[j]? = some .tick →
      ((before tickInterval calls j).wheel.processTick.2).filter (·.mpCancelFlag = s.flags) =
        if (before tickInterval calls j).wheel.mCurrentTick = c + d
          then [⟨c + d, s.flags, pCallback⟩] else []) ∧
    (c + d < ((new α tickInterval).run calls).wheel.mCurrentTick →
      ∃! j, calls[j]? = some .tick ∧ (before tickInterval calls j).wheel.mCurrentTick = c + d) := by
  intro s c d
  have hinv : Inv s.wheel := before_inv tickInterval calls k
  have hflags : ∀ n ∈ pending s.wheel, n.mpCancelFlag < s.flags :=
    pending_flag _ (new_inv tickInterval) (by simp [new, new_pending])
  refine ⟨fun j hj => ?_, existsUnique_tick tickInterval calls⟩
  rcases Nat.lt_trichotomy j k with hlt | rfl | hlt
  · -- a tick step before the addition: too early, and the flag is not in use yet
    have hearly := before_tick_lt tickInterval hj hlt
    rw [if_neg (Nat.ne_of_lt (Nat.lt_of_lt_of_le hearly (Nat.le_add_right c d))),
      List.filter_eq_nil_iff]
    intro n hn
    have hnp : n ∈ pending (before tickInterval calls j).wheel :=
      (processTick_spec (before_inv tickInterval calls j)).2.2 ▸ Multiset.mem_add.2 (.inl hn)
    have h1 := pending_flag (calls.take j) (new_inv tickInterval) (by simp [new, new_pending]) n hnp
    have h2 : (before tickInterval calls j).flags ≤ s.flags := by
      show _ ≤ (before tickInterval calls k).flags
      rw [before_add tickInterval calls (Nat.le_of_lt hlt)]
      exact run_flags _ _
    simp only [decide_eq_true_eq]
    exact Nat.ne_of_lt (Nat.lt_of_lt_of_le h1 h2)
  · rw [hj] at hk; cases hk
  · have hrun : before tickInterval calls j =
        s.run (.addTiming pCallback delayMs :: (calls.drop (k + 1)).take (j - (k + 1))) := by
      rw [before_add tickInterval calls (show k + 1 ≤ j from hlt), before_succ tickInterval hk]
      rfl
    rw [hrun]
    exact out_after hinv hflags pCallback hd _

/-- 40 ms are two ticks of 16 ms: the node of the first call goes with the third tick step. -/
theorem addTiming_exact_40ms :
    let calls : List (Call Unit) := [.addTiming () 40, .tick, .tick, .tick]
    ((before 16 calls 3).wheel.processTick.2).filter (·.mpCancelFlag = 0) = [⟨2, 0, ()⟩] := by
  intro calls
  have hd : min 40 (before 16 calls 0).wheel.getMaxDelayMs /
      (before 16 calls 0).wheel.mTickIntervalMs = 2 := by decide +kernel
  have ht : (before 16 calls 3).wheel.mCurrentTick = 2 := by decide +kernel
  have h := (addTiming_exact 16 calls 0 () 40 rfl (by decide)).1 3 rfl
  rw [hd, ht] at h
  exact h.trans (if_pos rfl)

end CppNetEngine.Timers
