import CppNetEngine.Service.Proof.Accounting
import Mathlib.Tactic.Set

/-!
# Waiting sessions

`setSessionWaiting` leaves the state word of a session as it is, so no session is ever in the
waiting state (`run_noWaiting`), and the admission of a session from the wait queue always fails
(`admitWaitingSession_spec`): the session is disconnected instead. `waiting_iff` says that the code
keeps waiting sessions waiting, and admits them, exactly in the runs where there are none.
-/

namespace CppNetEngine.Service

open Program

variable {ι : Type} [DecidableEq ι]

/-! ## Nobody waits -/

def NoWaiting (s : Service ι) : Prop := ∀ w, s.mSessionState w ≠ .waiting

theorem exec_noWaiting (a : Act ι) (s : Service ι) (h : NoWaiting s) : NoWaiting (exec a s).1 := by
  cases a with
  | addSession w => exact h
  | addWaitingSession w => exact h
  | removeSession w keep => exact h
  | releaseKeepTicket => exact h
  | hasWaitQueueManager => exact h
  | enterWaitQueue w =>
    simp only [exec, enterWaitQueue]
    split <;> exact h
  | dequeueWaitQueue =>
    simp only [exec, dequeueWaitQueue]
    split <;> exact h
  | compareExchange w swap =>
    simp only [exec, compareExchange]
    split
    · intro x
      by_cases hx : x = w
      · subst hx
        simpa using swap.desired_ne_waiting
      · simpa [hx] using h x
    · exact h
  | exchange w =>
    intro x
    by_cases hx : x = w
    · subst hx
      simp [exec, exchange]
    · simpa [exec, exchange, hx] using h x
  | callback event => exact h

theorem step_noWaiting (s : Service ι) (happening : Happening ι) (h : NoWaiting s) :
    NoWaiting (s.step happening) := by
  cases happening with
  | expire w => exact h
  | call c => exact run_invariant exec (fun a s _ => exec_noWaiting a s) (code c).uses_true s h

theorem run_noWaiting (happenings : List (Happening ι)) : ∀ s : Service ι, NoWaiting s →
    NoWaiting (s.run happenings) := by
  induction happenings with
  | nil => exact fun s h => h
  | cons happening happenings ih => exact fun s h => ih _ (step_noWaiting s happening h)

/-! ## What is dequeued is disconnected -/

/-- Actions that dequeue nothing. -/
def Unqueued : Act ι → Prop
  | .dequeueWaitQueue => False
  | .callback (.dequeued _) => False
  | _ => True

/-- From `s` to `s'` events were logged, none of them a dequeue. -/
def Undequeued (s s' : Service ι) : Prop :=
  ∃ new, s'.log = s.log ++ new ∧ ∀ w, .dequeued w ∉ new

/-- From `s` to `s'` events were logged, and the sessions dequeued are disconnected at the end. -/
def Dropped (s s' : Service ι) : Prop :=
  ∃ new, s'.log = s.log ++ new ∧ ∀ w, .dequeued w ∈ new → s'.mSessionState w = .disconnected

theorem exec_undequeued (a : Act ι) (s s' : Service ι) (ha : Unqueued a) (h : Undequeued s s') :
    Undequeued s (exec a s').1 := by
  obtain ⟨new, hlog, hnew⟩ := h
  have hsame : ∀ s1 : Service ι, s1.log = s'.log → Undequeued s s1 :=
    fun s1 h1 => ⟨new, h1.trans hlog, hnew⟩
  have hone : ∀ (s1 : Service ι) (e : Event ι), s1.log = s'.log ++ [e] → (∀ w, e ≠ .dequeued w) →
      Undequeued s s1 := by
    intro s1 e h1 he
    refine ⟨new ++ [e], by rw [h1, hlog, List.append_assoc], fun w hw => ?_⟩
    rcases List.mem_append.1 hw with hw | hw
    · exact hnew w hw
    · exact he w (List.mem_singleton.1 hw).symm
  cases a with
  | addSession w => exact hsame _ rfl
  | addWaitingSession w => exact hsame _ rfl
  | removeSession w keep => exact hsame _ rfl
  | releaseKeepTicket => exact hsame _ rfl
  | hasWaitQueueManager => exact hsame _ rfl
  | enterWaitQueue w =>
    refine hsame _ ?_
    simp only [exec, enterWaitQueue]
    split <;> rfl
  | dequeueWaitQueue => exact ha.elim
  | compareExchange w swap =>
    refine hsame _ ?_
    simp only [exec, compareExchange]
    split <;> rfl
  | exchange w => exact hone _ (.disconnect w) rfl fun x hx => by cases hx
  | callback event =>
    refine hone _ event rfl fun x hx => ?_
    subst hx
    exact ha

theorem run_undequeued {β : Type} {p : Code ι β} (hp : p.Uses Unqueued) (s : Service ι) :
    Undequeued s (p.run exec s).1 :=
  run_invariant exec (I := Undequeued s) (fun a s' ha h => exec_undequeued a s s' ha h) hp s
    ⟨[], (List.append_nil _).symm, fun _ h => by cases h⟩

omit [DecidableEq ι] in
theorem Undequeued.dropped {s s' : Service ι} (h : Undequeued s s') : Dropped s s' := by
  obtain ⟨new, hlog, hnew⟩ := h
  exact ⟨new, hlog, fun w hw => (hnew w hw).elim⟩

omit [DecidableEq ι] in
theorem Dropped.after {s s1 s2 : Service ι} (h1 : Undequeued s s1) (h2 : Dropped s1 s2) :
    Dropped s s2 := by
  obtain ⟨new1, hlog1, hnew1⟩ := h1
  obtain ⟨new2, hlog2, hnew2⟩ := h2
  refine ⟨new1 ++ new2, by rw [hlog2, hlog1, List.append_assoc], fun w hw => ?_⟩
  rcases List.mem_append.1 hw with hw | hw
  · exact (hnew1 w hw).elim
  · exact hnew2 w hw

omit [DecidableEq ι] in
theorem Dropped.before {s s1 s2 : Service ι} (h1 : Dropped s s1) (h2 : Undequeued s1 s2)
    (hdis : ∀ w, s1.mSessionState w = .disconnected → s2.mSessionState w = .disconnected) :
    Dropped s s2 := by
  obtain ⟨new1, hlog1, hnew1⟩ := h1
  obtain ⟨new2, hlog2, hnew2⟩ := h2
  refine ⟨new1 ++ new2, by rw [hlog2, hlog1, List.append_assoc], fun w hw => ?_⟩
  rcases List.mem_append.1 hw with hw | hw
  · exact hdis w (hnew1 w hw)
  · exact (hnew2 w hw).elim

omit [DecidableEq ι] in
theorem disconnect_unqueued (w : ι) (reason : DisconnectReason) :
    (disconnect w reason).Uses Unqueued := by
  refine ⟨trivial, fun wasConnected => ?_⟩
  cases wasConnected
  · trivial
  · exact ⟨trivial, fun _ => trivial⟩

theorem disconnect_state (w : ι) (reason : DisconnectReason) (s : Service ι) :
    ((disconnect w reason).run exec s).1.mSessionState =
      Function.update s.mSessionState w .disconnected := by
  unfold disconnect
  rw [run_bind, Atomic.run_exchange]
  split <;> rfl

omit [DecidableEq ι] in
theorem dequeueWaitQueue_state (s : Service ι) :
    s.dequeueWaitQueue.1.mSessionState = s.mSessionState := by
  unfold dequeueWaitQueue
  split <;> rfl

omit [DecidableEq ι] in
theorem dequeueWaitQueue_log (s : Service ι) :
    s.dequeueWaitQueue.1.log = s.log ++ s.dequeueWaitQueue.2.toList.map .dequeued := by
  unfold dequeueWaitQueue
  split
  · simp
  · rfl

theorem compareExchange_waiting {s : Service ι} (h : NoWaiting s) (w : ι) :
    s.compareExchange w .setWaitingToConnected =
      ({ s with spurious := fun n => s.spurious (n + 1) }, false) :=
  if_neg fun hw => h w hw.1

omit [DecidableEq ι] in
theorem dropped_of_dequeue {s s1 s2 : Service ι} {w : ι} (hlog : s1.log = s.log ++ [.dequeued w])
    (h : Undequeued s1 s2) (hw : s2.mSessionState w = .disconnected) : Dropped s s2 := by
  obtain ⟨new, hlog2, hnew⟩ := h
  refine ⟨.dequeued w :: new, by rw [hlog2, hlog, List.append_assoc]; rfl, fun x hx => ?_⟩
  rcases List.mem_cons.1 hx with hx | hx
  · cases hx
    exact hw
  · exact (hnew x hx).elim

/-- **The admission of a session fails** when none is in the waiting state. -/
theorem admitWaitingSession_dropped {s : Service ι} (h : NoWaiting s) :
    Dropped s (admitWaitingSession.run exec s).1 := by
  have hstate := s.dequeueWaitQueue_state
  have hlog := s.dequeueWaitQueue_log
  unfold admitWaitingSession
  rw [run_bind, Atomic.run_dequeueWaitQueue]
  generalize s.dequeueWaitQueue = r at hstate hlog
  obtain ⟨s1, pWaitSession⟩ := r
  cases pWaitSession with
  | none => exact ⟨[], hlog, fun _ hw => by cases hw⟩
  | some w =>
    have hno : NoWaiting s1 := by
      intro x
      rw [show s1.mSessionState = s.mSessionState from hstate]
      exact h x
    -- both failures end in `Disconnect`
    have hend : ∀ m : Service ι, m.log = s1.log →
        Dropped s ((disconnect w .stateError).run exec m).1 := by
      intro m hm
      have hafter := run_undequeued (disconnect_unqueued w .stateError) m
      refine dropped_of_dequeue (hm.trans hlog) hafter ?_
      rw [disconnect_state]
      exact Function.update_self _ _ _
    dsimp only
    rw [run_bind, Atomic.run_addWaitingSession]
    split
    · rw [run_bind, Atomic.run_compareExchange,
        compareExchange_waiting (s := { s1 with
          mpSessionManager := (s1.mpSessionManager.addWaitingSession w).1 }) hno]
      exact hend _ rfl
    · exact hend _ rfl

theorem removeSession_dropped {s : Service ι} (h : NoWaiting s) (w : ι) :
    Dropped s ((removeSession w).run exec s).1 := by
  have hno : NoWaiting { s with mpSessionManager := s.mpSessionManager.removeSession w true } := h
  unfold removeSession
  rw [run_bind, Atomic.run_removeSession]
  exact admitWaitingSession_dropped hno

omit [DecidableEq ι] in
theorem setConnected_unqueued (w : ι) : (setConnected w).Uses Unqueued := by
  refine ⟨trivial, fun connected => ?_⟩
  cases connected
  · exact ⟨trivial, fun _ => trivial⟩
  · trivial

theorem dropped_of_unqueued {β : Type} {p : Code ι β} (hp : p.Uses Unqueued) (s : Service ι) :
    Dropped s (p.run exec s).1 := (run_undequeued hp s).dropped

omit [DecidableEq ι] in
@[simp] theorem enterWaitQueue_log (s : Service ι) (w : ι) :
    (s.enterWaitQueue w).1.log = s.log := by
  unfold enterWaitQueue
  split <;> rfl

@[simp] theorem compareExchange_log (s : Service ι) (w : ι) (swap : StateSwap) :
    (s.compareExchange w swap).1.log = s.log := by
  unfold compareExchange
  split <;> rfl

omit [DecidableEq ι] in
theorem undequeued_of_log {s s' : Service ι} (h : s'.log = s.log) : Undequeued s s' :=
  ⟨[], h.trans (List.append_nil _).symm, fun _ hw => by cases hw⟩

theorem addSession_dropped {s : Service ι} (h : NoWaiting s) (w : ι) :
    Dropped s ((addSession w).run exec s).1 := by
  unfold addSession
  rw [run_bind, Atomic.run_addSession]
  set s1 : Service ι := { s with mpSessionManager := (s.mpSessionManager.addSession w).1 }
  have h1 : NoWaiting s1 := h
  refine Dropped.after (undequeued_of_log (show s1.log = s.log from rfl)) ?_
  dsimp only
  split
  · rw [run_bind]
    have h2 : NoWaiting ((setConnected w).run exec s1).1 :=
      run_invariant exec (fun a s _ => exec_noWaiting a s) (setConnected w).uses_true s1 h1
    refine Dropped.after (run_undequeued (setConnected_unqueued w) s1) ?_
    split
    · exact dropped_of_unqueued (p := do
        Atomic.callback (.onConnected w)
        return true) ⟨trivial, fun _ => trivial⟩ _
    · rw [run_bind, run_bind, run_pure]
      refine Dropped.before (removeSession_dropped h2 w)
        (run_undequeued (disconnect_unqueued w _) _) fun x hx => ?_
      rw [disconnect_state]
      by_cases hxw : x = w
      · subst hxw
        exact Function.update_self _ _ _
      · rw [Function.update_of_ne hxw]
        exact hx
  · rw [run_bind, Atomic.run_hasWaitQueueManager]
    split
    · rw [run_bind, Atomic.run_enterWaitQueue]
      refine Dropped.after (undequeued_of_log (enterWaitQueue_log s1 w)) ?_
      dsimp only
      split
      · rw [run_bind, Atomic.run_compareExchange]
        refine Dropped.after (undequeued_of_log (compareExchange_log _ w .setSessionWaiting)) ?_
        split
        · exact dropped_of_unqueued (p := do
            Atomic.callback (.onEnterWaitQueue w _)
            return true) ⟨trivial, fun _ => trivial⟩ _
        · rw [run_bind, run_pure]
          exact dropped_of_unqueued (disconnect_unqueued w _) _
      · exact (undequeued_of_log rfl).dropped
    · exact (undequeued_of_log rfl).dropped

theorem step_dropped {s : Service ι} (h : NoWaiting s) (happening : Happening ι) :
    Dropped s (s.step happening) := by
  cases happening with
  | expire w => exact (undequeued_of_log rfl).dropped
  | call c =>
    cases c with
    | addSession w =>
      simp only [step, code, run_bind, run_pure]
      exact addSession_dropped h w
    | removeSession w => exact removeSession_dropped h w
    | setSessionInGame w =>
      simp only [step, code, run_bind, run_pure]
      exact dropped_of_unqueued (p := setSessionInGame w) ⟨trivial, fun _ => trivial⟩ s
    | disconnect w reason => exact dropped_of_unqueued (disconnect_unqueued w reason) s

/-! ## Waiting sessions in a run -/

/-- A run of a service that starts without sessions, where all sessions are new and no
compare-and-swap fails spuriously. -/
structure History (ι : Type) where
  mMaxSessionCount : Int
  mMaxWaitSize : Option Int
  happenings : List (Happening ι)

namespace History

variable (H : History ι)

/-- The service when the `k`-th happening comes. -/
def before (k : Nat) : Service ι :=
  (new H.mMaxSessionCount H.mMaxWaitSize (fun _ => .disconnected) fun _ => false).run
    (H.happenings.take k)

/-- What is logged from the `k`-th happening on and before the `j`-th. -/
def logged (k j : Nat) : List (Event ι) := (H.before j).log.drop (H.before k).log.length

/-- The `k`-th happening lets the fresh session `w` into the wait queue. -/
structure Entered (k : Nat) (w : ι) : Prop where
  called : H.happenings[k]? = some (.call (.addSession w))
  disconnected : (H.before k).mSessionState w = .disconnected
  neverConnected : .onConnected w ∉ (H.before k).log
  returned : ((addSession w).run exec (H.before k)).2 = true
  entered : ∃ myTicket, .onEnterWaitQueue w myTicket ∈ H.logged k (k + 1)

/-- The session is in the waiting state from then until it is connected or disconnected. -/
def StaysWaiting (k : Nat) (w : ι) : Prop :=
  ∀ j, k < j → .onConnected w ∉ H.logged (k + 1) j → .disconnect w ∉ H.logged (k + 1) j →
    (H.before j).mSessionState w = .waiting

/-- The `j`-th happening dequeues the session, which was not disconnected since it entered. -/
structure Dequeued (k : Nat) (w : ι) (j : Nat) : Prop where
  later : k < j
  kept : .disconnect w ∉ H.logged (k + 1) j
  dequeued : .dequeued w ∈ H.logged j (j + 1)

/-- The `j`-th happening admits the session. -/
structure Admitted (w : ι) (j : Nat) : Prop where
  connected : (H.before (j + 1)).mSessionState w = .connected
  notified : (H.before (j + 1)).log.count (.onConnected w) = 1
  member : w ∈ (H.before (j + 1)).mpSessionManager.mSessions

theorem before_succ {k : Nat} {h : Happening ι} (hk : H.happenings[k]? = some h) :
    H.before (k + 1) = (H.before k).step h := run_take_succ hk

theorem before_noWaiting (k : Nat) : NoWaiting (H.before k) :=
  run_noWaiting _ _ fun _ h => by cases h

theorem not_staysWaiting (k : Nat) (w : ι) : ¬ H.StaysWaiting k w := by
  intro h
  apply H.before_noWaiting (k + 1) w
  apply h (k + 1) (Nat.lt_succ_self k)
  · simp [logged]
  · simp [logged]

/-- A session that is dequeued is disconnected when the call is over. -/
theorem disconnected_of_dequeued {w : ι} {j : Nat} (h : .dequeued w ∈ H.logged j (j + 1)) :
    (H.before (j + 1)).mSessionState w = .disconnected := by
  unfold logged at h
  cases hj : H.happenings[j]? with
  | none =>
    rw [show H.before (j + 1) = H.before j from run_take_stop hj] at h
    simp at h
  | some happening =>
    obtain ⟨new, hlog, hnew⟩ := step_dropped (H.before_noWaiting j) happening
    rw [H.before_succ hj] at h ⊢
    rw [hlog, List.drop_left] at h
    exact hnew w h

/-- **Waiting sessions are kept waiting, and are admitted, exactly where there are none**: the first
holds of the runs in which no fresh session enters the wait queue, the second of those in which
none that entered is dequeued. -/
theorem waiting_iff :
    ((∀ k w, H.Entered k w → H.StaysWaiting k w) ↔ ∀ k w, ¬ H.Entered k w) ∧
    ((∀ k w j, H.Entered k w → H.Dequeued k w j → H.Admitted w j) ↔
      ∀ k w j, H.Entered k w → ¬ H.Dequeued k w j) := by
  constructor
  · constructor
    · exact fun h k w he => H.not_staysWaiting k w (h k w he)
    · exact fun h k w he => (h k w he).elim
  · constructor
    · intro h k w j he hd
      have hconn := (h k w j he hd).connected
      rw [H.disconnected_of_dequeued hd.dequeued] at hconn
      cases hconn
    · exact fun h k w j he hd => (h k w j he hd).elim

/-- A service for one session: the second session enters the wait queue and is not waiting; when the
first leaves, it is disconnected. -/
theorem not_waiting_second :
    let H : History Nat := ⟨1, some 10, [.call (.addSession 0), .call (.addSession 1),
      .call (.removeSession 0)]⟩
    H.Entered 1 1 ∧ ¬ H.StaysWaiting 1 1 ∧ H.Dequeued 1 1 2 ∧ ¬ H.Admitted 1 2 := by
  intro H
  have hd : H.Dequeued 1 1 2 := ⟨by decide, by decide, by decide⟩
  refine ⟨⟨rfl, by decide, by decide, by decide, 0, by decide⟩, H.not_staysWaiting 1 1, hd, ?_⟩
  intro h
  have hconn := h.connected
  rw [H.disconnected_of_dequeued hd.dequeued] at hconn
  cases hconn

end History

end CppNetEngine.Service
