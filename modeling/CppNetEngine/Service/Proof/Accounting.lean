import CppNetEngine.Service.Service

/-!
# Session capacity accounting

The session count should be the number of members. `discrepancy` is by how much it is not; every
call leaves it alone except a `RemoveSession` of a session that is no member, which lowers it by one
(`step_discrepancy`): `admitWaitingSession` gives away or gives back a ticket nobody kept.
`accounted_iff` is the resulting condition on the calls.
-/

namespace CppNetEngine

open Program

variable {ι : Type} [DecidableEq ι]

/-! ## The discrepancy -/

namespace SessionManager

/-- The session count, less the number of members. -/
def discrepancy (m : SessionManager ι) : Int := m.mCurrentSessionCount - m.mSessions.card

theorem discrepancy_addSession (m : SessionManager ι) (w : ι) :
    (m.addSession w).1.discrepancy = m.discrepancy := by
  unfold SessionManager.addSession
  split
  · rfl
  · split
    · rfl
    · rename_i h
      simp only [discrepancy, Finset.card_insert_of_notMem h]
      omega

theorem discrepancy_addWaitingSession (m : SessionManager ι) (w : ι) :
    (m.addWaitingSession w).1.discrepancy =
      m.discrepancy - (if (m.addWaitingSession w).2 then 1 else 0) := by
  unfold SessionManager.addWaitingSession
  split
  · simp
  · rename_i h
    simp only [discrepancy, Finset.card_insert_of_notMem h, if_true]
    omega

theorem discrepancy_removeSession_drop (m : SessionManager ι) (w : ι) :
    (m.removeSession w false).discrepancy = m.discrepancy := by
  unfold SessionManager.removeSession
  split
  · rename_i h
    have := Finset.card_erase_add_one h
    simp only [discrepancy]
    simp only [Bool.false_eq_true, if_false]
    omega
  · rfl

theorem discrepancy_removeSession_keep (m : SessionManager ι) (w : ι) :
    (m.removeSession w true).discrepancy = m.discrepancy + (if w ∈ m.mSessions then 1 else 0) := by
  unfold SessionManager.removeSession
  split
  · rename_i h
    have := Finset.card_erase_add_one h
    simp only [discrepancy, if_true]
    omega
  · simp

omit [DecidableEq ι] in
theorem discrepancy_releaseKeepTicket (m : SessionManager ι) :
    m.releaseKeepTicket.discrepancy = m.discrepancy - 1 := by
  simp only [discrepancy, SessionManager.releaseKeepTicket]
  omega

theorem mem_of_addSession {m : SessionManager ι} {w : ι} (h : (m.addSession w).2 = true) :
    w ∈ (m.addSession w).1.mSessions := by
  unfold addSession at h ⊢
  split at h
  · cases h
  · split at h
    · cases h
    · rw [if_neg (by assumption), if_neg (by assumption)]
      exact Finset.mem_insert_self _ _

/-- The bookkeeping is right. -/
def Accounted (m : SessionManager ι) : Prop :=
  0 ≤ m.mCurrentSessionCount ∧ m.mCurrentSessionCount ≤ m.mMaxSessionCount ∧
    m.mCurrentSessionCount = m.mSessions.card

end SessionManager

namespace Service

/-! ## Actions and the session manager -/

/-- Actions that do not touch the session manager. -/
def Quiet : Act ι → Prop
  | .addSession _ => False
  | .addWaitingSession _ => False
  | .removeSession _ _ => False
  | .releaseKeepTicket => False
  | _ => True

omit [DecidableEq ι] in
@[simp] theorem enterWaitQueue_manager (s : Service ι) (w : ι) :
    (s.enterWaitQueue w).1.mpSessionManager = s.mpSessionManager := by
  unfold enterWaitQueue
  split <;> rfl

omit [DecidableEq ι] in
@[simp] theorem dequeueWaitQueue_manager (s : Service ι) :
    s.dequeueWaitQueue.1.mpSessionManager = s.mpSessionManager := by
  unfold dequeueWaitQueue
  split <;> rfl

@[simp] theorem compareExchange_manager (s : Service ι) (w : ι) (swap : StateSwap) :
    (s.compareExchange w swap).1.mpSessionManager = s.mpSessionManager := by
  unfold compareExchange
  split <;> rfl

theorem exec_quiet (a : Act ι) (s : Service ι) (h : Quiet a) :
    (exec a s).1.mpSessionManager = s.mpSessionManager := by
  cases a with
  | addSession w => exact h.elim
  | addWaitingSession w => exact h.elim
  | removeSession w keep => exact h.elim
  | releaseKeepTicket => exact h.elim
  | hasWaitQueueManager => rfl
  | enterWaitQueue w => exact enterWaitQueue_manager s w
  | dequeueWaitQueue => exact dequeueWaitQueue_manager s
  | compareExchange w swap => exact compareExchange_manager s w swap
  | exchange w => rfl
  | callback event => rfl

omit [DecidableEq ι] in
theorem disconnect_uses (w : ι) (reason : DisconnectReason) : (disconnect w reason).Uses Quiet := by
  refine ⟨trivial, fun wasConnected => ?_⟩
  cases wasConnected
  · trivial
  · exact ⟨trivial, fun _ => trivial⟩

omit [DecidableEq ι] in
theorem setConnected_uses (w : ι) : (setConnected w).Uses Quiet := by
  refine ⟨trivial, fun connected => ?_⟩
  cases connected
  · exact ⟨trivial, fun _ => trivial⟩
  · trivial

@[simp] theorem disconnect_manager (w : ι) (reason : DisconnectReason) (s : Service ι) :
    ((disconnect w reason).run exec s).1.mpSessionManager = s.mpSessionManager :=
  run_unchanged exec (f := Service.mpSessionManager) exec_quiet (disconnect_uses w reason) s

@[simp] theorem setConnected_manager (w : ι) (s : Service ι) :
    ((setConnected w).run exec s).1.mpSessionManager = s.mpSessionManager :=
  run_unchanged exec (f := Service.mpSessionManager) exec_quiet (setConnected_uses w) s

/-! ## Calls and the discrepancy -/

/-- Admission always uses up one kept ticket. -/
theorem admitWaitingSession_discrepancy (s : Service ι) :
    (admitWaitingSession.run exec s).1.mpSessionManager.discrepancy =
      s.mpSessionManager.discrepancy - 1 := by
  unfold admitWaitingSession
  rw [run_bind, Atomic.run_dequeueWaitQueue, ← s.dequeueWaitQueue_manager]
  generalize s.dequeueWaitQueue = r
  obtain ⟨s1, pWaitSession⟩ := r
  cases pWaitSession with
  | none => exact s1.mpSessionManager.discrepancy_releaseKeepTicket
  | some w =>
    have hadd := s1.mpSessionManager.discrepancy_addWaitingSession w
    dsimp only
    rw [run_bind, Atomic.run_addWaitingSession]
    split
    · rename_i hadded
      rw [if_pos hadded] at hadd
      rw [run_bind, Atomic.run_compareExchange]
      split
      · simpa using hadd
      · simpa [SessionManager.discrepancy_removeSession_drop] using hadd
    · rename_i hadded
      rw [if_neg hadded] at hadd
      simpa [SessionManager.discrepancy_releaseKeepTicket] using hadd

/-- A member that goes leaves a ticket for the admission; a session that is no member does not. -/
theorem removeSession_discrepancy (s : Service ι) (w : ι) :
    ((removeSession w).run exec s).1.mpSessionManager.discrepancy =
      s.mpSessionManager.discrepancy - (if w ∈ s.mpSessionManager.mSessions then 0 else 1) := by
  unfold removeSession
  rw [run_bind, Atomic.run_removeSession, admitWaitingSession_discrepancy,
    SessionManager.discrepancy_removeSession_keep]
  split <;> omega

/-- `AddSession` keeps the books: the one `RemoveSession` it makes is of the session it added. -/
theorem addSession_discrepancy (s : Service ι) (w : ι) :
    ((addSession w).run exec s).1.mpSessionManager.discrepancy =
      s.mpSessionManager.discrepancy := by
  have hadd := s.mpSessionManager.discrepancy_addSession w
  unfold addSession
  rw [run_bind, Atomic.run_addSession]
  split
  · rename_i hadded
    have hmem : w ∈ (s.mpSessionManager.addSession w).1.mSessions :=
      SessionManager.mem_of_addSession hadded
    rw [run_bind]
    split
    · simpa using hadd
    · simpa [removeSession_discrepancy, hmem] using hadd
  · rw [run_bind, Atomic.run_hasWaitQueueManager]
    split
    · rw [run_bind, Atomic.run_enterWaitQueue]
      split
      · rw [run_bind, Atomic.run_compareExchange]
        split <;> simpa using hadd
      · simpa using hadd
    · simpa using hadd

theorem step_discrepancy (s : Service ι) (h : Happening ι) :
    (s.step h).mpSessionManager.discrepancy = s.mpSessionManager.discrepancy -
      (match h with
        | .call (.removeSession w) => if w ∈ s.mpSessionManager.mSessions then 0 else 1
        | _ => 0) := by
  cases h with
  | expire w => simp [step, expire]
  | call c =>
    cases c with
    | addSession w => simp [step, code, addSession_discrepancy]
    | removeSession w => exact removeSession_discrepancy s w
    | setSessionInGame w => simp [step, code, setSessionInGame]
    | disconnect w reason => simp [step, code]

/-! ## The bound -/

theorem exec_bound (a : Act ι) (s : Service ι)
    (h : s.mpSessionManager.mCurrentSessionCount ≤ s.mpSessionManager.mMaxSessionCount) :
    (exec a s).1.mpSessionManager.mCurrentSessionCount ≤
      (exec a s).1.mpSessionManager.mMaxSessionCount := by
  by_cases hq : Quiet a
  · rw [exec_quiet a s hq]
    exact h
  · cases a with
    | addSession w =>
      simp only [exec, SessionManager.addSession]
      split
      · exact h
      · split
        · exact h
        · dsimp only
          omega
    | addWaitingSession w =>
      simp only [exec, SessionManager.addWaitingSession]
      split <;> exact h
    | removeSession w keep =>
      simp only [exec, SessionManager.removeSession]
      split
      · dsimp only
        split <;> omega
      · exact h
    | releaseKeepTicket =>
      simp only [exec, SessionManager.releaseKeepTicket]
      omega
    | hasWaitQueueManager => exact (hq trivial).elim
    | enterWaitQueue w => exact (hq trivial).elim
    | dequeueWaitQueue => exact (hq trivial).elim
    | compareExchange w swap => exact (hq trivial).elim
    | exchange w => exact (hq trivial).elim
    | callback event => exact (hq trivial).elim

theorem step_bound (s : Service ι) (happening : Happening ι)
    (h : s.mpSessionManager.mCurrentSessionCount ≤ s.mpSessionManager.mMaxSessionCount) :
    (s.step happening).mpSessionManager.mCurrentSessionCount ≤
      (s.step happening).mpSessionManager.mMaxSessionCount := by
  cases happening with
  | expire w => exact h
  | call c =>
    exact run_invariant exec
      (I := fun s => s.mpSessionManager.mCurrentSessionCount ≤ s.mpSessionManager.mMaxSessionCount)
      (fun a s _ => exec_bound a s) (code c).uses_true s h

/-! ## Runs -/

theorem run_take_succ {s : Service ι} {happenings : List (Happening ι)} {k : Nat}
    {h : Happening ι} (hk : happenings[k]? = some h) :
    s.run (happenings.take (k + 1)) = (s.run (happenings.take k)).step h := by
  rw [List.take_add_one, hk]
  exact List.foldl_append

theorem run_take_stop {s : Service ι} {happenings : List (Happening ι)} {k : Nat}
    (hk : happenings[k]? = none) :
    s.run (happenings.take (k + 1)) = s.run (happenings.take k) := by
  rw [List.take_add_one, hk]
  exact congrArg s.run (List.append_nil _)

/-- **When the books are right between all calls**: the maximum is not negative, and only members
are removed. -/
theorem accounted_iff (mMaxSessionCount : Int) (mMaxWaitSize : Option Int)
    (mSessionState : ι → SessionState) (spurious : Nat → Bool) (happenings : List (Happening ι)) :
    let before k := (new mMaxSessionCount mMaxWaitSize mSessionState spurious).run
      (happenings.take k)
    (∀ k, (before k).mpSessionManager.Accounted) ↔
      0 ≤ mMaxSessionCount ∧ ∀ k w, happenings[k]? = some (.call (.removeSession w)) →
        w ∈ (before k).mpSessionManager.mSessions := by
  intro before
  have hnext : ∀ {k happening}, happenings[k]? = some happening →
      before (k + 1) = (before k).step happening := fun hk => run_take_succ hk
  constructor
  · intro h
    refine ⟨(h 0).2.1, fun k w hk => ?_⟩
    by_contra hw
    have hstep := step_discrepancy (before k) (.call (.removeSession w))
    rw [← hnext hk] at hstep
    obtain ⟨-, -, h1⟩ := h k
    obtain ⟨-, -, h2⟩ := h (k + 1)
    simp only [if_neg hw, SessionManager.discrepancy] at hstep
    omega
  · rintro ⟨hmax, hremove⟩ k
    -- the discrepancy stays 0 and the count at most its maximum
    have hinv : (before k).mpSessionManager.discrepancy = 0 ∧
        (before k).mpSessionManager.mCurrentSessionCount ≤
          (before k).mpSessionManager.mMaxSessionCount := by
      induction k with
      | zero => exact ⟨rfl, hmax⟩
      | succ k ih =>
        obtain ⟨hzero, hle⟩ := ih
        cases hk : happenings[k]? with
        | none =>
          rw [show before (k + 1) = before k from run_take_stop hk]
          exact ⟨hzero, hle⟩
        | some happening =>
          rw [hnext hk]
          refine ⟨?_, step_bound _ _ hle⟩
          rw [step_discrepancy, hzero]
          split
          · rw [if_pos (hremove k _ hk)]
            rfl
          · rfl
    obtain ⟨hzero, hle⟩ := hinv
    unfold SessionManager.discrepancy at hzero
    exact ⟨by omega, hle, by omega⟩

/-- Removing a session that was never added leaves a count of -1. -/
theorem not_accounted_unknown :
    ¬ ((new (ι := Nat) 1 none (fun _ => .disconnected) fun _ => false).run
      [.call (.removeSession 0)]).mpSessionManager.Accounted := by
  unfold SessionManager.Accounted
  decide

end Service

end CppNetEngine
