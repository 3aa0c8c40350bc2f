import CppNetEngine.Service.Proof.Waiting

/-!
# Sessions that are not admitted

What `AddSession` leaves behind where it returns false. The books stay right, and a session that
was connected is left alone where neither the session manager nor the wait queue took it; where one
of them did, it is disconnected (`Unadmitted.state`). `RemoveSession` takes it out of the sessions
again, and the admission it makes lets in another session, unless the session itself was waiting
(`Unadmitted.member`).
-/

namespace CppNetEngine.Service

open Program

variable {ι : Type} [DecidableEq ι]

/-- The sessions in the wait queue. -/
def waiting (s : Service ι) : List ι :=
  match s.mpWaitQueueManager with
  | none => []
  | some q => q.mEnterWaitQueue

/-- The session manager takes the session. -/
def Inserts (s : Service ι) (w : ι) : Prop := (s.mpSessionManager.addSession w).2 = true

/-- The session manager refuses the session, and the wait queue takes it. -/
def Queues (s : Service ι) (w : ι) : Prop :=
  (s.mpSessionManager.addSession w).2 = false ∧ (s.enterWaitQueue w).2.isSome = true

/-- Nothing of a session is left in a service by a call. -/
structure NoTrace (before after : Service ι) (w : ι) : Prop where
  waiting : after.waiting.count w ≤ before.waiting.count w
  member : w ∈ after.mpSessionManager.mSessions → w ∈ before.mpSessionManager.mSessions
  state : before.mSessionState w = .connected ∨ before.mSessionState w = .inGame →
    after.mSessionState w = before.mSessionState w
  count : before.mpSessionManager.mCurrentSessionCount = before.mpSessionManager.mSessions.card →
    after.mpSessionManager.mCurrentSessionCount = after.mpSessionManager.mSessions.card

/-- What a call that does not admit a session makes of a service. -/
structure Unadmitted (before after : Service ι) (w : ι) : Prop where
  waiting : ¬ before.Queues w → after.waiting.count w ≤ before.waiting.count w
  member : ¬ (before.mSessionState w = .waiting ∧ before.dequeueWaitQueue.2 = some w) →
    w ∈ after.mpSessionManager.mSessions → w ∈ before.mpSessionManager.mSessions
  state : before.mSessionState w = .connected ∨ before.mSessionState w = .inGame →
    after.mSessionState w = before.mSessionState w ∨
      (after.mSessionState w = .disconnected ∧ (before.Inserts w ∨ before.Queues w))
  count : before.mpSessionManager.mCurrentSessionCount = before.mpSessionManager.mSessions.card →
    after.mpSessionManager.mCurrentSessionCount = after.mpSessionManager.mSessions.card

/-! ## The wait queue -/

/-- Actions that let no session into the wait queue. -/
def Unentered : Act ι → Prop
  | .enterWaitQueue _ => False
  | _ => True

omit [DecidableEq ι] in
theorem dequeueWaitQueue_suffix (s : Service ι) : s.dequeueWaitQueue.1.waiting <:+ s.waiting := by
  unfold dequeueWaitQueue waiting
  cases hq : s.mpWaitQueueManager with
  | none =>
    simp only [hq]
    exact List.suffix_rfl
  | some q =>
    dsimp only
    unfold WaitQueueManager.dequeueWaitQueue
    have hsuffix := List.dropWhile_suffix (l := q.mEnterWaitQueue) (!s.live ·)
    cases hrest : q.mEnterWaitQueue.dropWhile (!s.live ·) with
    | nil => exact List.nil_suffix
    | cons w rest =>
      rw [hrest] at hsuffix
      exact (List.suffix_cons w rest).trans hsuffix

theorem exec_suffix (a : Act ι) (s : Service ι) (ha : Unentered a) :
    (exec a s).1.waiting <:+ s.waiting := by
  cases a with
  | enterWaitQueue w => exact ha.elim
  | dequeueWaitQueue => exact s.dequeueWaitQueue_suffix
  | compareExchange w swap =>
    simp only [exec, compareExchange]
    split <;> exact List.suffix_rfl
  | addSession w => exact List.suffix_rfl
  | addWaitingSession w => exact List.suffix_rfl
  | removeSession w keep => exact List.suffix_rfl
  | releaseKeepTicket => exact List.suffix_rfl
  | hasWaitQueueManager => exact List.suffix_rfl
  | exchange w => exact List.suffix_rfl
  | callback event => exact List.suffix_rfl

/-- A program that lets no session into the wait queue leaves an end of it. -/
theorem run_suffix {β : Type} {p : Code ι β} (hp : p.Uses Unentered) (s : Service ι) :
    (p.run exec s).1.waiting <:+ s.waiting :=
  run_invariant exec (I := fun s' => s'.waiting <:+ s.waiting)
    (fun a s' ha h => (exec_suffix a s' ha).trans h) hp s List.suffix_rfl

omit [DecidableEq ι] in
theorem disconnect_unentered (w : ι) (reason : DisconnectReason) :
    (disconnect w reason).Uses Unentered := by
  refine ⟨trivial, fun wasConnected => ?_⟩
  cases wasConnected
  · trivial
  · exact ⟨trivial, fun _ => trivial⟩

omit [DecidableEq ι] in
theorem removeSession_unentered (w : ι) : (removeSession w).Uses Unentered := by
  refine ⟨trivial, fun _ => ⟨trivial, fun pWaitSession => ?_⟩⟩
  cases pWaitSession with
  | none => exact ⟨trivial, fun _ => trivial⟩
  | some x =>
    refine ⟨trivial, fun added => ?_⟩
    cases added with
    | false => exact ⟨trivial, fun _ => disconnect_unentered x .stateError⟩
    | true =>
      refine ⟨trivial, fun connected => ?_⟩
      cases connected with
      | false => exact ⟨trivial, fun _ => disconnect_unentered x .stateError⟩
      | true => exact ⟨trivial, fun _ => trivial⟩

/-! ## The sessions -/

theorem compareExchange_failed {s : Service ι} {w : ι} {swap : StateSwap}
    (h : (s.compareExchange w swap).2 = false) :
    (s.compareExchange w swap).1 = { s with spurious := fun n => s.spurious (n + 1) } := by
  unfold compareExchange at h ⊢
  split at h
  · cases h
  · rw [if_neg (by assumption)]

/-- Where neither compare-and-swap connects the session, only their answers are used up. -/
theorem setConnected_failed {s : Service ι} {w : ι} (h : ((setConnected w).run exec s).2 = false) :
    ∃ spurious, ((setConnected w).run exec s).1 = { s with spurious := spurious } := by
  unfold setConnected at h ⊢
  rw [run_bind, Atomic.run_compareExchange] at h ⊢
  cases hfirst : (s.compareExchange w .setSessionConnected).2 with
  | true =>
    rw [hfirst] at h
    cases h
  | false =>
    rw [hfirst] at h
    rw [compareExchange_failed hfirst] at h ⊢
    rw [if_neg Bool.false_ne_true, Atomic.run_compareExchange] at h ⊢
    rw [compareExchange_failed h]
    exact ⟨_, rfl⟩

/-- **The admission of another session**: one that is no member does not become one, unless it is
waiting and the next in the queue. -/
theorem admitWaitingSession_member {s : Service ι} {w : ι}
    (hnext : ¬ (s.mSessionState w = .waiting ∧ s.dequeueWaitQueue.2 = some w))
    (hw : w ∉ s.mpSessionManager.mSessions) :
    w ∉ (admitWaitingSession.run exec s).1.mpSessionManager.mSessions := by
  have hmanager := s.dequeueWaitQueue_manager
  have hstate := s.dequeueWaitQueue_state
  unfold admitWaitingSession
  rw [run_bind, Atomic.run_dequeueWaitQueue]
  generalize s.dequeueWaitQueue = r at hmanager hstate hnext
  obtain ⟨s1, pWaitSession⟩ := r
  rw [← show s1.mpSessionManager = s.mpSessionManager from hmanager] at hw
  rw [← show s1.mSessionState = s.mSessionState from hstate] at hnext
  cases pWaitSession with
  | none => exact hw
  | some x =>
    dsimp only at hnext ⊢
    rw [run_bind, Atomic.run_addWaitingSession]
    by_cases hx : x ∈ s1.mpSessionManager.mSessions
    · -- a member already
      rw [SessionManager.addWaitingSession, if_pos hx]
      dsimp only
      rw [if_neg Bool.false_ne_true, run_bind, Atomic.run_releaseKeepTicket, disconnect_manager]
      exact hw
    · rw [SessionManager.addWaitingSession, if_neg hx]
      dsimp only
      rw [if_pos rfl, run_bind, Atomic.run_compareExchange]
      set s2 : Service ι := { s1 with
        mpSessionManager := { s1.mpSessionManager with
          mSessions := insert x s1.mpSessionManager.mSessions } }
      cases hcas : (s2.compareExchange x .setWaitingToConnected).2 with
      | false =>
        rw [if_neg Bool.false_ne_true, run_bind, Atomic.run_removeSession, disconnect_manager,
          compareExchange_manager]
        simp [s2, SessionManager.removeSession, hw]
      | true =>
        -- it was waiting, so it is another one
        rw [if_pos rfl, Atomic.run_callback, compareExchange_manager]
        have hwaiting : s1.mSessionState x = .waiting := by
          unfold compareExchange at hcas
          split at hcas
          · rename_i h
            exact h.1
          · cases hcas
        have hne : w ≠ x := by
          rintro rfl
          exact hnext ⟨hwaiting, rfl⟩
        simp [s2, hne, hw]

/-! ## Failed calls -/

omit [DecidableEq ι] in
theorem dequeueWaitQueue_congr {s s' : Service ι}
    (hqueue : s.mpWaitQueueManager = s'.mpWaitQueueManager) (hlive : s.live = s'.live) :
    s.dequeueWaitQueue.2 = s'.dequeueWaitQueue.2 := by
  unfold dequeueWaitQueue
  rw [hqueue, hlive]
  cases s'.mpWaitQueueManager <;> rfl

theorem notMem_removeSession (m : SessionManager ι) (w : ι) :
    w ∉ (m.removeSession w true).mSessions := by
  unfold SessionManager.removeSession
  split
  · exact Finset.notMem_erase w _
  · assumption

theorem addSession_refused {m : SessionManager ι} {w : ι} (h : (m.addSession w).2 = false) :
    (m.addSession w).1 = m := by
  unfold SessionManager.addSession at h ⊢
  split
  · rfl
  · rename_i hroom
    rw [if_neg hroom] at h
    split
    · rfl
    · rename_i hw
      rw [if_neg hw] at h
      cases h

omit [DecidableEq ι] in
theorem enterWaitQueue_refused {s : Service ι} {w : ι} (h : (s.enterWaitQueue w).2 = none) :
    (s.enterWaitQueue w).1 = s := by
  obtain ⟨manager, queue, state, live, spurious, log⟩ := s
  cases queue with
  | none => rfl
  | some q =>
    simp only [enterWaitQueue, WaitQueueManager.enterWaitQueue] at h ⊢
    split
    · rfl
    · rename_i hroom
      rw [if_neg hroom] at h
      cases h

theorem Unadmitted.refl (s : Service ι) (w : ι) : Unadmitted s s w where
  waiting := fun _ => Nat.le_refl _
  member := fun _ h => h
  state := fun _ => .inl rfl
  count := id

/-- The bookkeeping of a failed call. -/
theorem count_addSession {s : Service ι} {w : ι}
    (h : s.mpSessionManager.mCurrentSessionCount = s.mpSessionManager.mSessions.card) :
    ((addSession w).run exec s).1.mpSessionManager.mCurrentSessionCount =
      ((addSession w).run exec s).1.mpSessionManager.mSessions.card := by
  have hbooks := addSession_discrepancy s w
  unfold SessionManager.discrepancy at hbooks
  omega

/-- **What a call that returns false has done**: it has taken the session out again and disconnected
it, it has done nothing, or it has disconnected a session that is in the wait queue. -/
theorem addSession_failed {s : Service ι} {w : ι} (h : ((addSession w).run exec s).2 = false) :
    (∃ spurious, s.Inserts w ∧ ((addSession w).run exec s).1 =
      ((disconnect w .stateError).run exec ((removeSession w).run exec
        { s with mpSessionManager := (s.mpSessionManager.addSession w).1,
                 spurious := spurious }).1).1) ∨
    ((addSession w).run exec s).1 = s ∨
    (s.Queues w ∧ ((addSession w).run exec s).1 =
      ((disconnect w .stateError).run exec
        ((s.enterWaitQueue w).1.compareExchange w .setSessionWaiting).1).1) := by
  unfold addSession at h ⊢
  rw [run_bind, Atomic.run_addSession] at h ⊢
  set s1 : Service ι := { s with mpSessionManager := (s.mpSessionManager.addSession w).1 }
  dsimp only at h ⊢
  cases hadd : (s.mpSessionManager.addSession w).2 with
  | true =>
    rw [hadd] at h
    rw [if_pos rfl, run_bind] at h ⊢
    cases hconnected : ((setConnected w).run exec s1).2 with
    | true =>
      rw [hconnected] at h
      cases h
    | false =>
      obtain ⟨spurious, hfailed⟩ := setConnected_failed hconnected
      rw [if_neg Bool.false_ne_true, hfailed, run_bind, run_bind, run_pure]
      exact .inl ⟨spurious, hadd, rfl⟩
  | false =>
    rw [hadd] at h
    have hs1 : s1 = s := by simp only [s1, addSession_refused hadd]
    rw [hs1] at h ⊢
    rw [if_neg Bool.false_ne_true, run_bind, Atomic.run_hasWaitQueueManager] at h ⊢
    cases hmanager : s.mpWaitQueueManager.isSome with
    | false => exact .inr (.inl rfl)
    | true =>
      rw [hmanager] at h
      rw [if_pos rfl, run_bind, Atomic.run_enterWaitQueue] at h ⊢
      cases hticket : (s.enterWaitQueue w).2 with
      | none =>
        rw [enterWaitQueue_refused hticket]
        exact .inr (.inl rfl)
      | some myTicket =>
        rw [hticket] at h
        dsimp only at h ⊢
        rw [run_bind, Atomic.run_compareExchange] at h ⊢
        cases hwaiting : ((s.enterWaitQueue w).1.compareExchange w .setSessionWaiting).2 with
        | true =>
          rw [hwaiting] at h
          cases h
        | false =>
          rw [if_neg Bool.false_ne_true, run_bind, run_pure]
          exact .inr (.inr ⟨⟨hadd, by rw [hticket]; rfl⟩, rfl⟩)

/-- **An admission that fails**: `AddSession` returned false. -/
theorem addSession_unadmitted (s : Service ι) (w : ι)
    (h : ((addSession w).run exec s).2 = false) :
    Unadmitted s ((addSession w).run exec s).1 w := by
  have hcount : s.mpSessionManager.mCurrentSessionCount = s.mpSessionManager.mSessions.card →
      ((addSession w).run exec s).1.mpSessionManager.mCurrentSessionCount =
        ((addSession w).run exec s).1.mpSessionManager.mSessions.card := count_addSession
  obtain ⟨spurious, hinserts, heq⟩ | heq | ⟨hqueues, heq⟩ := addSession_failed h <;>
    rw [heq] at hcount ⊢
  · set s1 : Service ι :=
      { s with mpSessionManager := (s.mpSessionManager.addSession w).1, spurious := spurious }
    refine ⟨fun _ => ?_, fun hnext => ?_, fun _ => ?_, hcount⟩
    · have hremoved := run_suffix (removeSession_unentered w) s1
      have hdisconnected := run_suffix (disconnect_unentered w .stateError)
        ((removeSession w).run exec s1).1
      exact (hdisconnected.trans hremoved).sublist.count_le w
    · rw [disconnect_manager]
      refine fun hmember => (?_ : w ∉ _) hmember |>.elim
      unfold removeSession
      rw [run_bind, Atomic.run_removeSession]
      refine admitWaitingSession_member (fun hw => hnext ⟨hw.1, ?_⟩) (notMem_removeSession _ w)
      rw [← hw.2]
      exact dequeueWaitQueue_congr rfl rfl
    · refine .inr ⟨?_, .inl hinserts⟩
      rw [disconnect_state]
      exact Function.update_self _ _ _
  · exact .refl s w
  · refine ⟨fun hno => (hno hqueues).elim, fun _ hmember => ?_, fun _ => ?_, hcount⟩
    · rwa [disconnect_manager, compareExchange_manager, enterWaitQueue_manager] at hmember
    · refine .inr ⟨?_, .inr hqueues⟩
      rw [disconnect_state]
      exact Function.update_self _ _ _

/-- A service for two sessions, with room for five to wait. -/
def twoSlots (mSessionState : SessionState) (spurious : Nat → Bool) : Service Nat :=
  new 2 (some 5) (fun _ => mSessionState) spurious

/-- Session 0 is in the game. -/
def oneInGame : Service Nat :=
  (twoSlots .disconnected fun _ => false).run [.call (.addSession 0), .call (.setSessionInGame 0)]

/-- Session 0 is waiting, and the second compare-and-swap from now on fails spuriously. -/
def oneWaiting : Service Nat :=
  { twoSlots .waiting fun n => n == 1 with mpWaitQueueManager := some ⟨5, 1, 0, [0]⟩ }

theorem addSession_unadmitted_oneInGame :
    Unadmitted oneInGame ((addSession 0).run exec oneInGame).1 0 :=
  addSession_unadmitted oneInGame 0 rfl

/-- **Traces of failed admissions**: a member that is added again enters the wait queue and is
disconnected, a connected session that is no member is disconnected, and a waiting one becomes a
member in the admission made for its removal. -/
theorem not_noTrace :
    (((addSession 0).run exec oneInGame).2 = false ∧
      ¬ NoTrace oneInGame ((addSession 0).run exec oneInGame).1 0) ∧
    (((addSession 0).run exec (twoSlots .connected fun _ => false)).2 = false ∧
      ¬ NoTrace (twoSlots .connected fun _ => false)
        ((addSession 0).run exec (twoSlots .connected fun _ => false)).1 0) ∧
    (((addSession 0).run exec oneWaiting).2 = false ∧
      ¬ NoTrace oneWaiting ((addSession 0).run exec oneWaiting).1 0) := by
  refine ⟨⟨rfl, fun h => ?_⟩, ⟨rfl, fun h => ?_⟩, ⟨rfl, fun h => ?_⟩⟩
  · exact absurd (h.state (.inr rfl)) (by decide)
  · exact absurd (h.state (.inl rfl)) (by decide)
  · exact absurd (h.member (by decide)) (by decide)

end CppNetEngine.Service
