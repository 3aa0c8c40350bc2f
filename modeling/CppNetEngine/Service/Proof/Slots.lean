import CppNetEngine.Service.Service

/-!
# Waiting while a slot is free

`AddSession` and `RemoveSession` by any number of threads, action by action. A session enters the
wait queue because there was no slot when `AddSession` asked for one, and a slot is given back
because nobody waited when the queue was asked, or because an admission failed. Each is a check and,
later, what rests on it; in between other threads run. `SlotGuard` says that the checks still hold
then, in terms of what the threads do: no slot is given back between a refusal and `EnterWaitQueue`,
no session enters between the check and the giving back, and neither a refusal nor a failed
admission has another reason than the check. The programs are then an outline (`slots_outline`) in
which no one waits while a slot is free (`slots_full`).
-/

namespace CppNetEngine.Service

open Program

variable {ι τ : Type} [DecidableEq ι] [DecidableEq τ]

/-- A service with no sessions yet. -/
def Initial (s : Service ι) : Prop :=
  ∃ mMaxSessionCount mMaxWaitSize mSessionState spurious,
    s = new mMaxSessionCount mMaxWaitSize mSessionState spurious

/-- Threads that make calls on a service, while references to sessions go away. -/
def threads (ι τ : Type) [DecidableEq ι] [DecidableEq τ] :
    Machine (Pool τ (Act ι) Act.Answer Unit (Service ι)) (ThreadAction τ (Option (Call ι)) ι) :=
  pool exec code expire Initial

/-- The wait queue holds a live session. -/
def HasWaiting (s : Service ι) : Prop :=
  ∃ q ∈ s.mpWaitQueueManager, ∃ w ∈ q.mEnterWaitQueue, s.live w = true

instance (s : Service ι) : Decidable s.HasWaiting :=
  inferInstanceAs (Decidable (∃ q ∈ s.mpWaitQueueManager, ∃ w ∈ q.mEnterWaitQueue, s.live w = true))

/-- `EnterWaitQueue` finds room. -/
def HasRoom (s : Service ι) : Prop :=
  ∃ q ∈ s.mpWaitQueueManager, q.mEnterWaitQueue.length < q.mMaxWaitSize

instance (s : Service ι) : Decidable s.HasRoom :=
  inferInstanceAs (Decidable (∃ q ∈ s.mpWaitQueueManager, q.mEnterWaitQueue.length < q.mMaxWaitSize))

/-- No slot is free. -/
def Full (s : Service ι) : Prop :=
  s.mpSessionManager.mCurrentSessionCount = s.mpSessionManager.mMaxSessionCount

/-! ## The condition -/

/-- What `AddSession` does between the refusal of a slot and the entry into the wait queue. -/
def Act.Enters : Act ι → Prop
  | .hasWaitQueueManager => True
  | .enterWaitQueue _ => True
  | _ => False

/-- What gives a slot back. -/
def Act.GivesBack : Act ι → Prop
  | .releaseKeepTicket => True
  | .removeSession _ bKeepWaitingSession => bKeepWaitingSession = false
  | _ => False

instance : ∀ a : Act ι, Decidable a.Enters
  | .hasWaitQueueManager | .enterWaitQueue _ => .isTrue trivial
  | .addSession _ | .addWaitingSession _ | .removeSession _ _ | .releaseKeepTicket
  | .dequeueWaitQueue | .compareExchange _ _ | .exchange _ | .callback _ => .isFalse id

instance : ∀ a : Act ι, Decidable a.GivesBack
  | .releaseKeepTicket => .isTrue trivial
  | .removeSession _ bKeepWaitingSession => inferInstanceAs (Decidable (bKeepWaitingSession = false))
  | .addSession _ | .addWaitingSession _ | .hasWaitQueueManager | .enterWaitQueue _
  | .dequeueWaitQueue | .compareExchange _ _ | .exchange _ | .callback _ => .isFalse id

/-- A thread is between the refusal of a slot and the entry into the wait queue. -/
def Entering (p : Pool τ (Act ι) Act.Answer Unit (Service ι)) : Prop :=
  ∃ t, ∃ a ∈ (p.locals t).bind head, a.Enters

/-- A thread is about to give a slot back. -/
def GivingBack (p : Pool τ (Act ι) Act.Answer Unit (Service ι)) : Prop :=
  ∃ t, ∃ a ∈ (p.locals t).bind head, a.GivesBack

instance [Fintype τ] (p : Pool τ (Act ι) Act.Answer Unit (Service ι)) : Decidable (Entering p) :=
  inferInstanceAs (Decidable (∃ t, ∃ a ∈ (p.locals t).bind head, a.Enters))

instance [Fintype τ] (p : Pool τ (Act ι) Act.Answer Unit (Service ι)) : Decidable (GivingBack p) :=
  inferInstanceAs (Decidable (∃ t, ∃ a ∈ (p.locals t).bind head, a.GivesBack))

/-- An action does not come between what another thread has seen and what it does for it, and sees
what the slots and the queue are like. -/
def Fits (p : Pool τ (Act ι) Act.Answer Unit (Service ι)) :
    (a : Act ι) → (a.Answer → Code ι Unit) → Prop
  -- a session is refused only for want of a slot
  | .addSession w, _ =>
    0 ≤ p.shared.mpSessionManager.mMaxSessionCount ∧
      (w ∈ p.shared.mpSessionManager.mSessions →
        p.shared.mpSessionManager.mMaxSessionCount ≤ p.shared.mpSessionManager.mCurrentSessionCount)
  | .enterWaitQueue _, _ => p.shared.HasRoom → ¬ GivingBack p
  | .releaseKeepTicket, _ => ¬ Entering p
  | .removeSession w bKeepWaitingSession, _ =>
    bKeepWaitingSession = false → w ∈ p.shared.mpSessionManager.mSessions → ¬ Entering p
  -- an admission fails only while nobody else waits
  | .addWaitingSession w, _ => w ∈ p.shared.mpSessionManager.mSessions → ¬ p.shared.HasWaiting
  | .compareExchange w swap, k =>
    (∃ a ∈ (k false).head, a.GivesBack) →
      p.shared.mSessionState w ≠ swap.expected ∨ p.shared.spurious 0 = true → ¬ p.shared.HasWaiting
  | _, _ => True

instance [Fintype τ] (p : Pool τ (Act ι) Act.Answer Unit (Service ι)) :
    ∀ (a : Act ι) (k : a.Answer → Code ι Unit), Decidable (Fits p a k)
  | .addSession w, _ =>
    inferInstanceAs (Decidable (0 ≤ p.shared.mpSessionManager.mMaxSessionCount ∧
      (w ∈ p.shared.mpSessionManager.mSessions →
        p.shared.mpSessionManager.mMaxSessionCount ≤
          p.shared.mpSessionManager.mCurrentSessionCount)))
  | .enterWaitQueue _, _ => inferInstanceAs (Decidable (p.shared.HasRoom → ¬ GivingBack p))
  | .releaseKeepTicket, _ => inferInstanceAs (Decidable (¬ Entering p))
  | .removeSession w bKeepWaitingSession, _ =>
    inferInstanceAs (Decidable (bKeepWaitingSession = false →
      w ∈ p.shared.mpSessionManager.mSessions → ¬ Entering p))
  | .addWaitingSession w, _ =>
    inferInstanceAs (Decidable (w ∈ p.shared.mpSessionManager.mSessions → ¬ p.shared.HasWaiting))
  | .compareExchange w swap, k =>
    inferInstanceAs (Decidable ((∃ a ∈ (k false).head, a.GivesBack) →
      p.shared.mSessionState w ≠ swap.expected ∨ p.shared.spurious 0 = true →
        ¬ p.shared.HasWaiting))
  | .hasWaitQueueManager, _ | .dequeueWaitQueue, _ | .exchange _, _ | .callback _, _ =>
    .isTrue trivial

/-- In a service with a wait queue, every action fits. -/
def SlotGuard (p : Pool τ (Act ι) Act.Answer Unit (Service ι)) (a : Act ι)
    (k : a.Answer → Code ι Unit) : Prop :=
  p.shared.mpWaitQueueManager.isSome → Fits p a k

instance [Fintype τ] (p : Pool τ (Act ι) Act.Answer Unit (Service ι)) (a : Act ι)
    (k : a.Answer → Code ι Unit) : Decidable (SlotGuard p a k) :=
  inferInstanceAs (Decidable (p.shared.mpWaitQueueManager.isSome → Fits p a k))

/-! ## What an action does to the slots and to waiting sessions -/

omit [DecidableEq ι] in
/-- A dequeue leaves the slots, and live sessions in the queue only if there were more than one. -/
theorem dequeueWaitQueue_waiting (s : Service ι) :
    s.dequeueWaitQueue.1.mpSessionManager = s.mpSessionManager ∧
      (s.dequeueWaitQueue.1.HasWaiting → s.HasWaiting) ∧
      (s.dequeueWaitQueue.2 = none → ¬ s.dequeueWaitQueue.1.HasWaiting) := by
  unfold dequeueWaitQueue
  cases hq : s.mpWaitQueueManager with
  | none =>
    refine ⟨rfl, id, ?_⟩
    rintro - ⟨q, hq', -⟩
    rw [hq] at hq'
    cases hq'
  | some q =>
    have hsuffix := List.dropWhile_suffix (l := q.mEnterWaitQueue) (!s.live ·)
    simp only [WaitQueueManager.dequeueWaitQueue]
    split
    · refine ⟨trivial, ?_, ?_⟩
      · rintro ⟨q', hq', w, hw, -⟩
        cases hq'
        cases hw
      · rintro - ⟨q', hq', w, hw, -⟩
        cases hq'
        cases hw
    · rename_i pSession rest hrest
      rw [hrest] at hsuffix
      refine ⟨trivial, ?_, fun h => by cases h⟩
      rintro ⟨q', hq', w, hw, hlive⟩
      cases hq'
      exact ⟨q, hq, w, hsuffix.subset (List.mem_cons_of_mem _ hw), hlive⟩

omit [DecidableEq ι] in
/-- Only a session that finds room comes to wait. -/
theorem enterWaitQueue_waiting (s : Service ι) (w : ι) :
    (s.enterWaitQueue w).1.mpSessionManager = s.mpSessionManager ∧
      ((s.enterWaitQueue w).1.HasWaiting → s.HasWaiting ∨ s.HasRoom) := by
  unfold enterWaitQueue
  cases hq : s.mpWaitQueueManager with
  | none => exact ⟨rfl, .inl⟩
  | some q =>
    by_cases hroom : q.mMaxWaitSize ≤ q.mEnterWaitQueue.length
    · simp only [WaitQueueManager.enterWaitQueue, if_pos hroom, ← hq]
      exact ⟨trivial, .inl⟩
    · exact ⟨rfl, fun _ => .inr ⟨q, hq, by omega⟩⟩

theorem compareExchange_same (s : Service ι) (w : ι) (swap : StateSwap) :
    (s.compareExchange w swap).1.mpSessionManager = s.mpSessionManager ∧
      (s.compareExchange w swap).1.mpWaitQueueManager = s.mpWaitQueueManager ∧
      (s.compareExchange w swap).1.live = s.live := by
  unfold compareExchange
  dsimp only
  split <;> exact ⟨rfl, rfl, rfl⟩

/-- **Who waits after an action**: a session that waited, or one that has found room. -/
theorem exec_waiting (a : Act ι) (s : Service ι) (h : (exec a s).1.HasWaiting) :
    s.HasWaiting ∨ ∃ w, a = .enterWaitQueue w ∧ s.HasRoom := by
  cases a with
  | enterWaitQueue w => exact ((enterWaitQueue_waiting s w).2 h).imp_right fun hroom => ⟨w, rfl, hroom⟩
  | dequeueWaitQueue => exact .inl ((dequeueWaitQueue_waiting s).2.1 h)
  | compareExchange w swap =>
    obtain ⟨-, hq, hlive⟩ := compareExchange_same s w swap
    simp only [HasWaiting, exec, hq, hlive] at h
    exact .inl h
  | addSession _ | addWaitingSession _ | removeSession _ _ | releaseKeepTicket
  | hasWaitQueueManager | exchange _ | callback _ => exact .inl h

/-- An action gives a slot back: the ticket, or that of a member. -/
def Releases (s : Service ι) : Act ι → Prop
  | .releaseKeepTicket => True
  | .removeSession w bKeepWaitingSession =>
    bKeepWaitingSession = false ∧ w ∈ s.mpSessionManager.mSessions
  | _ => False

/-- **What an action does to the slots**: one is taken if there is one, one is given back, or all
stay as they are. -/
theorem exec_slots (a : Act ι) (s : Service ι) :
    (exec a s).1.mpSessionManager.mMaxSessionCount = s.mpSessionManager.mMaxSessionCount ∧
      ((exec a s).1.mpSessionManager.mCurrentSessionCount =
          s.mpSessionManager.mCurrentSessionCount ∨
        s.mpSessionManager.mCurrentSessionCount < s.mpSessionManager.mMaxSessionCount ∧
          (exec a s).1.mpSessionManager.mCurrentSessionCount =
            s.mpSessionManager.mCurrentSessionCount + 1 ∨
        s.Releases a ∧ (exec a s).1.mpSessionManager.mCurrentSessionCount =
          s.mpSessionManager.mCurrentSessionCount - 1) := by
  cases a with
  | addSession w =>
    simp only [exec, SessionManager.addSession]
    split
    · exact ⟨rfl, .inl rfl⟩
    · rename_i hmax
      split
      · exact ⟨rfl, .inl rfl⟩
      · exact ⟨rfl, .inr (.inl ⟨Int.not_le.1 hmax, rfl⟩)⟩
  | addWaitingSession w =>
    simp only [exec, SessionManager.addWaitingSession]
    split <;> exact ⟨rfl, .inl rfl⟩
  | removeSession w keep =>
    simp only [exec, SessionManager.removeSession]
    split
    · rename_i hmem
      cases keep with
      | false => exact ⟨rfl, .inr (.inr ⟨⟨rfl, hmem⟩, rfl⟩)⟩
      | true => exact ⟨rfl, .inl rfl⟩
    · exact ⟨rfl, .inl rfl⟩
  | releaseKeepTicket => exact ⟨rfl, .inr (.inr ⟨trivial, rfl⟩)⟩
  | enterWaitQueue w =>
    simp only [exec, (enterWaitQueue_waiting s w).1]
    exact ⟨trivial, .inl trivial⟩
  | dequeueWaitQueue =>
    simp only [exec, (dequeueWaitQueue_waiting s).1]
    exact ⟨trivial, .inl trivial⟩
  | compareExchange w swap =>
    simp only [exec, (compareExchange_same s w swap).1]
    exact ⟨trivial, .inl trivial⟩
  | hasWaitQueueManager | exchange _ | callback _ => exact ⟨rfl, .inl rfl⟩

theorem exec_full {a : Act ι} {s : Service ι} (hfull : s.Full) (hkeep : ¬ s.Releases a) :
    (exec a s).1.Full := by
  unfold Full at hfull ⊢
  obtain ⟨hmax, heq | ⟨hlt, -⟩ | ⟨hreleases, -⟩⟩ := exec_slots a s
  · omega
  · omega
  · exact (hkeep hreleases).elim

theorem exec_isSome (a : Act ι) (s : Service ι) :
    (exec a s).1.mpWaitQueueManager.isSome = s.mpWaitQueueManager.isSome := by
  cases a with
  | enterWaitQueue w =>
    simp only [exec, enterWaitQueue]
    split
    · rfl
    · rename_i q hq
      rw [hq]
      rfl
  | dequeueWaitQueue =>
    simp only [exec, dequeueWaitQueue]
    split
    · rfl
    · rename_i q hq
      rw [hq]
      rfl
  | compareExchange w swap => simp only [exec, (compareExchange_same s w swap).2.1]
  | addSession _ | addWaitingSession _ | removeSession _ _ | releaseKeepTicket
  | hasWaitQueueManager | exchange _ | callback _ => rfl

/-! ## The programs -/

/-- The answers after which `AddSession` goes to the wait queue. -/
def Refuses : (a : Act ι) → a.Answer → Prop
  | .addSession _, added => added = false
  | .hasWaitQueueManager, _ => True
  | _, _ => False

/-- The answers after which a slot is given back. -/
def Fails : (a : Act ι) → a.Answer → Prop
  | .dequeueWaitQueue, pWaitSession => pWaitSession = none
  | .addWaitingSession _, added => added = false
  | .compareExchange _ _, connected => connected = false
  | _, _ => False

/-- How the programs go on: to the wait queue after a refusal, to the giving back of a slot after a
failed admission. -/
structure Next (a : Act ι) (r : a.Answer) (b : Act ι) : Prop where
  refuses : b.Enters → Refuses a r
  fails : b.GivesBack → Fails a r

omit [DecidableEq ι] in
/-- An action that neither goes to the wait queue nor gives a slot back may come after any other. -/
theorem Next.of_plain {a b : Act ι} {r : a.Answer} (henters : ¬ b.Enters) (hgives : ¬ b.GivesBack) :
    Next a r b :=
  ⟨fun h => (henters h).elim, fun h => (hgives h).elim⟩

omit [DecidableEq ι] in
theorem disconnect_continues (w : ι) (reason : DisconnectReason) (a : Act ι) (r : a.Answer) :
    (disconnect w reason).Continues Next a r := by
  refine .act (.of_plain id id) fun wasConnected => ?_
  cases wasConnected with
  | false => exact .ret
  | true => exact .act (.of_plain id id) fun _ => .ret

omit [DecidableEq ι] in
/-- The slot is given back after an empty dequeue or a failed admission. -/
theorem admitWaitingSession_continues (a : Act ι) (r : a.Answer) :
    (admitWaitingSession (ι := ι)).Continues Next a r := by
  refine .act (.of_plain id id) fun pWaitSession => ?_
  cases pWaitSession with
  | none => exact .act ⟨False.elim, fun _ => rfl⟩ fun _ => .ret
  | some w =>
    refine .act (.of_plain id id) fun added => ?_
    cases added with
    | false =>
      exact .act ⟨False.elim, fun _ => rfl⟩ fun _ => disconnect_continues w .stateError _ _
    | true =>
      refine .act (.of_plain id id) fun connected => ?_
      cases connected with
      | false =>
        exact .act ⟨False.elim, fun _ => rfl⟩ fun _ => disconnect_continues w .stateError _ _
      | true => exact .act (.of_plain id id) fun _ => .ret

omit [DecidableEq ι] in
theorem removeSession_continues (w : ι) (a : Act ι) (r : a.Answer) :
    (removeSession w).Continues Next a r := by
  refine .act (.of_plain id fun h => ?_) fun _ => admitWaitingSession_continues _ _
  cases h

omit [DecidableEq ι] in
theorem setConnected_continues (w : ι) (a : Act ι) (r : a.Answer) :
    (setConnected w).Continues Next a r := by
  refine .act (.of_plain id id) fun connected => ?_
  cases connected with
  | false => exact .act (.of_plain id id) fun _ => .ret
  | true => exact .ret

omit [DecidableEq ι] in
/-- `AddSession` goes to the wait queue after a refusal. -/
theorem addSession_continues (w : ι) (a : Act ι) (r : a.Answer) :
    (addSession w).Continues Next a r := by
  refine .act (.of_plain id id) fun added => ?_
  cases added with
  | true =>
    refine (setConnected_continues w _ _).bind fun connected a r => ?_
    cases connected with
    | false =>
      exact (removeSession_continues w a r).bind fun _ a r =>
        (disconnect_continues w .stateError a r).bind fun _ _ _ => .ret
    | true => exact .act (.of_plain id id) fun _ => .ret
  | false =>
    refine .act ⟨fun _ => rfl, False.elim⟩ fun has => ?_
    cases has with
    | false => exact .ret
    | true =>
      refine .act ⟨fun _ => trivial, False.elim⟩ fun ticket => ?_
      cases ticket with
      | none => exact .ret
      | some myTicket =>
        refine .act (.of_plain id id) fun waiting => ?_
        cases waiting with
        | false =>
          exact (disconnect_continues w .stateError _ _).bind fun _ _ _ => .ret
        | true => exact .act (.of_plain id id) fun _ => .ret

omit [DecidableEq ι] in
theorem code_continues (c : Call ι) (a : Act ι) (r : a.Answer) :
    (code c).Continues Next a r := by
  cases c with
  | addSession w => exact (addSession_continues w a r).bind fun _ _ _ => .ret
  | removeSession w => exact removeSession_continues w a r
  | setSessionInGame w => exact .act (.of_plain id id) fun _ => .ret
  | disconnect w reason => exact disconnect_continues w reason a r

/-! ## No one waits while a slot is free -/

/-- What holds throughout. -/
structure Kept (s : Service ι) : Prop where
  le : 0 ≤ s.mpSessionManager.mMaxSessionCount →
    s.mpSessionManager.mCurrentSessionCount ≤ s.mpSessionManager.mMaxSessionCount
  full : s.HasWaiting → s.Full

/-- What a thread relies on when it is about to take an action. -/
structure Relies (a : Act ι) (s : Service ι) : Prop where
  full : a.Enters → s.mpWaitQueueManager.isSome → s.Full
  nobody : a.GivesBack → ¬ s.HasWaiting

omit [DecidableEq ι] in
theorem Releases.givesBack {s : Service ι} {a : Act ι} (h : s.Releases a) : a.GivesBack := by
  cases a with
  | releaseKeepTicket => trivial
  | removeSession w keep => exact h.1
  | _ => exact h.elim

omit [DecidableEq ι] in
theorem HasWaiting.isSome {s : Service ι} (h : s.HasWaiting) : s.mpWaitQueueManager.isSome := by
  obtain ⟨q, hq, -⟩ := h
  exact Option.isSome_of_mem hq

omit [DecidableEq ι] in
theorem HasRoom.isSome {s : Service ι} (h : s.HasRoom) : s.mpWaitQueueManager.isSome := by
  obtain ⟨q, hq, -⟩ := h
  exact Option.isSome_of_mem hq

theorem Kept.exec {a : Act ι} {s : Service ι} (h : Kept s) (hpre : Relies a s) :
    Kept (exec a s).1 := by
  refine ⟨fun hmax => ?_, fun hw => ?_⟩
  · obtain ⟨hsame, heq | ⟨hlt, heq⟩ | ⟨-, heq⟩⟩ := exec_slots a s
    all_goals
      have hle := h.le (hsame ▸ hmax)
      omega
  · rcases exec_waiting a s hw with hw | ⟨w, rfl, hroom⟩
    · exact exec_full (h.full hw) fun hr => hpre.nobody hr.givesBack hw
    · exact exec_full (hpre.full trivial hroom.isSome) id

omit [DecidableEq τ] in
/-- What a thread relies on next, its last action has seen. -/
theorem relies_next {p : Pool τ (Act ι) Act.Answer Unit (Service ι)} {a b : Act ι}
    {k : a.Answer → Code ι Unit} (hok : SlotGuard p a k) (h : Kept p.shared)
    (hpre : Relies a p.shared) (hb : b ∈ (k (exec a p.shared).2).head)
    (hnext : Next a (exec a p.shared).2 b) : Relies b (exec a p.shared).1 := by
  refine ⟨fun henters hsome => ?_, fun hgives hw => ?_⟩
  · rw [exec_isSome] at hsome
    have hfits := hok hsome
    have hrefuses := hnext.refuses henters
    cases a with
    | addSession w =>
      -- a session that is refused finds no slot, or is a member
      obtain ⟨hmax, hmem⟩ := hfits
      have hle := h.le hmax
      refine exec_full ?_ id
      simp only [Service.exec, SessionManager.addSession, Refuses] at hrefuses
      unfold Full
      split at hrefuses
      · omega
      · split at hrefuses
        · have hfull := hmem ‹_›
          omega
        · cases hrefuses
    | hasWaitQueueManager => exact hpre.full trivial hsome
    | _ => exact hrefuses.elim
  · have hfails := hnext.fails hgives
    have hfits := hok (by simpa [exec_isSome] using hw.isSome)
    cases a with
    | dequeueWaitQueue => exact (dequeueWaitQueue_waiting p.shared).2.2 hfails hw
    | addWaitingSession w =>
      simp only [Service.exec, SessionManager.addWaitingSession, Fails] at hfails
      split at hfails
      · rcases exec_waiting _ _ hw with hw | ⟨w', heq, -⟩
        · exact hfits ‹_› hw
        · cases heq
      · cases hfails
    | compareExchange w swap =>
      have hfalse : (p.shared.compareExchange w swap).2 = false := hfails
      have hmiss : p.shared.mSessionState w ≠ swap.expected ∨ p.shared.spurious 0 = true := by
        unfold compareExchange at hfalse
        split at hfalse
        · cases hfalse
        · rename_i hswap
          rw [not_and_or, Bool.not_eq_false] at hswap
          exact hswap
      rcases exec_waiting _ _ hw with hw | ⟨w', heq, -⟩
      · refine hfits ⟨b, ?_, hgives⟩ hmiss hw
        rw [← hfalse]
        exact hb
      · cases heq
    | _ => exact hfails.elim

omit [DecidableEq τ] in
/-- What a thread relies on, the others leave. -/
theorem relies_stable {p : Pool τ (Act ι) Act.Answer Unit (Service ι)} {a b : Act ι}
    {k : a.Answer → Code ι Unit} {u : τ} (hok : SlotGuard p a k)
    (hb : b ∈ (p.locals u).bind head) (hpre : Relies b p.shared) : Relies b (exec a p.shared).1 := by
  refine ⟨fun henters hsome => ?_, fun hgives hw => ?_⟩
  · rw [exec_isSome] at hsome
    have hfits := hok hsome
    refine exec_full (hpre.full henters hsome) fun hr => ?_
    cases a with
    | releaseKeepTicket => exact hfits ⟨u, b, hb, henters⟩
    | removeSession w keep => exact hfits hr.1 hr.2 ⟨u, b, hb, henters⟩
    | _ => exact hr.elim
  · rcases exec_waiting a _ hw with hw | ⟨w, rfl, hroom⟩
    · exact hpre.nobody hgives hw
    · exact hok hroom.isSome hroom ⟨u, b, hb, hgives⟩

omit [DecidableEq ι] in
theorem kept_initial {s : Service ι} (h : s.Initial) : Kept s := by
  obtain ⟨mMaxSessionCount, mMaxWaitSize, mSessionState, spurious, rfl⟩ := h
  refine ⟨id, ?_⟩
  rintro ⟨q, hq, w, hw, -⟩
  obtain ⟨size, -, rfl⟩ := Option.map_eq_some_iff.1 hq
  cases hw

theorem expire_waiting {w : ι} {s : Service ι} (h : (expire w s).HasWaiting) : s.HasWaiting := by
  obtain ⟨q, hq, x, hx, hlive⟩ := h
  refine ⟨q, hq, x, hx, ?_⟩
  by_cases hxw : x = w
  · subst hxw
    simp [expire] at hlive
  · simpa [expire, hxw] using hlive

omit [DecidableEq τ] in
/-- **The outline** of `AddSession` and `RemoveSession`. -/
theorem slots_outline :
    Outline (τ := τ) exec (code (ι := ι)) expire SlotGuard Initial Next Kept Relies where
  init _ h := kept_initial h
  follows c := (code_continues c .hasWaitQueueManager true).2
  first c s _ a ha := by
    -- what may come after giving a slot back is neither of the two
    have hnext := (code_continues c .releaseKeepTicket ()).1 a ha
    exact ⟨fun h => (hnext.refuses h).elim, fun h => (hnext.fails h).elim⟩
  keep _ _ _ _ h hpre := h.exec hpre
  next _ _ _ _ hok h hpre hb hnext := relies_next hok h hpre hb hnext
  stable _ _ _ _ _ hok _ hb hpre := relies_stable hok hb hpre
  envKeeps _ _ h := ⟨h.le, fun hw => h.full (expire_waiting hw)⟩
  envStable _ _ _ h := ⟨h.full, fun hgives hw => h.nobody hgives (expire_waiting hw)⟩

/-- **No one waits while a slot is free**, in any state of any interleaving whose actions fit. -/
theorem slots_full {p : Pool τ (Act ι) Act.Answer Unit (Service ι)}
    (h : (threads ι τ).ReachableIf (Guard SlotGuard) p) (hw : p.shared.HasWaiting) :
    p.shared.mpSessionManager.mCurrentSessionCount =
      p.shared.mpSessionManager.mMaxSessionCount :=
  (slots_outline.at h).holds.full hw

/-- A service for one session, with room for ten to wait. -/
def oneSlot : Service Nat := new 1 (some 10) (fun _ => .disconnected) fun _ => false

theorem oneSlot_init : (threads Nat Bool).init ⟨oneSlot, fun _ => none⟩ :=
  ⟨⟨1, some 10, _, _, rfl⟩, fun _ => rfl⟩

/-- Session 1 enters the queue while session 0 is being removed, and its admission fails; session 2
takes the slot, and session 3 waits. -/
theorem slots_full_oneSlot :
    ∃ p : Pool Bool (Act Nat) Act.Answer Unit (Service Nat),
      (∀ t, p.locals t = none) ∧ p.shared.HasWaiting ∧
      p.shared.mpSessionManager.mCurrentSessionCount =
        p.shared.mpSessionManager.mMaxSessionCount := by
  have hrun : (threads Nat Bool).ReachableIf (Guard SlotGuard) _ := .exec
    [.thread false (some (.addSession 0)), .thread false none, .thread false none,
      .thread false none, .thread false none,
      .thread true (some (.addSession 1)), .thread true none,
      .thread false (some (.removeSession 0)), .thread false none,
      .thread true none, .thread true none,
      .thread false none, .thread false none, .thread false none, .thread false none,
      .thread false none, .thread false none,
      .thread true none, .thread true none, .thread true none,
      .thread false (some (.addSession 2)), .thread false none, .thread false none,
      .thread true (some (.addSession 3)), .thread true none,
      .thread false none, .thread false none,
      .thread true none, .thread true none, .thread true none, .thread true none,
      .thread true none]
    (.init oneSlot_init) (by decide) rfl
  refine ⟨_, fun t => ?_, ?_, slots_full hrun ?_⟩
  · cases t <;> rfl
  · exact ⟨_, rfl, 3, by decide, by decide⟩
  · exact ⟨_, rfl, 3, by decide, by decide⟩

/-- The slot is given back after `AddSession` asked for one, and before its session enters the wait
queue. -/
theorem not_slots_full_race :
    ∃ p : Pool Bool (Act Nat) Act.Answer Unit (Service Nat), (threads Nat Bool).Reachable p ∧
      (∀ t, p.locals t = none) ∧ p.shared.HasWaiting ∧
      p.shared.mpSessionManager.mCurrentSessionCount ≠
        p.shared.mpSessionManager.mMaxSessionCount := by
  have hrun := Machine.Reachable.exec
    [.thread false (some (.addSession 0)), .thread false none, .thread false none,
      .thread false none, .thread false none,
      .thread true (some (.addSession 1)), .thread true none, .thread true none,
      .thread false (some (.removeSession 0)), .thread false none, .thread false none,
      .thread false none, .thread false none,
      .thread true none, .thread true none, .thread true none, .thread true none]
    (.init oneSlot_init) rfl
  refine ⟨_, hrun, ?_, ⟨_, rfl, 1, by decide, by decide⟩, by decide⟩
  intro t
  cases t <;> rfl

end CppNetEngine.Service
