import CppNetEngine.Session.Membership
import CppNetEngine.Session.Proof.Duties
import CppNetEngine.Session.Proof.Owners

/-!
# The slot of a session

A session is removed from the manager by the handler of its disconnect completion, but the state is
`Disconnected` from the beginning of `Disconnect`. In the runs in which every `Register` of the
disconnector finds its owner, every `DisconnectEx` is accepted, and every completion finds the
owner of the event (`Proceeds`), a disconnected session with no completion in flight and no call in
progress is no member, and has no part in the session count (`released`). `not_released` is a
`DisconnectEx` that fails at once.
-/

namespace CppNetEngine

namespace SessionManager

variable {ι : Type} [DecidableEq ι] (m : SessionManager ι) (w : ι)

/-- `1` for a member. -/
def slot : Int := if w ∈ m.mSessions then 1 else 0

theorem slot_of_mem {m : SessionManager ι} {w : ι} (h : w ∈ m.mSessions) : m.slot w = 1 := if_pos h

theorem slot_of_notMem {m : SessionManager ι} {w : ι} (h : w ∉ m.mSessions) : m.slot w = 0 :=
  if_neg h

theorem slot_le_one : m.slot w ≤ 1 := by
  unfold slot
  split <;> decide

theorem addSession_cases : ((m.addSession w).2 = false ∧ (m.addSession w).1 = m) ∨
    ((m.addSession w).2 = true ∧ w ∉ m.mSessions ∧ w ∈ (m.addSession w).1.mSessions ∧
      (m.addSession w).1.mCurrentSessionCount = m.mCurrentSessionCount + 1) := by
  unfold addSession
  split
  · exact .inl ⟨rfl, rfl⟩
  · split
    · exact .inl ⟨rfl, rfl⟩
    · rename_i hw
      exact .inr ⟨rfl, hw, Finset.mem_insert_self _ _, rfl⟩

theorem addSession_full (h : m.mMaxSessionCount ≤ m.mCurrentSessionCount) :
    (m.addSession w).2 = false := by
  unfold addSession
  rw [if_pos h]

theorem addSession_room (h : ¬ m.mMaxSessionCount ≤ m.mCurrentSessionCount)
    (hnot : w ∉ m.mSessions) :
    (m.addSession w).2 = true ∧ w ∈ (m.addSession w).1.mSessions := by
  unfold addSession
  rw [if_neg h, if_neg hnot]
  exact ⟨rfl, Finset.mem_insert_self _ _⟩

theorem addWaitingSession_cases :
    ((m.addWaitingSession w).2 = false ∧ (m.addWaitingSession w).1 = m) ∨
    ((m.addWaitingSession w).2 = true ∧ w ∉ m.mSessions ∧
      w ∈ (m.addWaitingSession w).1.mSessions ∧
      (m.addWaitingSession w).1.mCurrentSessionCount = m.mCurrentSessionCount) := by
  unfold addWaitingSession
  split
  · exact .inl ⟨rfl, rfl⟩
  · rename_i hw
    exact .inr ⟨rfl, hw, Finset.mem_insert_self _ _, rfl⟩

theorem notMem_removeSession (keep : Bool) : w ∉ (m.removeSession w keep).mSessions := by
  unfold removeSession
  split
  · exact Finset.notMem_erase _ _
  · assumption

theorem count_removeSession (keep : Bool) : (m.removeSession w keep).mCurrentSessionCount =
    m.mCurrentSessionCount - (if keep then 0 else m.slot w) := by
  unfold removeSession slot
  cases keep <;> split <;> simp [*]

end SessionManager

namespace Session

variable {ι τ : Type} [DecidableEq ι] {me : ι}

/-- What has to go well for a disconnection to get to its end. -/
def Proceeds (s : Session) (k : Outside) : Stmt → Prop
  | .testOwner .disconnectorRegister => s.mpOwner .disconnector = true
  | .issue .disconnector => k.wsaResult.Accepted
  | .getOwner .disconnector _ => s.mEventOwner .disconnector = true
  | _ => True

/-- The condition on the actions of a run. -/
def DisconnectGuard (p : Threads τ (List Stmt) (Member ι)) (t : τ) :
    StackAction Call Outside → Prop
  | .call _ => True
  | .next k => ∀ f ∈ (p.locals t).head?, Proceeds p.shared.session k f

instance (s : Session) (k : Outside) (f : Stmt) : Decidable (Proceeds s k f) := by
  unfold Proceeds
  split <;> infer_instance

instance (p : Threads τ (List Stmt) (Member ι)) (t : τ) :
    ∀ a, Decidable (DisconnectGuard p t a)
  | .call _ => .isTrue trivial
  | .next k => inferInstanceAs (Decidable (∀ f ∈ (p.locals t).head?, Proceeds p.shared.session k f))

/-! ## What is still to come -/

/-- A statement after which the session will be removed, or will have been connected. -/
def Stmt.WillRemove : Stmt → Prop
  | .swapConnected | .swapWaitingToConnected | .swapAdmitted => True
  | .managerRemoveSession | .removeSession | .serviceRemoveSession => True
  | .testOwner .disconnectorRegister | .issue .disconnector | .getOwner .disconnector _ => True
  | _ => False

/-- How many slots a statement gives back or hands on. -/
def Stmt.keeps : Stmt → Nat
  | .admitOther | .releaseKeepTicket => 1
  | _ => 0

namespace Member

open SessionManager

/-- The session is a member, but disconnected, and no completion will remove it. -/
def Stranded (me : ι) (s : Member ι) : Prop :=
  me ∈ s.manager.mSessions ∧ s.session.mSessionState = .disconnected ∧
    s.session.inFlight .disconnector = 0

/-- A member was one before, or is now added, or admitted. -/
theorem manage_mem {k : Outside} {s : Member ι} {f : Stmt} {m : SessionManager ι × Int}
    (h : s.manage me k f = some m) (hmem : me ∈ m.1.mSessions) :
    (me ∈ s.manager.mSessions ∧ f ≠ .removeSession ∧ f ≠ .managerRemoveSession) ∨
    (∃ pService, f = .addSession pService ∧ k.admission = .added) ∨
    (f = .admitWaiting ∧ k.granted = true) := by
  cases f with
  | addSession pService =>
    simp only [manage] at h
    split at h <;> split at h <;> cases h
    · exact .inr (.inl ⟨pService, rfl, by assumption⟩)
    · obtain ⟨-, hsame⟩ | ⟨htrue, -⟩ := s.manager.addSession_cases me
      · rw [hsame] at hmem
        exact .inl ⟨hmem, nofun, nofun⟩
      · contradiction
  | removeSession =>
    cases h
    exact absurd hmem (s.manager.notMem_removeSession me true)
  | managerRemoveSession =>
    cases h
    exact absurd hmem (s.manager.notMem_removeSession me false)
  | admitWaiting =>
    simp only [manage] at h
    split at h <;> rename_i hgranted <;> cases h
    obtain ⟨-, hsame⟩ | ⟨htrue, -⟩ := s.manager.addWaitingSession_cases me
    · rw [hsame] at hmem
      exact .inl ⟨hmem, nofun, nofun⟩
    · exact .inr (.inr ⟨rfl, hgranted.symm.trans htrue⟩)
  | _ =>
    cases h
    exact .inl ⟨hmem, nofun, nofun⟩

/-- **The session count**, less what others have of it. -/
theorem step_count {k : Outside} {s s' : Member ι} {f : Stmt} {new : List Stmt}
    (h : s.step me k f = some (s', new)) :
    s'.manager.mCurrentSessionCount + f.keeps + s.others + s.manager.slot me ≤
      s.manager.mCurrentSessionCount + Stacks.weigh Stmt.keeps new + s'.others +
        s'.manager.slot me := by
  obtain ⟨session', manager', others'⟩ := s'
  obtain ⟨hstep, hmanage⟩ := step_eq_some h
  have hle := s.manager.slot_le_one me
  cases f with
  | addSession pService =>
    obtain ⟨hfalse, hsame⟩ | ⟨htrue, hnot, hmem, hcount⟩ := s.manager.addSession_cases me
    · simp only [manage, hfalse, hsame] at hmanage
      split at hmanage <;> cases hmanage
      simp only [Stmt.keeps]
      omega
    · simp only [manage, htrue] at hmanage
      split at hmanage <;> cases hmanage
      simp only [Stmt.keeps, slot_of_notMem hnot, slot_of_mem hmem, hcount]
      omega
  | removeSession =>
    simp only [manage, Option.some.injEq, Prod.mk.injEq] at hmanage
    obtain ⟨rfl, rfl⟩ := hmanage
    cases hstep
    have hmem := s.manager.notMem_removeSession me true
    simp only [Stmt.keeps, Stacks.weigh_cons, slot_of_notMem hmem, count_removeSession, if_true]
    omega
  | managerRemoveSession =>
    simp only [manage, Option.some.injEq, Prod.mk.injEq] at hmanage
    obtain ⟨rfl, rfl⟩ := hmanage
    have hmem := s.manager.notMem_removeSession me false
    simp only [Stmt.keeps, slot_of_notMem hmem, count_removeSession, Bool.false_eq_true, if_false]
    omega
  | admitWaiting =>
    cases hstep
    obtain ⟨hfalse, hsame⟩ | ⟨htrue, hnot, hmem, hcount⟩ := s.manager.addWaitingSession_cases me
    · simp only [manage, hfalse, hsame] at hmanage
      split at hmanage <;> rename_i hgranted <;> cases hmanage
      simp only [← hgranted, Stmt.keeps, Stacks.weigh_cons, Bool.false_eq_true, if_false]
      omega
    · simp only [manage, htrue] at hmanage
      split at hmanage <;> cases hmanage
      simp only [Stmt.keeps, slot_of_notMem hnot, slot_of_mem hmem, hcount]
      omega
  | admitOther =>
    simp only [manage, Option.some.injEq, Prod.mk.injEq] at hmanage
    obtain ⟨rfl, rfl⟩ := hmanage
    cases hstep
    cases hgranted : k.granted <;>
      simp only [Stmt.keeps, Stacks.weigh_cons, Stacks.weigh_nil, Bool.false_eq_true, if_false,
        if_true] <;> omega
  | releaseKeepTicket =>
    simp only [manage, Option.some.injEq, Prod.mk.injEq] at hmanage
    obtain ⟨rfl, rfl⟩ := hmanage
    have hslot : s.manager.releaseKeepTicket.slot me = s.manager.slot me := rfl
    have hcount : s.manager.releaseKeepTicket.mCurrentSessionCount =
      s.manager.mCurrentSessionCount - 1 := rfl
    simp only [hcount, hslot, Stmt.keeps]
    omega
  | _ =>
    simp only [manage, Option.some.injEq, Prod.mk.injEq] at hmanage
    obtain ⟨rfl, rfl⟩ := hmanage
    simp only [Stmt.keeps]
    omega

/-- A statement leaves a session stranded only where it was, or leaves one that will remove it. -/
theorem step_stranded {k : Outside} {s s' : Member ι} {f : Stmt} {new : List Stmt}
    (hf : Proceeds s.session k f) (h : s.step me k f = some (s', new)) (hs : Stranded me s') :
    (∃ g ∈ new, g.WillRemove) ∨ (Stranded me s ∧ ¬ f.WillRemove) := by
  obtain ⟨session', manager', others'⟩ := s'
  obtain ⟨hstep, hmanage⟩ := step_eq_some h
  obtain ⟨hmem, hstate, hflight⟩ := hs
  obtain ⟨hbefore, hne, hne'⟩ | ⟨pService, rfl, hadded⟩ | ⟨rfl, hgranted⟩ :=
    manage_mem hmanage hmem
  rotate_left
  · obtain ⟨-, hr⟩ := follow_eq_some.1 hstep
    rw [hadded] at hr
    cases hr
    exact .inl ⟨_, List.mem_cons_self, trivial⟩
  · simp only [Session.step, hgranted] at hstep
    cases hstep
    exact .inl ⟨_, List.mem_cons_self, trivial⟩
  by_cases hquiet : f.Plain ∧ ¬ f.Begins
  · have hq := hquiet.1.quiet hquiet.2 hstep
    have hstranded : Stranded me s :=
      ⟨hbefore, hq.state.1 hstate, hq.inFlight.symm.trans hflight⟩
    cases f with
    | swapAdmitted =>
      simp only [Session.step] at hstep
      split at hstep <;> cases hstep
      · cases hstate
      · exact .inl ⟨_, List.mem_cons_self, trivial⟩
    | managerRemoveSession => exact absurd rfl hne'
    | testOwner op =>
      refine .inr ⟨hstranded, fun hw => ?_⟩
      cases op <;> first | exact hquiet.1 | exact hw
    | issue c | getOwner c n =>
      refine .inr ⟨hstranded, fun hw => ?_⟩
      cases c <;> first | exact hquiet.1 | exact hw
    | swapConnected | swapWaitingToConnected => exact absurd trivial hquiet.2
    | removeSession | serviceRemoveSession => exact hquiet.1.elim
    | _ => exact .inr ⟨hstranded, id⟩
  cases f with
  | exchangeDisconnected reason =>
    simp only [Session.step] at hstep
    split at hstep <;> rename_i hdisc <;> cases hstep
    · exact .inr ⟨⟨hbefore, hdisc, hflight⟩, id⟩
    · exact .inl ⟨_, List.mem_cons_of_mem _ List.mem_cons_self, trivial⟩
  | swapConnected | swapWaitingToConnected =>
    simp only [Session.step] at hstep
    split at hstep <;> cases hstep
    · cases hstate
    · exact .inl ⟨_, List.mem_cons_self, trivial⟩
  | testOwner op =>
    cases op with
    | disconnectorRegister =>
      have howner : s.session.mpOwner .disconnector = true := hf
      simp only [Session.step, Op.passes, howner] at hstep
      cases hstep
      exact .inl ⟨_, List.mem_cons_self, trivial⟩
    | _ => exact absurd ⟨trivial, id⟩ hquiet
  | issue c =>
    cases c with
    | disconnector =>
      -- the `DisconnectEx` is accepted, and is in flight then
      simp only [Session.step] at hstep
      cases hwsa : k.wsaResult with
      | error errorCode =>
        have haccepted : k.wsaResult.Accepted := hf
        rw [hwsa] at haccepted
        exact haccepted.elim
      | ok | pending =>
        simp only [hwsa] at hstep
        obtain ⟨-, hr⟩ := follow_eq_some.1 hstep
        cases hr
        simp at hflight
    | _ => exact absurd ⟨trivial, id⟩ hquiet
  | getOwner c n =>
    cases c with
    | disconnector =>
      have hevent : s.session.mEventOwner .disconnector = true := hf
      simp only [Session.step, hevent] at hstep
      cases hstep
      exact .inl ⟨.serviceRemoveSession, by simp [dispatch, processDisconnect], trivial⟩
    | _ => exact absurd ⟨trivial, id⟩ hquiet
  | serviceRemoveSession =>
    obtain ⟨-, hr⟩ := follow_eq_some.1 hstep
    cases hr
    exact .inl ⟨_, List.mem_cons_self, trivial⟩
  | removeSession => exact absurd rfl hne
  | ownerCallback c callback =>
    obtain ⟨-, hr⟩ := follow_eq_some.1 hstep
    cases hr
    exact .inr ⟨⟨hbefore, hstate, hflight⟩, id⟩
  | callback | resetService | resetOwner | resetEventOwner =>
    cases hstep
    exact .inr ⟨⟨hbefore, hstate, hflight⟩, id⟩
  | _ => exact absurd ⟨trivial, id⟩ hquiet

omit [DecidableEq ι] in
/-- A call leaves a session stranded only where it was, or has dequeued its completion. -/
theorem enter_stranded {c : Call} {s s' : Member ι} {fs : List Stmt} {f : Stmt}
    (h : s.enter c fs = some (s', f)) (hs : Stranded me s') : f.WillRemove ∨ Stranded me s := by
  obtain ⟨henter, hmanager, -⟩ := enter_eq_some h
  obtain ⟨hmem, hstate, hflight⟩ := hs
  rw [hmanager] at hmem
  obtain ⟨-, hstate', -, -, hflight', -⟩ | ⟨d, n, rfl, hpos, hsession⟩ := enter_plain henter
  · exact .inr ⟨hmem, hstate'.symm.trans hstate, by rw [← hflight', hflight]⟩
  · rw [hsession] at hstate hflight
    cases d with
    | disconnector => exact .inl trivial
    | connector | receiver | sender => exact .inr ⟨hmem, hstate, hflight⟩

end Member

/-! ## Runs -/

/-- What holds in all runs that meet the condition. -/
structure MemberInv (me : ι) (p : Threads τ (List Stmt) (Member ι)) : Prop where
  willRemove : Member.Stranded me p.shared → Stacks.HasFrame p Stmt.WillRemove
  count : ∃ n, Stacks.Total p Stmt.keeps n ∧
    p.shared.manager.mCurrentSessionCount ≤ p.shared.others + p.shared.manager.slot me + n

section Run

variable [DecidableEq τ] {p : Threads τ (List Stmt) (Member ι)} {t : τ}

theorem MemberInv.call (hI : MemberInv me p) {c : Call} {s : Member ι} {f : Stmt}
    (h : p.shared.enter c (p.locals t) = some (s, f)) :
    MemberInv me (p.set t s (f :: p.locals t)) := by
  obtain ⟨-, hmanager, hothers⟩ := Member.enter_eq_some h
  obtain ⟨n, htotal, hle⟩ := hI.count
  refine ⟨Stacks.HasFrame.of_call hI.willRemove (Member.enter_stranded h), n + f.keeps,
    htotal.push, ?_⟩
  rw [Threads.set_shared, hmanager, hothers]
  omega

theorem MemberInv.next (hI : MemberInv me p) {k : Outside} {f : Stmt}
    (hf : Proceeds p.shared.session k f) {rest new : List Stmt} (ht : p.locals t = f :: rest)
    {s : Member ι} (h : p.shared.step me k f = some (s, new)) :
    MemberInv me (p.set t s (new ++ rest)) := by
  obtain ⟨n, htotal, hle⟩ := hI.count
  have hkeeps : f.keeps ≤ n := htotal.le (t := t) (Stacks.mem_locals ht)
  have hone := Member.step_count h
  refine ⟨Stacks.HasFrame.of_step hI.willRemove ht (Member.step_stranded hf h),
    n - f.keeps + Stacks.weigh Stmt.keeps new, htotal.next ht (by omega), ?_⟩
  rw [Threads.set_shared]
  omega

theorem memberInv_of_runsTo (h : Member.RunsTo me DisconnectGuard p) : MemberInv me p := by
  refine Stacks.invariant_env (I := MemberInv me) ?_ (fun s t c m f hI _ hc => hI.call hc)
    (fun s t k m f rest new hI hok ht hs => hI.next ((Stacks.forall_head ht).1 hok) ht hs) ?_ h
  · rintro q ⟨⟨-, hnot, hcount⟩, hidle⟩
    refine ⟨fun hs => absurd hs.1 hnot, 0, Stacks.Total.init hidle, ?_⟩
    rw [SessionManager.slot_of_notMem hnot, hcount]
    omega
  · intro q m s hI _ henv
    unfold Member.othersChange at henv
    split at henv <;> rename_i hsame <;> cases henv
    obtain ⟨n, htotal, hle⟩ := hI.count
    have hslot : m.slot me = q.shared.manager.slot me := by
      unfold SessionManager.slot
      simp only [hsame]
    refine ⟨fun hs => hI.willRemove ⟨hsame.1 hs.1, hs.2⟩, n, htotal, ?_⟩
    dsimp only
    rw [hslot]
    omega

/-- **The slot is given back.** When no call is in progress, the session is disconnected and no
completion of a `DisconnectEx` is in flight, it is no member, and the session count is that of the
others. -/
theorem released (h : Member.RunsTo me DisconnectGuard p) (hidle : ∀ t, p.locals t = [])
    (hstate : p.shared.session.mSessionState = .disconnected)
    (hflight : p.shared.session.inFlight .disconnector = 0) :
    me ∉ p.shared.manager.mSessions ∧
      p.shared.manager.mCurrentSessionCount ≤ p.shared.others := by
  have hI := memberInv_of_runsTo h
  have hnot : me ∉ p.shared.manager.mSessions := by
    intro hmem
    exact Stacks.HasFrame.not_of_idle hidle (hI.willRemove ⟨hmem, hstate, hflight⟩)
  obtain ⟨n, htotal, hle⟩ := hI.count
  rw [SessionManager.slot_of_notMem hnot, htotal.idle hidle] at hle
  exact ⟨hnot, by omega⟩

end Run

/-! ## One session -/

/-- A service with a session that has just been created. -/
def alone : Member Unit := ⟨create false 10, ⟨10, 0, ∅⟩, 0⟩

/-- A session is accepted and disconnected, and the completion of its `DisconnectEx` is processed;
nobody waits for the slot. -/
theorem released_alone : ∃ p : Threads Unit (List Stmt) (Member Unit),
    p.shared.session.mpService = false ∧ () ∉ p.shared.manager.mSessions ∧
      p.shared.manager.mCurrentSessionCount ≤ p.shared.others := by
  let next (n : Nat) (granted : Bool) :
      List (ThreadAction Unit (StackAction Call Outside) (SessionManager Unit)) :=
    List.replicate n (.thread () (.next { agrees with granted := granted }))
  have hrun : Member.RunsTo () DisconnectGuard _ :=
    Machine.ReachableIf.exec
      (.thread () (.call .accepted) :: next 16 true ++
        .thread () (.call (.disconnect .clientRequest)) :: next 4 true ++
        .thread () (.call (.dispatch .disconnector 0)) :: next 21 false)
      (.init (s := ⟨alone, fun _ : Unit => []⟩)
        ⟨⟨⟨false, 10, rfl⟩, by decide, rfl⟩, fun _ => rfl⟩) (by decide +kernel) rfl
  exact ⟨_, rfl, released hrun (fun _ => rfl) rfl rfl⟩

/-- A session is accepted and disconnected, and its `DisconnectEx` fails at once. -/
theorem not_released : ∃ p : Threads Unit (List Stmt) (Member Unit),
    (Member.machine () Unit).Reachable p ∧ (∀ t, p.locals t = []) ∧
      p.shared.session.mSessionState = .disconnected ∧
      p.shared.session.inFlight .disconnector = 0 ∧
      () ∈ p.shared.manager.mSessions ∧
      p.shared.others < p.shared.manager.mCurrentSessionCount := by
  let next (n : Nat) (wsaResult : WsaResult) :
      List (ThreadAction Unit (StackAction Call Outside) (SessionManager Unit)) :=
    List.replicate n (.thread () (.next { agrees with wsaResult := wsaResult }))
  have hrun := Machine.Reachable.exec (M := Member.machine () Unit)
    (.thread () (.call .accepted) :: next 16 .pending ++
      .thread () (.call (.disconnect .clientRequest)) :: next 3 .pending ++ next 5 (.error 10057))
    (.init (s := ⟨alone, fun _ : Unit => []⟩)
      ⟨⟨⟨false, 10, rfl⟩, by decide, rfl⟩, fun _ => rfl⟩) rfl
  exact ⟨_, hrun, fun _ => rfl, rfl, rfl, by decide, by decide⟩

end Session

end CppNetEngine
