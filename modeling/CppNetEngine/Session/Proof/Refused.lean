import CppNetEngine.Session.Proof.Admission
import CppNetEngine.Session.Proof.Disconnection

/-!
# Refused connections

An accepted session is `Disconnected` until `AddSession` connects it, and `Disconnect` does nothing
to a session that is `Disconnected` already. So the `Disconnect` with which `processConnect` and
`AddSession` refuse a session does nothing, whatever the reason: nobody calls `OnDisconnecting` or
`DisconnectEx`, and the session keeps its socket (`not_closed_of_refused`).
-/

namespace CppNetEngine.Session

variable {τ : Type}

/-- What can be seen of the admission of a session, and of its disconnection. -/
inductive AdmissionEvent
  /-- `Service::AddSession` of `processConnect` has its answer. -/
  | answered (added : Bool)
  | event (e : Event)
  deriving DecidableEq

namespace AdmissionEvent

def event? : AdmissionEvent → Option Event
  | .event e => some e
  | _ => none

def isAnswered : AdmissionEvent → Bool
  | .answered _ => true
  | _ => false

end AdmissionEvent

/-- What is seen of a statement. -/
def seenAdmission (s : Session) (k : Outside) (f : Stmt) : List AdmissionEvent :=
  (answer s k f).toList.map .answered ++ (seen s k f).map .event

/-- The runs, with what was seen on the way. -/
abbrev AdmissionObserved [DecidableEq τ] : List AdmissionEvent → State τ → Prop :=
  Stacks.Observed (τ := τ) enter (fun _ k s f => step k s f)
    (fun p => (∃ isClient maxCount, p.shared = create isClient maxCount) ∧ ∀ t, p.locals t = [])
    (fun _ _ _ => True) (fun _ _ => []) seenAdmission

/-- A disconnect was issued for the socket: `OnDisconnecting` was called, and `DisconnectEx`. No
statement of a session closes its socket. -/
def DisconnectIssued (l : List AdmissionEvent) : Prop :=
  (∃ reason, .event (.disconnecting reason) ∈ l) ∧ (.event .accepted ∈ l ∨ .event .failed ∈ l)

theorem filterMap_seenAdmission (s : Session) (k : Outside) (f : Stmt) :
    (seenAdmission s k f).filterMap AdmissionEvent.event? = seen s k f := by
  rw [seenAdmission, List.filterMap_append, List.filterMap_map, List.filterMap_map]
  have hanswers : List.filterMap (AdmissionEvent.event? ∘ .answered) (answer s k f).toList = [] :=
    List.filterMap_eq_nil_iff.2 fun _ _ => rfl
  rw [hanswers, List.nil_append]
  exact List.filterMap_some

theorem countP_seenAdmission (s : Session) (k : Outside) (f : Stmt) :
    (seenAdmission s k f).countP AdmissionEvent.isAnswered = (answer s k f).toList.length := by
  rw [seenAdmission, List.countP_append, List.countP_map, List.countP_map]
  have hevents : (seen s k f).countP (AdmissionEvent.isAnswered ∘ .event) = 0 :=
    List.countP_eq_zero.2 fun _ _ => Bool.false_ne_true
  rw [hevents, Nat.add_zero]
  exact List.countP_eq_length.2 fun _ _ => rfl

/-! ## Without a change of the state -/

section Unchanged

variable [DecidableEq τ] {l : List Event} {p : State τ}

/-- **Nothing comes of a session that is never disconnected**: the state has not changed to
`Disconnected`, so nothing has become due. -/
theorem nothing_done (h : Observed l p) (hunchanged : l.countP Duty.registerDisconnect.due = 0) :
    (∀ reason, .disconnecting reason ∉ l) ∧ .accepted ∉ l ∧ .failed ∉ l ∧ .ended ∉ l := by
  have hchanged : ∀ reason, .changed reason ∉ l := fun reason hmem =>
    List.countP_eq_zero.1 hunchanged _ hmem rfl
  obtain ⟨n₁, -, hregister⟩ := conserved h .registerDisconnect
  obtain ⟨n₂, -, hdisconnectEx⟩ := conserved h .disconnectEx
  obtain ⟨n₃, -, hcompletion⟩ := conserved h .completion
  obtain ⟨n₄, -, hclear⟩ := conserved h .clear
  have hregistered : Duty.disconnectEx.due = Duty.registerDisconnect.done := by
    funext e
    cases e <;> rfl
  have haccepted : l.countP Duty.completion.due = l.count .accepted := by
    refine List.countP_congr fun e _ => ?_
    cases e <;> simp [Duty.due]
  have hended : l.countP Duty.clear.done = l.count .ended := by
    refine List.countP_congr fun e _ => ?_
    cases e <;> simp [Duty.done]
  rw [hregistered, countP_disconnectEx_done] at hdisconnectEx
  rw [countP_completion_done] at hcompletion
  rw [countP_clear_due] at hclear
  refine ⟨fun reason hmem => ?_, ?_, ?_, ?_⟩
  · obtain ⟨n, -, hdisconnecting⟩ := conserved h (.onDisconnecting reason)
    have hdue : l.countP (Duty.onDisconnecting reason).due = 0 := by
      refine List.countP_eq_zero.2 fun e he => ?_
      cases e <;> simp only [Duty.due, Bool.false_eq_true, not_false_eq_true]
      exact absurd he (hchanged _)
    have hdone : 0 < l.countP (Duty.onDisconnecting reason).done :=
      List.countP_pos_iff.2 ⟨_, hmem, by simp [Duty.done]⟩
    omega
  all_goals
    refine List.count_eq_zero.1 ?_
    omega

end Unchanged

/-! ## Runs of an accepted session -/

/-- What holds in all runs of a session of a server. -/
structure AcceptedInv (l : List AdmissionEvent) (p : State τ) : Prop where
  connecting : p.shared.inFlight .connector = 0 ∧ ¬ Stacks.HasFrame p Stmt.Connects
  /-- `AddSession` is called once, and has one answer. -/
  once : ∃ n, Stacks.Total p Stmt.admits n ∧
    n + l.countP AdmissionEvent.isAnswered + p.shared.accepting.toNat ≤ 1
  state : p.shared.mSessionState ≠ .waiting
  /-- Until the session is connected, it has not been disconnected. -/
  unchanged : .answered true ∈ l ∨ (p.shared.mSessionState = .disconnected ∧
    (l.filterMap AdmissionEvent.event?).countP Duty.registerDisconnect.due = 0)
  socket : .event .ended ∈ l ∨ p.shared.mSocket = true

/-- Only `AddSession` connects a session that is `Disconnected`, and then it answers so. -/
theorem step_unchanged {k : Outside} {s s' : Session} {f : Stmt} {new : List Stmt}
    (hs : s.mSessionState = .disconnected) (h : step k s f = some (s', new)) :
    .answered true ∈ seenAdmission s k f ∨ (s'.mSessionState = .disconnected ∧
      (seen s k f).countP Duty.registerDisconnect.due = 0) := by
  by_cases hf : f = .swapConnected
  · subst hf
    simp only [step] at h
    split at h <;> rename_i hswaps <;> cases h
    · refine .inl (List.mem_append_left _ ?_)
      rw [answer, if_pos hswaps]
      exact List.mem_cons_self
    · exact .inr ⟨hs, rfl⟩
  · exact .inr (step_disconnected hs hf h)

section Run

variable [DecidableEq τ] {l : List AdmissionEvent} {p : State τ} {t : τ}

theorem AcceptedInv.call (hI : AcceptedInv l p) {c : Call} {s : Session} {f : Stmt}
    (h : enter c p.shared (p.locals t) = some (s, f)) :
    AcceptedInv l (p.set t s (f :: p.locals t)) := by
  have hentered := enter_admission h
  obtain ⟨hflight, hconnects⟩ :=
    hentered.connecting.resolve_right (by rw [hI.connecting.1]; exact Nat.lt_irrefl 0)
  obtain ⟨n, htotal, hn⟩ := hI.once
  have hadmits := hentered.admits
  refine ⟨?_, ⟨n + f.admits, htotal.push, ?_⟩, ?_, ?_, ?_⟩ <;> rw [Threads.set_shared]
  · rw [hflight, Stacks.HasFrame.push_iff hconnects]
    exact hI.connecting
  · omega
  · rw [hentered.state]
    exact hI.state
  · rw [hentered.state]
    exact hI.unchanged
  · rw [hentered.mSocket]
    exact hI.socket

theorem AcceptedInv.next (hI : AcceptedInv l p) (hclient : p.shared.isClient = false)
    {k : Outside} {f : Stmt} {rest new : List Stmt} (ht : p.locals t = f :: rest) {s : Session}
    (h : step k p.shared f = some (s, new)) :
    AcceptedInv (l ++ seenAdmission p.shared k f) (p.set t s (new ++ rest)) := by
  have hkept := step_kept h
  have hconnects : ¬ f.Connects := fun hf => hI.connecting.2 (.of_innermost ht hf)
  obtain ⟨hnew, hadmits⟩ := step_admission hconnects hclient h
  obtain ⟨n, htotal, hn⟩ := hI.once
  have hle := htotal.le (Stacks.mem_locals ht)
  refine ⟨⟨?_, fun hframe => ?_⟩, ⟨n - f.admits + Stacks.weigh Stmt.admits new,
    htotal.next ht (by omega), ?_⟩, hkept.not_waiting hI.state, ?_, ?_⟩
  · rcases hkept.connecting with rfl | hflight
    · exact absurd trivial hconnects
    · exact hflight.trans hI.connecting.1
  · rcases hframe.of_next ht with hframe | ⟨g, hg, hconnects⟩
    · exact hI.connecting.2 hframe
    · exact hnew g hg hconnects
  · rw [List.countP_append, countP_seenAdmission, Threads.set_shared, hkept.accepting]
    omega
  · rcases hI.unchanged with hadded | ⟨hstate, hcount⟩
    · exact .inl (List.mem_append_left _ hadded)
    rcases step_unchanged hstate h with hadded | ⟨hstate', hcount'⟩
    · exact .inl (List.mem_append_right _ hadded)
    · refine .inr ⟨hstate', ?_⟩
      rw [List.filterMap_append, List.countP_append, filterMap_seenAdmission, hcount, hcount']
  · rcases hkept.mSocket with rfl | hsocket
    · exact .inl (List.mem_append_right _ List.mem_cons_self)
    · rw [Threads.set_shared, hsocket]
      exact hI.socket.imp_left (List.mem_append_left _)

theorem acceptedInv_of_observed (h : AdmissionObserved l p) (hclient : p.shared.isClient = false) :
    AcceptedInv l p := by
  refine Stacks.observed (I := fun l p => p.shared.isClient = false → AcceptedInv l p) ?_
    (fun l s t c m f _ hI _ hc hclient => ?_) (fun l s t k m f rest new _ hI _ ht hs hclient => ?_)
    h hclient
  · rintro ⟨shared, locals⟩ ⟨⟨isClient, maxCount, rfl⟩, hidle⟩ hclient
    have haccepting : (create isClient maxCount).accepting.toNat ≤ 1 := Bool.toNat_le _
    refine ⟨⟨rfl, Stacks.HasFrame.not_of_idle hidle⟩, ⟨0, .init hidle, ?_⟩, nofun,
      .inr ⟨rfl, rfl⟩, .inr rfl⟩
    simpa using haccepting
  · rw [List.append_nil]
    exact (hI ((enter_admission hc).isClient.symm.trans hclient)).call hc
  · have hbefore := (step_kept hs).isClient.symm.trans hclient
    exact (hI hbefore).next hbefore ht hs

/-- **A refused connection stays open**: in a run in which `AddSession` refuses an accepted session,
no disconnect is ever issued for its socket, `OnDisconnecting` is not called, and the session keeps
its socket. -/
theorem not_issued_of_refused (h : AdmissionObserved l p) (hclient : p.shared.isClient = false)
    (hrefused : .answered false ∈ l) :
    ¬ DisconnectIssued l ∧ (∀ reason, .event (.disconnecting reason) ∉ l) ∧
      .event .accepted ∉ l ∧ .event .failed ∉ l ∧ p.shared.mSocket = true := by
  have hI := acceptedInv_of_observed h hclient
  have hadded : .answered true ∉ l := by
    intro hadded
    obtain ⟨n, -, hn⟩ := hI.once
    have hboth : [AdmissionEvent.answered true, .answered false] ⊆ l := by
      simp [hadded, hrefused]
    have hle := (List.subperm_of_subset (by decide) hboth).countP_le AdmissionEvent.isAnswered
    have htwo : [AdmissionEvent.answered true, .answered false].countP
        AdmissionEvent.isAnswered = 2 := rfl
    omega
  have hevents : Observed (l.filterMap AdmissionEvent.event?) p :=
    Stacks.Observed.filterMap (fun _ _ => rfl)
      (fun s k f => (filterMap_seenAdmission s k f).symm) h
  obtain ⟨hdisconnecting, haccepted, hfailed, hended⟩ :=
    nothing_done hevents (hI.unchanged.resolve_left hadded).2
  have hseen : ∀ {e : Event}, e ∉ l.filterMap AdmissionEvent.event? → .event e ∉ l :=
    fun hnot hmem => hnot (List.mem_filterMap.2 ⟨_, hmem, rfl⟩)
  refine ⟨fun hissued => ?_, fun reason => hseen (hdisconnecting reason), hseen haccepted,
    hseen hfailed, hI.socket.resolve_left (hseen hended)⟩
  obtain ⟨reason, hmem⟩ := hissued.1
  exact hseen (hdisconnecting reason) hmem

end Run

/-- The connection finds room in the wait queue, and a `compare_exchange_weak` fails. -/
theorem not_issued_of_refused_queued : ∃ (l : List AdmissionEvent) (p : State Unit),
    l = [.answered false] ∧ ¬ DisconnectIssued l ∧ p.shared.mSocket = true := by
  have hrun : AdmissionObserved _ (_ : State Unit) :=
    Machine.Observed.exec
      (.thread () (.call .accepted) :: List.replicate 13
        (.thread () (.next { agrees with admission := .entered 0, spurious := true })))
      (.init (s := ⟨create false 10, fun _ => []⟩) ⟨⟨false, 10, rfl⟩, fun _ => rfl⟩)
      (Machine.allowed_of Threads.guard_true _ _) rfl
  have hleft := not_issued_of_refused hrun rfl (by decide)
  exact ⟨_, _, rfl, hleft.1, hleft.2.2.2.2⟩

/-- The server is full, and `processConnect` returns without a disconnect. -/
theorem not_disconnectIssued : ∃ (l : List AdmissionEvent) (p : State Unit),
    AdmissionObserved l p ∧ p.shared.isClient = false ∧ .answered false ∈ l ∧
      (∀ t, p.locals t = []) ∧ ¬ DisconnectIssued l ∧ p.shared.mSocket = true := by
  have hrun : AdmissionObserved _ (_ : State Unit) :=
    Machine.Observed.exec
      (.thread () (.call .accepted) :: List.replicate 11
        (.thread () (.next { agrees with admission := .refused })))
      (.init (s := ⟨create false 10, fun _ => []⟩) ⟨⟨false, 10, rfl⟩, fun _ => rfl⟩)
      (Machine.allowed_of Threads.guard_true _ _) rfl
  refine ⟨[.answered false], _, hrun, rfl, by decide, fun _ => rfl, ?_, rfl⟩
  rintro ⟨⟨reason, hmem⟩, -⟩
  cases List.mem_singleton.1 hmem

end CppNetEngine.Session
