import CppNetEngine.Lib.Totals
import CppNetEngine.Session.Session

/-!
# What a disconnection has to do

What can be seen of a disconnection, and what becomes due with it: each change of the state word to
`Disconnected` makes `OnDisconnecting` and `registerDisconnect` due, an accepted `DisconnectEx` its
completion, and a completion that is processed `OnDisconnected` and `RemoveSession`. Most statements
are plain, and leave a disconnection where it was (`Stmt.Plain.quiet`). In every run what becomes
due is done once, or is still to be done (`conserved`).
-/

namespace CppNetEngine.Session

variable {τ : Type}

/-- What can be seen of a disconnection. -/
inductive Event
  /-- `setSessionConnected` is called. -/
  | admission
  /-- The state changes to `Disconnected`. -/
  | changed (reason : DisconnectReason)
  /-- `OnDisconnecting` has run. -/
  | disconnecting (reason : DisconnectReason)
  /-- `registerDisconnect` is called. -/
  | registered
  /-- `Register` finds no owner. -/
  | cleared
  | accepted
  /-- `DisconnectEx` fails at once. -/
  | failed
  /-- `Dispatch` finds the owner of the event, and calls `processDisconnect`. -/
  | processed
  | dropped
  /-- `OnDisconnected` has run. -/
  | disconnected
  /-- `AddSession` could not connect the session. -/
  | refused
  /-- `RemoveSession` is called. -/
  | removed
  /-- `Clear` of the session has begun. -/
  | ended
  deriving DecidableEq

/-- What is seen of a statement. -/
def seen (s : Session) (k : Outside) : Stmt → List Event
  | .swapConnected => [.admission]
  | .exchangeDisconnected reason =>
    if s.mSessionState = .disconnected then [] else [.changed reason]
  | .callback (.onDisconnecting reason) => [.disconnecting reason]
  | .testOwner .disconnectorRegister =>
    if s.mpOwner .disconnector then [.registered] else [.registered, .cleared]
  | .issue .disconnector =>
    match k.wsaResult with
    | .error _ => [.failed]
    | _ => [.accepted]
  | .getOwner .disconnector _ => if s.mEventOwner .disconnector then [.processed] else [.dropped]
  | .callback .onDisconnected => [.disconnected]
  | .swapWaitingToConnected => if swaps k s .setWaitingToConnected then [] else [.refused]
  | .removeSession => [.removed]
  | .resetService => [.ended]
  | _ => []

/-- The runs, with what was seen on the way. -/
abbrev Observed [DecidableEq τ] : List Event → State τ → Prop :=
  Stacks.Observed (τ := τ) enter (fun _ k s f => step k s f)
    (fun p => (∃ isClient maxCount, p.shared = create isClient maxCount) ∧ ∀ t, p.locals t = [])
    (fun _ _ _ => True) (fun _ _ => []) seen

/-! ## The statements of a disconnection -/

/-- A statement that has no part in a disconnection; those that may begin one are among them. -/
def Stmt.Plain : Stmt → Prop
  | .testOwner .disconnectorRegister | .issue .disconnector | .getOwner .disconnector _ => False
  | .callback (.onDisconnecting _) | .ownerCallback _ (.onDisconnecting _) => False
  | .callback .onDisconnected | .ownerCallback _ .onDisconnected => False
  | .serviceRemoveSession | .removeSession | .resetService => False
  | .resetOwner .disconnector | .resetEventOwner .disconnector => False
  | _ => True

/-- The statements that may begin a disconnection, or admit the session. -/
def Stmt.Begins : Stmt → Prop
  | .exchangeDisconnected _ | .swapConnected | .swapWaitingToConnected => True
  | _ => False

/-- All statements of the list are plain. -/
def AllPlain (new : List Stmt) : Prop := ∀ g ∈ new, g.Plain

/-- A statement after which the disconnection is where it was. -/
structure Quiet (s : Session) (k : Outside) (f : Stmt) (s' : Session) (new : List Stmt) :
    Prop where
  seen : seen s k f = []
  state : s'.mSessionState = .disconnected ↔ s.mSessionState = .disconnected
  owner : s.mpOwner .disconnector = true → s'.mpOwner .disconnector = true
  eventOwner : s.mEventOwner .disconnector = true → s'.mEventOwner .disconnector = true
  inFlight : s'.inFlight .disconnector = s.inFlight .disconnector
  service : s'.mpService = s.mpService
  new : AllPlain new

namespace AllPlain

theorem nil : AllPlain [] := fun _ h => nomatch h

theorem cons {f : Stmt} {new : List Stmt} (hf : f.Plain) (h : AllPlain new) :
    AllPlain (f :: new) := List.forall_mem_cons.2 ⟨hf, h⟩

theorem clear {c : Component} (hc : c ≠ .disconnector) : AllPlain (clear c) := by
  cases c <;> first | exact absurd rfl hc | simp [AllPlain, Session.clear, Stmt.Plain]

theorem kick {c : Component} (hc : c ≠ .disconnector) (reason : DisconnectReason) :
    AllPlain (kick c reason) := .cons trivial (clear hc)

theorem issueFailed {c : Component} (hc : c ≠ .disconnector) (errorCode : Nat) :
    AllPlain (issueFailed errorCode c) := by
  cases c with
  | disconnector => exact absurd rfl hc
  | connector | receiver | sender => exact .cons trivial (kick (by decide) _)

theorem processConnect : AllPlain processConnect := by
  simp [AllPlain, Session.processConnect, Session.clear, Stmt.Plain]

theorem sessionAdded : AllPlain sessionAdded := .cons trivial (.cons trivial .nil)

theorem sessionFailed : AllPlain sessionFailed := .cons trivial (.cons trivial .nil)

theorem body {op : Op} (hop : op ≠ .disconnectorRegister) : AllPlain op.body := by
  cases op with
  | disconnectorRegister => exact absurd rfl hop
  | receiverProcess n | senderProcess n =>
    simp only [Op.body]
    split
    · exact kick (by decide) _
    · simp [AllPlain, Stmt.Plain]
  | _ => exact .cons trivial .nil

end AllPlain

/-- A statement that leaves what is modelled of the disconnection as it was. -/
theorem Quiet.of_eq {s s' : Session} {k : Outside} {f : Stmt} {new : List Stmt}
    (hseen : Session.seen s k f = []) (hstate : s'.mSessionState = s.mSessionState)
    (howner : s'.mpOwner = s.mpOwner) (hevent : s'.mEventOwner = s.mEventOwner)
    (hflight : s'.inFlight = s.inFlight) (hservice : s'.mpService = s.mpService)
    (hnew : AllPlain new) : Quiet s k f s' new :=
  ⟨hseen, by rw [hstate], by rw [howner]; exact id, by rw [hevent]; exact id, by rw [hflight],
    hservice, hnew⟩

theorem of_swaps {k : Outside} {s : Session} {swap : StateSwap} (h : swaps k s swap = true) :
    s.mSessionState = swap.expected :=
  of_decide_eq_true (Bool.and_eq_true_iff.1 h).1

/-- **Plain statements** leave a disconnection where it was. -/
theorem Stmt.Plain.quiet {k : Outside} {s s' : Session} {f : Stmt} {new : List Stmt}
    (hf : f.Plain) (hbegins : ¬ f.Begins) (h : step k s f = some (s', new)) :
    Quiet s k f s' new := by
  cases f with
  | exchangeDisconnected | swapConnected | swapWaitingToConnected => exact absurd trivial hbegins
  | serviceRemoveSession | removeSession | resetService => exact hf.elim
  | testOwner op =>
    have hop : op ≠ .disconnectorRegister := by
      rintro rfl
      exact hf
    have hc : op.component ≠ .disconnector := by
      cases op <;> first | exact absurd rfl hop | exact nofun
    cases h
    refine .of_eq ?_ rfl rfl rfl rfl rfl ?_
    · cases op <;> first | exact absurd rfl hop | rfl
    · split
      · exact .body hop
      · exact .clear hc
  | issue c =>
    have hc : c ≠ .disconnector := by
      rintro rfl
      exact hf
    have hseen : seen s k (.issue c) = [] := by
      cases c <;> first | exact absurd rfl hc | rfl
    simp only [step] at h
    split at h <;> obtain ⟨-, hr⟩ := follow_eq_some.1 h <;> cases hr
    · exact .of_eq hseen rfl rfl rfl rfl rfl (.issueFailed hc _)
    · exact ⟨hseen, Iff.rfl, id, id, Function.update_of_ne (Ne.symm hc) _ _, rfl, .nil⟩
  | getOwner c n =>
    cases h
    cases c with
    | disconnector => exact hf.elim
    | connector =>
      refine .of_eq rfl rfl rfl rfl rfl rfl ?_
      split
      · exact .processConnect
      · exact .nil
    | receiver | sender =>
      refine .of_eq rfl rfl rfl rfl rfl rfl ?_
      split
      · exact .cons trivial .nil
      · exact .nil
  | callback callback =>
    cases h
    refine .of_eq ?_ rfl rfl rfl rfl rfl .nil
    cases callback <;> first | exact hf.elim | rfl
  | ownerCallback c callback =>
    obtain ⟨-, hr⟩ := follow_eq_some.1 h
    cases hr
    refine .of_eq rfl rfl rfl rfl rfl rfl (.cons ?_ .nil)
    cases callback <;> first | exact hf.elim | exact trivial
  | resetOwner c =>
    have hc : c ≠ .disconnector := by
      rintro rfl
      exact hf
    cases h
    refine ⟨rfl, Iff.rfl, fun ho => ?_, id, rfl, rfl, .nil⟩
    rw [← ho]
    exact Function.update_of_ne (Ne.symm hc) _ _
  | resetEventOwner c =>
    have hc : c ≠ .disconnector := by
      rintro rfl
      exact hf
    cases h
    refine ⟨rfl, Iff.rfl, id, fun ho => ?_, rfl, rfl, .nil⟩
    rw [← ho]
    exact Function.update_of_ne (Ne.symm hc) _ _
  | setOwner c =>
    cases h
    refine ⟨rfl, Iff.rfl, fun ho => ?_, id, rfl, rfl, .cons trivial .nil⟩
    simp [Function.update_apply, ho]
  | setEventOwner c =>
    cases h
    refine ⟨rfl, Iff.rfl, id, fun ho => ?_, rfl, rfl, .nil⟩
    simp [Function.update_apply, ho]
  | setSendOwner =>
    cases h
    exact ⟨rfl, Iff.rfl, id, id, rfl, rfl, .cons trivial .nil⟩
  | enqueue =>
    simp only [step] at h
    split at h <;> cases h <;> refine .of_eq rfl rfl rfl rfl rfl rfl ?_
    · simp [AllPlain, Session.clear, Plain]
    · exact .cons trivial .nil
  | dequeue n =>
    simp only [step] at h
    split at h <;> cases h <;> refine .of_eq rfl rfl rfl rfl rfl rfl ?_ <;> split <;>
      simp [AllPlain, Plain]
  | bindSocket =>
    obtain ⟨-, hr⟩ := follow_eq_some.1 h
    cases hr
    refine .of_eq rfl rfl rfl rfl rfl rfl ?_
    split
    · exact .cons trivial .nil
    · exact .clear (by decide)
  | testService =>
    cases h
    refine .of_eq rfl rfl rfl rfl rfl rfl ?_
    split
    · exact .cons trivial .nil
    · exact .clear (by decide)
  | testFreeSize | onReceive =>
    cases h
    refine .of_eq rfl rfl rfl rfl rfl rfl ?_
    split
    · exact .kick (by decide) _
    · simp [AllPlain, Plain]
  | exchangeRegistered | testSendQueue | admitWaiting | admitOther =>
    simp only [step] at h
    cases h
    refine .of_eq rfl rfl rfl rfl rfl rfl ?_
    split <;> simp [AllPlain, Plain]
  | processConnect =>
    cases h
    exact .of_eq rfl rfl rfl rfl rfl rfl .processConnect
  | swapInGame =>
    simp only [step] at h
    split at h <;> rename_i hswaps <;> cases h
    · refine ⟨rfl, ?_, id, id, rfl, rfl, .nil⟩
      simp [of_swaps hswaps, StateSwap.expected]
    · exact .of_eq rfl rfl rfl rfl rfl rfl .nil
  | swapAdmitted =>
    simp only [step] at h
    split at h <;> rename_i hswaps <;> cases h
    · refine ⟨rfl, ?_, id, id, rfl, rfl, .cons trivial .nil⟩
      simp [of_swaps hswaps, StateSwap.expected]
    · exact .of_eq rfl rfl rfl rfl rfl rfl (.cons trivial (.cons trivial .nil))
  | swapWaiting =>
    simp only [step] at h
    split at h <;> rename_i hswaps <;> cases h
    · refine ⟨rfl, ?_, id, id, rfl, rfl, ?_⟩
      · simp [of_swaps hswaps, StateSwap.expected, StateSwap.desired]
      · exact .cons trivial .sessionAdded
    · exact .of_eq rfl rfl rfl rfl rfl rfl .sessionFailed
  | addSession pService =>
    obtain ⟨-, hr⟩ := follow_eq_some.1 h
    split at hr <;> cases hr <;>
      exact .of_eq rfl rfl rfl rfl rfl rfl (.cons trivial .nil)
  | ownerDisconnect | ownerOnReceive | registerReap =>
    obtain ⟨-, hr⟩ := follow_eq_some.1 h
    cases hr
    exact .of_eq rfl rfl rfl rfl rfl rfl (by simp [AllPlain, Plain])
  | resetConnectorService | clearReceiveBuffer | storeRegistered | clearSendQueue | moveWritePos
  | moveReadPos | getService | managerRemoveSession | releaseKeepTicket =>
    cases h
    exact .of_eq rfl rfl rfl rfl rfl rfl (by simp [AllPlain, Plain])

theorem enter_plain {c : Call} {s s' : Session} {fs : List Stmt} {f : Stmt}
    (h : enter c s fs = some (s', f)) :
    (f.Plain ∧ s'.mSessionState = s.mSessionState ∧ s'.mpOwner = s.mpOwner ∧
      s'.mEventOwner = s.mEventOwner ∧ s'.inFlight = s.inFlight ∧ s'.mpService = s.mpService) ∨
    ∃ d n, f = .getOwner d n ∧ 0 < s.inFlight d ∧
      s' = { s with inFlight := Function.update s.inFlight d (s.inFlight d - 1) } := by
  have hapi : (api c).map (fun f => (s, f)) = some (s', f) → f.Plain ∧ s' = s := by
    intro hc
    obtain ⟨g, hg, hr⟩ := Option.map_eq_some_iff.1 hc
    cases hr
    refine ⟨?_, rfl⟩
    cases c <;> cases hg <;> exact trivial
  have hsame : f.Plain ∧ s' = s → f.Plain ∧ s'.mSessionState = s.mSessionState ∧
      s'.mpOwner = s.mpOwner ∧ s'.mEventOwner = s.mEventOwner ∧ s'.inFlight = s.inFlight ∧
      s'.mpService = s.mpService := by
    rintro ⟨hf, rfl⟩
    exact ⟨hf, rfl, rfl, rfl, rfl, rfl⟩
  unfold enter at h
  split at h
  · split at h
    · split at h <;> cases h
      exact .inl ⟨trivial, rfl, rfl, rfl, rfl, rfl⟩
    · split at h <;> cases h
      exact .inl ⟨trivial, rfl, rfl, rfl, rfl, rfl⟩
    · split at h <;> cases h
      rename_i hpos
      exact .inr ⟨_, _, rfl, hpos, rfl⟩
    · exact .inl (hsame (hapi h))
  · exact .inl (hsame (hapi h))
  · exact .inl (hsame (hapi h))
  · cases h

/-! ## Duties -/

/-- What has to be done in the course of a disconnection. -/
inductive Duty
  | onDisconnecting (reason : DisconnectReason)
  | registerDisconnect
  | disconnectEx
  | completion
  | onDisconnected
  | removeSession
  | clear

namespace Duty

/-- The events that make it due. -/
def due : Duty → Event → Bool
  | onDisconnecting reason, .changed reason' => reason' = reason
  | registerDisconnect, .changed _ => true
  | disconnectEx, .registered => true
  | completion, .accepted => true
  | onDisconnected, .processed => true
  | removeSession, .processed | removeSession, .refused => true
  | clear, .processed => true
  | _, _ => false

/-- The events that settle it. -/
def done : Duty → Event → Bool
  | onDisconnecting reason, .disconnecting reason' => reason' = reason
  | registerDisconnect, .registered => true
  | disconnectEx, .cleared | disconnectEx, .accepted | disconnectEx, .failed => true
  | completion, .processed | completion, .dropped => true
  | onDisconnected, .disconnected => true
  | removeSession, .removed => true
  | clear, .ended => true
  | _, _ => false

/-- Whether a callback is the one that is due. -/
def calls : Duty → Callback → Nat
  | onDisconnecting reason, .onDisconnecting reason' => if reason' = reason then 1 else 0
  | onDisconnected, .onDisconnected => 1
  | _, _ => 0

/-- How often a statement that is still to be run settles it. -/
def pending : Duty → Stmt → Nat
  | what, .callback callback => what.calls callback
  | what, .ownerCallback _ callback => what.calls callback
  | registerDisconnect, .testOwner .disconnectorRegister => 1
  | disconnectEx, .issue .disconnector => 1
  | completion, .getOwner .disconnector _ => 1
  | removeSession, .serviceRemoveSession | removeSession, .removeSession => 1
  | clear, .resetService => 1
  | _, _ => 0

/-- How much of it is in flight. -/
def held : Duty → Session → Nat
  | completion, s => s.inFlight .disconnector
  | _, _ => 0

variable (what : Duty)

theorem pending_plain {f : Stmt} (hf : f.Plain) : what.pending f = 0 := by
  cases f with
  | callback callback | ownerCallback c callback =>
    cases callback <;> first | exact hf.elim | cases what <;> rfl
  | testOwner op => cases op <;> first | exact hf.elim | cases what <;> rfl
  | issue c | getOwner c n => cases c <;> first | exact hf.elim | cases what <;> rfl
  | serviceRemoveSession | removeSession | resetService => exact hf.elim
  | _ => cases what <;> rfl

theorem weigh_plain {new : List Stmt} (h : AllPlain new) : Stacks.weigh what.pending new = 0 :=
  Stacks.weigh_eq_zero fun g hg => what.pending_plain (h g hg)

@[simp] theorem weigh_clear (c : Component) : Stacks.weigh what.pending (Session.clear c) = 0 := by
  cases what <;> cases c <;> rfl

@[simp] theorem weigh_processDisconnect : Stacks.weigh what.pending processDisconnect =
    what.calls .onDisconnected + what.pending .serviceRemoveSession +
      what.pending .resetService := by
  simp only [processDisconnect, clearSession, Stacks.weigh_append, Stacks.weigh_cons,
    Stacks.weigh_nil, weigh_clear]
  cases what <;> rfl

/-- **What a statement settles, and what it leaves due.** -/
theorem step {k : Outside} {s s' : Session} {f : Stmt} {new : List Stmt}
    (h : Session.step k s f = some (s', new)) :
    (seen s k f).countP what.due + what.held s + what.pending f =
      (seen s k f).countP what.done + what.held s' + Stacks.weigh what.pending new := by
  by_cases hquiet : f.Plain ∧ ¬ f.Begins
  · have hq := hquiet.1.quiet hquiet.2 h
    rw [hq.seen, what.pending_plain hquiet.1, what.weigh_plain hq.new]
    cases what <;> simp [held, hq.inFlight]
  cases f with
  | exchangeDisconnected reason =>
    cases h
    simp only [seen]
    split
    · cases what <;> rfl
    · cases what <;> simp [due, done, held, pending, calls, List.countP_cons]
  | swapConnected =>
    simp only [Session.step] at h
    split at h <;> cases h <;> cases what <;> rfl
  | swapWaitingToConnected =>
    simp only [Session.step] at h
    split at h <;> rename_i hswaps <;> cases h <;> simp only [seen, hswaps] <;> cases what <;> rfl
  | testOwner op =>
    cases op with
    | disconnectorRegister =>
      cases h
      cases howner : s.mpOwner .disconnector <;>
        simp only [seen, Op.passes, howner, Op.component] <;> cases what <;> rfl
    | _ => exact absurd ⟨trivial, id⟩ hquiet
  | issue c =>
    cases c with
    | disconnector =>
      simp only [Session.step] at h
      cases hwsa : k.wsaResult <;> simp only [hwsa] at h <;>
        obtain ⟨-, hr⟩ := follow_eq_some.1 h <;> cases hr <;>
        simp only [seen, hwsa, issueFailed, Stacks.weigh_cons, weigh_clear] <;>
        cases what <;> simp [due, done, held, pending, calls, Nat.add_comm]
    | _ => exact absurd ⟨trivial, id⟩ hquiet
  | getOwner c n =>
    cases c with
    | disconnector =>
      cases h
      cases hevent : s.mEventOwner .disconnector <;> simp only [seen, hevent, dispatch] <;>
        cases what <;> simp [due, done, held, pending, calls, Nat.add_comm]
    | _ => exact absurd ⟨trivial, id⟩ hquiet
  | callback callback =>
    cases h
    cases callback with
    | onDisconnecting reason | onDisconnected =>
      cases what <;> simp [seen, due, done, held, pending, calls, List.countP_cons]
    | _ => exact absurd ⟨trivial, id⟩ hquiet
  | ownerCallback c callback =>
    obtain ⟨-, hr⟩ := follow_eq_some.1 h
    cases hr
    cases what <;> rfl
  | serviceRemoveSession =>
    obtain ⟨-, hr⟩ := follow_eq_some.1 h
    cases hr
    cases what <;> rfl
  | removeSession | resetService =>
    cases h
    cases what <;> rfl
  | resetOwner c | resetEventOwner c =>
    cases h
    cases what <;> rfl
  | _ => exact absurd ⟨trivial, id⟩ hquiet

/-- A call settles nothing; a completion that is dequeued is still to be processed. -/
theorem enter {c : Call} {s s' : Session} {fs : List Stmt} {f : Stmt}
    (h : Session.enter c s fs = some (s', f)) : what.held s = what.held s' + what.pending f := by
  obtain ⟨hf, -, -, -, hflight, -⟩ | ⟨d, n, rfl, hpos, rfl⟩ := enter_plain h
  · rw [what.pending_plain hf]
    cases what <;> simp [held, hflight]
  · cases d with
    | disconnector =>
      cases what <;> simp [held, pending]
      omega
    | connector | receiver | sender => cases what <;> rfl

end Duty

/-- **What becomes due is done once**, or is still to be done. -/
theorem conserved [DecidableEq τ] {l : List Event} {p : State τ} (h : Observed l p) (what : Duty) :
    ∃ n, Stacks.Total p what.pending n ∧
      l.countP what.due = l.countP what.done + what.held p.shared + n := by
  refine Stacks.conserved ?_ ?_ ?_ h
  · rintro q ⟨⟨isClient, maxCount, hq⟩, hidle⟩
    refine ⟨?_, hidle⟩
    rw [hq]
    cases what <;> rfl
  · intro c s fs s' f hc
    rw [what.enter hc]
    simp
  · exact fun t k s f s' new hs => what.step hs

end CppNetEngine.Session
