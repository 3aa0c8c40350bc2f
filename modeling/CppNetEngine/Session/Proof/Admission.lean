import CppNetEngine.Session.Proof.Duties

/-!
# Admission, statement by statement

What a statement can do to the state word and to what a session is created with (`step_kept`), and
which statements lead to `AddSession`, to its answer and to the operations of the connector.
-/

namespace CppNetEngine.Session

variable {k : Outside} {s s' : Session} {f : Stmt} {new : List Stmt}

/-! ## The state word -/

/-- **What a statement keeps.** -/
structure Kept (s : Session) (f : Stmt) (s' : Session) : Prop where
  isClient : s'.isClient = s.isClient
  accepting : s'.accepting = s.accepting
  state : s'.mSessionState = s.mSessionState ∨ s'.mSessionState = .disconnected ∨
    ∃ swap : StateSwap, s.mSessionState = swap.expected ∧ s'.mSessionState = swap.desired
  mSocket : f = .resetService ∨ s'.mSocket = s.mSocket
  connecting : f = .issue .connector ∨ s'.inFlight .connector = s.inFlight .connector
  inWaitQueue : (∃ pService, f = .addSession pService) ∨ s'.inWaitQueue = s.inWaitQueue

theorem Kept.of_eq (hclient : s'.isClient = s.isClient) (haccepting : s'.accepting = s.accepting)
    (hstate : s'.mSessionState = s.mSessionState) (hsocket : s'.mSocket = s.mSocket)
    (hflight : s'.inFlight = s.inFlight) (hwaiting : s'.inWaitQueue = s.inWaitQueue) :
    Kept s f s' :=
  ⟨hclient, haccepting, .inl hstate, .inr hsocket, .inr (congrFun hflight _), .inr hwaiting⟩

theorem Kept.of_swaps {swap : StateSwap} (h : swaps k s swap = true) :
    Kept s f { s with mSessionState := swap.desired } :=
  ⟨rfl, rfl, .inr (.inr ⟨swap, Session.of_swaps h, rfl⟩), .inr rfl, .inr rfl, .inr rfl⟩

theorem step_kept (h : step k s f = some (s', new)) : Kept s f s' := by
  cases f with
  | exchangeDisconnected reason =>
    cases h
    exact ⟨rfl, rfl, .inr (.inl rfl), .inr rfl, .inr rfl, .inr rfl⟩
  | swapInGame | swapConnected | swapWaitingToConnected | swapWaiting | swapAdmitted =>
    simp only [step] at h
    split at h <;> rename_i hswaps <;> cases h
    · exact .of_swaps hswaps
    · exact .of_eq rfl rfl rfl rfl rfl rfl
  | issue c =>
    simp only [step] at h
    split at h <;> obtain ⟨-, hr⟩ := follow_eq_some.1 h <;> cases hr
    · exact .of_eq rfl rfl rfl rfl rfl rfl
    · refine ⟨rfl, rfl, .inl rfl, .inr rfl, ?_, .inr rfl⟩
      cases c with
      | connector => exact .inl rfl
      | disconnector | receiver | sender => exact .inr rfl
  | resetService =>
    cases h
    exact ⟨rfl, rfl, .inl rfl, .inl rfl, .inr rfl, .inr rfl⟩
  | ownerCallback | ownerDisconnect | ownerOnReceive | bindSocket | registerReap
  | serviceRemoveSession =>
    obtain ⟨-, hr⟩ := follow_eq_some.1 h
    cases hr
    exact .of_eq rfl rfl rfl rfl rfl rfl
  | addSession pService =>
    obtain ⟨-, hr⟩ := follow_eq_some.1 h
    split at hr <;> cases hr <;>
      exact ⟨rfl, rfl, .inl rfl, .inr rfl, .inr rfl, .inl ⟨pService, rfl⟩⟩
  | enqueue | dequeue =>
    simp only [step] at h
    split at h <;> cases h <;> exact .of_eq rfl rfl rfl rfl rfl rfl
  | _ =>
    cases h
    exact .of_eq rfl rfl rfl rfl rfl rfl

/-- No session waits, so the swaps that expect it to wait fail. -/
theorem Kept.not_waiting (h : Kept s f s') (hs : s.mSessionState ≠ .waiting) :
    s'.mSessionState ≠ .waiting := by
  obtain hsame | hdisconnected | ⟨swap, -, hdesired⟩ := h.state
  · rwa [hsame]
  · rw [hdisconnected]
    decide
  · rw [hdesired]
    exact swap.desired_ne_waiting

/-! ## From the accepted connection to the answer of `AddSession` -/

/-- What `Service::AddSession` answers, if the statement is its last but for callbacks and for what
it undoes. -/
def answer (s : Session) (k : Outside) : Stmt → Option Bool
  | .addSession _ => match k.admission with
    | .refused => some false
    | _ => none
  | .swapConnected => if swaps k s .setSessionConnected then some true else none
  | .swapWaitingToConnected => some (swaps k s .setWaitingToConnected)
  | .swapWaiting _ => some (swaps k s .setSessionWaiting)
  | _ => none

/-- A statement of `processConnect` from which `AddSession` is still to be answered. -/
def Stmt.admits : Stmt → Nat
  | .processConnect | .getService | .addSession _ => 1
  | .swapConnected | .swapWaitingToConnected | .swapWaiting _ => 1
  | _ => 0

/-- A statement of an operation of the connector, from the second test of `Register` on. -/
def Stmt.Connects : Stmt → Prop
  | .bindSocket | .issue .connector | .getOwner .connector _ => True
  | _ => False

/-- The statements have no part in the admission of a session of a server. -/
def AllApart (new : List Stmt) : Prop := ∀ g ∈ new, g.admits = 0 ∧ ¬ g.Connects

namespace AllApart

theorem nil : AllApart [] := fun _ h => nomatch h

theorem cons {f : Stmt} {new : List Stmt} (hf : f.admits = 0 ∧ ¬ f.Connects)
    (h : AllApart new) : AllApart (f :: new) := List.forall_mem_cons.2 ⟨hf, h⟩

theorem append {l₁ l₂ : List Stmt} (h₁ : AllApart l₁) (h₂ : AllApart l₂) :
    AllApart (l₁ ++ l₂) := List.forall_mem_append.2 ⟨h₁, h₂⟩

theorem of_clearsUp {new : List Stmt} (h : ∀ g ∈ new, g.ClearsUp) : AllApart new := by
  intro g hg
  have hclears := h g hg
  cases g <;> first | exact ⟨rfl, id⟩ | exact hclears.elim

theorem clear (c : Component) : AllApart (clear c) := of_clearsUp (clearsUp_clear c)

theorem kick (c : Component) (reason : DisconnectReason) : AllApart (kick c reason) :=
  of_clearsUp (clearsUp_kick c reason)

theorem issueFailed (c : Component) (errorCode : Nat) : AllApart (issueFailed errorCode c) :=
  of_clearsUp (clearsUp_issueFailed c errorCode)

theorem sessionAdded : AllApart sessionAdded := .cons ⟨rfl, id⟩ (.cons ⟨rfl, id⟩ .nil)

theorem sessionFailed : AllApart sessionFailed := .cons ⟨rfl, id⟩ (.cons ⟨rfl, id⟩ .nil)

theorem body (op : Op) : AllApart op.body := by
  cases op with
  | receiverProcess n | senderProcess n =>
    simp only [Op.body]
    split
    · exact kick _ _
    · simp [AllApart, Stmt.admits, Stmt.Connects]
  | _ => exact .cons ⟨rfl, id⟩ .nil

theorem dispatch {c : Component} (hc : c ≠ .connector) (n : Nat) : AllApart (dispatch n c) := by
  cases c with
  | connector => exact absurd rfl hc
  | disconnector =>
    exact ((clear _).append (.cons ⟨rfl, id⟩ (.cons ⟨rfl, id⟩ .nil))).append
      (of_clearsUp clearsUp_clearSession)
  | receiver | sender => exact .cons ⟨rfl, id⟩ .nil

theorem weigh {new : List Stmt} (h : AllApart new) : Stacks.weigh Stmt.admits new = 0 :=
  Stacks.weigh_eq_zero fun g hg => (h g hg).1

end AllApart

/-- **Statements apart from the admission** stay apart from it. -/
theorem step_apart (hf : f.admits = 0) (hconnects : ¬ f.Connects) (hclient : s.isClient = false)
    (h : step k s f = some (s', new)) : answer s k f = none ∧ AllApart new := by
  cases f with
  | processConnect | getService | addSession | swapConnected | swapWaitingToConnected
  | swapWaiting => cases hf
  | bindSocket => exact absurd trivial hconnects
  | testOwner op =>
    cases h
    refine ⟨rfl, ?_⟩
    split
    · exact .body op
    · exact .clear _
  | issue c =>
    refine ⟨rfl, ?_⟩
    simp only [step] at h
    split at h <;> obtain ⟨-, hr⟩ := follow_eq_some.1 h <;> cases hr
    · exact .issueFailed c _
    · exact .nil
  | getOwner c n =>
    cases h
    refine ⟨rfl, ?_⟩
    have hc : c ≠ .connector := by
      rintro rfl
      exact hconnects trivial
    split
    · exact .dispatch hc n
    · exact .nil
  | testService =>
    cases h
    rw [hclient, Bool.and_false, if_neg Bool.false_ne_true]
    exact ⟨rfl, .clear _⟩
  | testFreeSize | onReceive =>
    cases h
    refine ⟨rfl, ?_⟩
    split
    · exact .kick _ _
    · simp [AllApart, Stmt.admits, Stmt.Connects]
  | enqueue =>
    simp only [step] at h
    split at h <;> cases h <;> refine ⟨rfl, ?_⟩
    · exact .append (.clear _) (.cons ⟨rfl, id⟩ .nil)
    · exact .cons ⟨rfl, id⟩ .nil
  | dequeue n =>
    simp only [step] at h
    split at h <;> cases h <;> refine ⟨rfl, ?_⟩ <;> split <;>
      simp [AllApart, Stmt.admits, Stmt.Connects]
  | swapInGame =>
    simp only [step] at h
    split at h <;> cases h <;> exact ⟨rfl, .nil⟩
  | swapAdmitted =>
    simp only [step] at h
    split at h <;> cases h <;> refine ⟨rfl, ?_⟩ <;> simp [AllApart, Stmt.admits, Stmt.Connects]
  | exchangeDisconnected | exchangeRegistered | testSendQueue | admitOther | admitWaiting =>
    cases h
    refine ⟨rfl, ?_⟩
    split <;> simp [AllApart, Stmt.admits, Stmt.Connects]
  | ownerCallback | ownerDisconnect | ownerOnReceive | registerReap | serviceRemoveSession =>
    obtain ⟨-, hr⟩ := follow_eq_some.1 h
    cases hr
    refine ⟨rfl, ?_⟩
    simp [AllApart, Stmt.admits, Stmt.Connects]
  | _ =>
    cases h
    refine ⟨rfl, ?_⟩
    simp [AllApart, Stmt.admits, Stmt.Connects]

/-- **`AddSession` is answered once** for an accepted session: a statement that leads to the answer
leaves one such statement, or answers. -/
theorem step_admission (hconnects : ¬ f.Connects) (hclient : s.isClient = false)
    (h : step k s f = some (s', new)) :
    (∀ g ∈ new, ¬ g.Connects) ∧
      Stacks.weigh Stmt.admits new + (answer s k f).toList.length ≤ f.admits := by
  by_cases hf : f.admits = 0
  · obtain ⟨hanswer, hnew⟩ := step_apart hf hconnects hclient h
    rw [hanswer, hnew.weigh, hf]
    exact ⟨fun g hg => (hnew g hg).2, Nat.le_refl 0⟩
  cases f with
  | processConnect =>
    cases h
    exact ⟨by simp [processConnect, clear, Stmt.Connects], Nat.le_refl 1⟩
  | getService =>
    cases h
    exact ⟨by simp [Stmt.Connects], Nat.le_refl 1⟩
  | addSession pService =>
    obtain ⟨-, hr⟩ := follow_eq_some.1 h
    simp only [answer]
    split at hr <;> rename_i hadmission <;> cases hr <;> rw [hadmission] <;>
      exact ⟨by simp [Stmt.Connects], Nat.le_refl 1⟩
  | swapConnected =>
    simp only [step] at h
    split at h <;> rename_i hswaps <;> cases h
    · simp [answer, hswaps, sessionAdded, Stmt.admits, Stmt.Connects]
    · simp [answer, hswaps, Stmt.admits, Stmt.Connects]
  | swapWaitingToConnected | swapWaiting =>
    simp only [step] at h
    split at h <;> rename_i hswaps <;> cases h
    · simp [answer, sessionAdded, Stmt.admits, Stmt.Connects]
    · simp [answer, sessionFailed, Stmt.admits, Stmt.Connects]
  | _ => exact absurd rfl hf

/-! ## From `AddSession` to `OnConnected` -/

/-- A statement that makes the session a member, connects it, or calls `OnConnected`. -/
def Stmt.Joins : Stmt → Prop
  | .swapConnected | .admitWaiting => True
  | .callback .onConnected | .ownerCallback _ .onConnected => True
  | _ => False

/-- No statement of the list joins. -/
def NoneJoins (new : List Stmt) : Prop := ∀ g ∈ new, ¬ g.Joins

namespace NoneJoins

theorem nil : NoneJoins [] := fun _ h => nomatch h

theorem cons {f : Stmt} {new : List Stmt} (hf : ¬ f.Joins) (h : NoneJoins new) :
    NoneJoins (f :: new) := List.forall_mem_cons.2 ⟨hf, h⟩

theorem append {l₁ l₂ : List Stmt} (h₁ : NoneJoins l₁) (h₂ : NoneJoins l₂) :
    NoneJoins (l₁ ++ l₂) := List.forall_mem_append.2 ⟨h₁, h₂⟩

theorem of_clearsUp {new : List Stmt} (h : ∀ g ∈ new, g.ClearsUp) : NoneJoins new := by
  intro g hg hjoins
  have hclears := h g hg
  unfold Stmt.Joins at hjoins
  split at hjoins <;> first | exact hjoins | exact hclears

theorem clear (c : Component) : NoneJoins (clear c) := of_clearsUp (clearsUp_clear c)

theorem kick (c : Component) (reason : DisconnectReason) : NoneJoins (kick c reason) :=
  of_clearsUp (clearsUp_kick c reason)

theorem issueFailed (c : Component) (errorCode : Nat) : NoneJoins (issueFailed errorCode c) :=
  of_clearsUp (clearsUp_issueFailed c errorCode)

theorem body (op : Op) : NoneJoins op.body := by
  cases op with
  | receiverProcess n | senderProcess n =>
    simp only [Op.body]
    split
    · exact kick _ _
    · simp [NoneJoins, Stmt.Joins]
  | _ => exact .cons id .nil

theorem dispatch (c : Component) (n : Nat) : NoneJoins (dispatch n c) := by
  cases c with
  | connector => exact (clear _).append (.cons id .nil)
  | disconnector =>
    exact ((clear _).append (.cons id (.cons id .nil))).append (of_clearsUp clearsUp_clearSession)
  | receiver | sender => exact .cons id .nil

end NoneJoins

/-- **Only `AddSession` lets a session that is `Disconnected` join.** -/
theorem step_joins (hs : s.mSessionState = .disconnected) (hf : ¬ f.Joins)
    (h : step k s f = some (s', new)) :
    NoneJoins new ∨ ∃ pService, f = .addSession pService ∧ k.admission = .added := by
  have hswaps : ¬ swaps k s .setWaitingToConnected = true := by
    intro hswaps
    have hwaiting := of_swaps hswaps
    rw [hs] at hwaiting
    cases hwaiting
  cases f with
  | swapConnected | admitWaiting => exact absurd trivial hf
  | addSession pService =>
    obtain ⟨-, hr⟩ := follow_eq_some.1 h
    split at hr <;> rename_i hadmission <;> cases hr
    · exact .inr ⟨pService, rfl, hadmission⟩
    · exact .inl (.cons id .nil)
    · exact .inl (.cons id .nil)
  | testOwner op =>
    cases h
    refine .inl ?_
    split
    · exact .body op
    · exact .clear _
  | issue c =>
    simp only [step] at h
    split at h <;> obtain ⟨-, hr⟩ := follow_eq_some.1 h <;> cases hr
    · exact .inl (.issueFailed c _)
    · exact .inl .nil
  | getOwner c n =>
    cases h
    refine .inl ?_
    split
    · exact .dispatch c n
    · exact .nil
  | testService | testFreeSize | onReceive =>
    cases h
    refine .inl ?_
    split <;> simp [NoneJoins, kick, clear, Stmt.Joins]
  | bindSocket =>
    obtain ⟨-, hr⟩ := follow_eq_some.1 h
    cases hr
    refine .inl ?_
    split <;> simp [NoneJoins, clear, Stmt.Joins]
  | enqueue =>
    simp only [step] at h
    split at h <;> cases h <;> refine .inl ?_
    · exact .append (.clear _) (.cons id .nil)
    · exact .cons id .nil
  | dequeue n =>
    simp only [step] at h
    split at h <;> cases h <;> refine .inl ?_ <;> split <;> simp [NoneJoins, Stmt.Joins]
  | swapInGame =>
    simp only [step] at h
    split at h <;> cases h <;> exact .inl .nil
  | swapWaitingToConnected | swapAdmitted =>
    simp only [step, if_neg hswaps] at h
    cases h
    refine .inl ?_
    simp [NoneJoins, sessionFailed, Stmt.Joins]
  | swapWaiting myTicket =>
    simp only [step] at h
    split at h <;> cases h <;> refine .inl ?_ <;>
      simp [NoneJoins, sessionAdded, sessionFailed, Stmt.Joins]
  | exchangeDisconnected | exchangeRegistered | testSendQueue | admitOther =>
    cases h
    refine .inl ?_
    split <;> simp [NoneJoins, Stmt.Joins]
  | ownerCallback c callback =>
    obtain ⟨-, hr⟩ := follow_eq_some.1 h
    cases hr
    refine .inl (.cons ?_ .nil)
    cases callback <;> first | exact id | exact hf
  | ownerDisconnect | ownerOnReceive | registerReap | serviceRemoveSession =>
    obtain ⟨-, hr⟩ := follow_eq_some.1 h
    cases hr
    refine .inl ?_
    simp [NoneJoins, Stmt.Joins]
  | _ =>
    cases h
    refine .inl ?_
    simp [NoneJoins, processConnect, clear, Stmt.Joins]

/-! ## Calls -/

/-- What a call does to the session, and the statement it begins with. -/
structure Entered (s : Session) (f : Stmt) (s' : Session) : Prop where
  isClient : s'.isClient = s.isClient
  state : s'.mSessionState = s.mSessionState
  mSocket : s'.mSocket = s.mSocket
  /-- An accepted connection is handed to `processConnect` once. -/
  admits : f.admits + s'.accepting.toNat = s.accepting.toNat
  connecting : (s'.inFlight .connector = s.inFlight .connector ∧ ¬ f.Connects) ∨
    0 < s.inFlight .connector
  joins : (s'.inWaitQueue = s.inWaitQueue ∧ ¬ f.Joins) ∨ s.inWaitQueue = true

theorem enter_admission {c : Call} {fs : List Stmt} (h : enter c s fs = some (s', f)) :
    Entered s f s' := by
  have hapi : (api c).map (fun f => (s, f)) = some (s', f) → Entered s f s' := by
    intro hc
    obtain ⟨g, hg, hr⟩ := Option.map_eq_some_iff.1 hc
    cases hr
    cases c <;> cases hg <;>
      exact ⟨rfl, rfl, rfl, Nat.zero_add _, .inl ⟨rfl, id⟩, .inl ⟨rfl, id⟩⟩
  unfold enter at h
  split at h
  · split at h
    · split at h <;> rename_i haccepting <;> cases h
      exact ⟨rfl, rfl, rfl, by rw [haccepting]; rfl, .inl ⟨rfl, id⟩, .inl ⟨rfl, id⟩⟩
    · split at h <;> rename_i hwaiting <;> cases h
      exact ⟨rfl, rfl, rfl, Nat.zero_add _, .inl ⟨rfl, id⟩, .inr hwaiting⟩
    · rename_i d n
      split at h <;> rename_i hpos <;> cases h
      refine ⟨rfl, rfl, rfl, Nat.zero_add _, ?_, .inl ⟨rfl, id⟩⟩
      cases d with
      | connector => exact .inr hpos
      | disconnector | receiver | sender => exact .inl ⟨rfl, id⟩
    · exact hapi h
  · exact hapi h
  · exact hapi h
  · cases h

end CppNetEngine.Session
