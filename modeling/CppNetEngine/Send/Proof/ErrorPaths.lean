import CppNetEngine.Send.Reentrant

/-!
# The error paths of the sender

Each of them should end in one `Disconnect` of the owner. `Process` calls it before `Clear`, and
does (`process_zero`). `Send` calls it after `Clear`, through the owner that `Clear` has dropped
(`send_refused`). `Register` calls `OnError` first: if the application disconnects the session there
and then calls `Send`, or fills the queue, that `Send` has dropped the owner (`register_failed`).
-/

namespace CppNetEngine

variable {β : Type}

namespace SenderSession

/-! ## A disconnected session -/

/-- From `s` to `s'` the session has been, or is being, disconnected: the sender still has its owner
where it had it and `kept`, and has not called `Disconnect` itself. -/
structure Left (s s' : SenderSession β) (kept : Bool) : Prop where
  disconnected : s'.sender.isDisconnected = true
  owner : s'.sender.mpOwner = (s.sender.mpOwner && kept)
  calls : s'.disconnectCalls = s.disconnectCalls

theorem Left.trans {s s' s'' : SenderSession β} {kept kept' : Bool} (h : Left s s' kept)
    (h' : Left s' s'' kept') : Left s s'' (kept && kept') where
  disconnected := h'.disconnected
  owner := by rw [h'.owner, h.owner, Bool.and_assoc]
  calls := h'.calls.trans h.calls

@[simp] theorem clear_mpOwner (s : SenderSession β) : s.clear.sender.mpOwner = false := rfl

@[simp] theorem clear_isDisconnected (s : SenderSession β) :
    s.clear.sender.isDisconnected = s.sender.isDisconnected := rfl

@[simp] theorem clear_disconnectCalls (s : SenderSession β) :
    s.clear.disconnectCalls = s.disconnectCalls := rfl

@[simp] theorem clear_mDisconnectorOwner (s : SenderSession β) :
    s.clear.mDisconnectorOwner = s.mDisconnectorOwner := rfl

theorem send_disconnected (env : Surroundings (Effect β)) (b : β) {s : SenderSession β}
    (h : s.sender.isDisconnected = true) : send env b s = some s.clear := by
  unfold send
  exact if_pos (by simp [Sender.isGone, h])

theorem disconnect_disconnected (env : Surroundings (Effect β)) (reason : DisconnectReason)
    {s : SenderSession β} (h : s.sender.isDisconnected = true) :
    disconnect env reason s = some s := by
  unfold disconnect
  exact if_pos h

end SenderSession

namespace Callback

open SenderSession

/-- **A callback of a disconnected session**: every `Send` clears the sender, every `Disconnect`
does nothing. -/
theorem run_disconnected (c : Callback β) : ∀ {s : SenderSession β},
    s.sender.isDisconnected = true → ∃ s', c.run s = some s' ∧ Left s s' c.sendsNothing ∧
      s'.mDisconnectorOwner = s.mDisconnectorOwner := by
  induction c with
  | ret =>
    intro s h
    exact ⟨s, rfl, ⟨h, by simp [sendsNothing], rfl⟩, rfl⟩
  | send b wsaSend disconnectEx onError onDisconnecting onDisconnectError next _ _ _ ih =>
    intro s h
    obtain ⟨s', hrun, hleft, hdisconnector⟩ := ih (s := s.clear) h
    refine ⟨s', ?_, ⟨hleft.disconnected, ?_, hleft.calls⟩, hdisconnector⟩
    · show (SenderSession.send _ b s).bind next.run = some s'
      rw [send_disconnected _ b h]
      exact hrun
    · rw [hleft.owner]
      simp [sendsNothing]
  | disconnect reason wsaSend disconnectEx onError onDisconnecting onDisconnectError next _ _ _ ih =>
    intro s h
    obtain ⟨s', hrun, hleft⟩ := ih h
    refine ⟨s', ?_, hleft⟩
    show (SenderSession.disconnect _ reason s).bind next.run = some s'
    rw [disconnect_disconnected _ reason h]
    exact hrun

end Callback

namespace SenderSession

/-! ## Disconnecting -/

theorem registerDisconnect_disconnected (env : Surroundings (Callback β)) {s : SenderSession β}
    (h : s.sender.isDisconnected = true) :
    ∃ s', registerDisconnect env.run s = some s' ∧
      Left s s' (!s.mDisconnectorOwner || decide env.disconnectEx.Accepted ||
        env.onDisconnectError.sendsNothing) := by
  obtain ⟨sender, mDisconnectorOwner, disconnectCalls⟩ := s
  cases mDisconnectorOwner with
  | false => exact ⟨_, rfl, h, (Bool.and_true _).symm, rfl⟩
  | true =>
    obtain ⟨wsaSend, disconnectEx, onError, onDisconnecting, onDisconnectError⟩ := env
    cases disconnectEx with
    | ok => exact ⟨_, rfl, h, (Bool.and_true _).symm, rfl⟩
    | pending => exact ⟨_, rfl, h, (Bool.and_true _).symm, rfl⟩
    | error errorCode =>
      obtain ⟨s', hrun, hleft, -⟩ := onDisconnectError.run_disconnected (s := ⟨{ sender with
        onError := sender.onError ++ [errorCode] }, true, disconnectCalls⟩) h
      refine ⟨{ s' with mDisconnectorOwner := false }, ?_, hleft.disconnected, hleft.owner,
        hleft.calls⟩
      show (onDisconnectError.run _).bind _ = _
      rw [hrun]
      rfl

/-- **`Disconnect` of a connected session** has an end, and the owner is still there where nothing
was sent from its callbacks. -/
theorem disconnect_connected (env : Surroundings (Callback β)) (reason : DisconnectReason)
    {s : SenderSession β} (h : s.sender.isDisconnected = false) :
    ∃ s', disconnect env.run reason s = some s' ∧
      Left s s' (env.sendsNothing s.mDisconnectorOwner) := by
  have hdisc : s.sender.disconnect reason = { s.sender with
      isDisconnected := true
      onDisconnecting := s.sender.onDisconnecting ++ [reason] } := by
    unfold Sender.disconnect
    exact if_neg (by simp [h])
  obtain ⟨s1, hrun1, hleft1, hdisconnector⟩ := env.onDisconnecting.run_disconnected
    (s := { s with sender := s.sender.disconnect reason }) (by rw [hdisc])
  obtain ⟨s2, hrun2, hleft2⟩ := registerDisconnect_disconnected env hleft1.disconnected
  refine ⟨s2, ?_, ?_⟩
  · unfold disconnect
    rw [if_neg (by simp [h])]
    show (env.onDisconnecting.run _).bind _ = _
    rw [hrun1]
    exact hrun2
  · have hleft := hleft1.trans hleft2
    rw [hdisconnector] at hleft
    refine ⟨hleft.disconnected, ?_, hleft.calls⟩
    rw [hleft.owner, hdisc]
    rfl

/-- `Disconnect` has an end, with the session Disconnected. -/
theorem disconnect_ends (env : Surroundings (Callback β)) (reason : DisconnectReason)
    (s : SenderSession β) :
    ∃ s' kept, disconnect env.run reason s = some s' ∧ Left s s' kept := by
  cases h : s.sender.isDisconnected with
  | true => exact ⟨s, true, disconnect_disconnected _ reason h, h, by simp, rfl⟩
  | false =>
    obtain ⟨s', hrun, hleft⟩ := disconnect_connected env reason h
    exact ⟨s', _, hrun, hleft⟩

end SenderSession

namespace Callback

/-! ## `OnError` of `Register` -/

/-- A sender that has raised its flag for a connected session, with room for `room` buffers. -/
structure Raised (s : SenderSession β) (room : Nat) : Prop where
  owner : s.sender.mpOwner = true
  connected : s.sender.isDisconnected = false
  registered : s.sender.mbSendRegistered = true
  room_eq : s.sender.mMaxCount - s.sender.mSendQueue.length = room

theorem Raised.isGone {s : SenderSession β} {room : Nat} (h : Raised s room) :
    s.sender.isGone = false := by
  simp [Sender.isGone, h.owner, h.connected]

theorem register_raised (env : Surroundings (Effect β)) {s : SenderSession β} {room : Nat}
    (h : Raised s room) : SenderSession.register env s = some s := by
  unfold SenderSession.register
  rw [h.isGone, if_neg (by decide), if_pos h.registered]

/-- `Send` with the flag raised queues the buffer, or finds the queue full. -/
theorem send_raised (env : Surroundings (Effect β)) (b : β) {s : SenderSession β} {room : Nat}
    (h : Raised s room) :
    (room = 0 ∧ SenderSession.send env b s = none) ∨
      ∃ s', 0 < room ∧ SenderSession.send env b s = some s' ∧ Raised s' (room - 1) ∧
        s'.disconnectCalls = s.disconnectCalls ∧ s'.mDisconnectorOwner = s.mDisconnectorOwner := by
  have hroom := h.room_eq
  unfold SenderSession.send
  rw [h.isGone, if_neg (by decide)]
  by_cases hfull : s.sender.mMaxCount ≤ s.sender.mSendQueue.length
  · rw [if_pos hfull]
    exact .inl ⟨by omega, rfl⟩
  · rw [if_neg hfull]
    have hqueued : Raised { s with sender := { s.sender with
        mSendQueue := s.sender.mSendQueue ++ [b]
        enqueued := s.sender.enqueued ++ [b] } } (room - 1) := by
      refine ⟨h.owner, h.connected, h.registered, ?_⟩
      show s.sender.mMaxCount - (s.sender.mSendQueue ++ [b]).length = room - 1
      rw [List.length_append, List.length_singleton]
      omega
    rw [register_raised env hqueued]
    exact .inr ⟨_, by omega, rfl, hqueued, rfl, rfl⟩

/-- **When the sender has its owner after a callback**: exactly if the callback keeps it. -/
theorem run_raised (c : Callback β) : ∀ {s : SenderSession β} {room : Nat}, Raised s room →
    (c.keepsOwner s.mDisconnectorOwner room = true → (c.run s).isSome = true) ∧
    ∀ s', c.run s = some s' → s'.sender.mpOwner = c.keepsOwner s.mDisconnectorOwner room ∧
      s'.disconnectCalls = s.disconnectCalls := by
  induction c with
  | ret =>
    rintro s room h
    refine ⟨fun _ => rfl, fun s' hs' => ?_⟩
    cases hs'
    exact ⟨h.owner, rfl⟩
  | send b wsaSend disconnectEx onError onDisconnecting onDisconnectError next _ _ _ ih =>
    rintro s room h
    have hrun : (send b wsaSend disconnectEx onError onDisconnecting onDisconnectError next).run s =
        (SenderSession.send ⟨wsaSend, disconnectEx, onError.run, onDisconnecting.run,
          onDisconnectError.run⟩ b s).bind next.run := rfl
    rw [hrun]
    rcases send_raised ⟨wsaSend, disconnectEx, onError.run, onDisconnecting.run,
      onDisconnectError.run⟩ b h with ⟨rfl, hnone⟩ | ⟨s1, hpos, hsome, hraised, hcalls, hdisconnector⟩
    · rw [hnone]
      exact ⟨nofun, nofun⟩
    · have hkeeps : (send b wsaSend disconnectEx onError onDisconnecting onDisconnectError
          next).keepsOwner s.mDisconnectorOwner room =
            next.keepsOwner s1.mDisconnectorOwner (room - 1) := by
        simp [keepsOwner, hpos, hdisconnector]
      rw [hsome, hkeeps, ← hcalls]
      exact ih hraised
  | disconnect reason wsaSend disconnectEx onError onDisconnecting onDisconnectError next _ _ _ ih =>
    rintro s room h
    obtain ⟨s1, hrun1, hleft1⟩ := SenderSession.disconnect_connected
      ⟨wsaSend, disconnectEx, onError, onDisconnecting, onDisconnectError⟩ reason h.connected
    obtain ⟨s2, hrun2, hleft2, -⟩ := next.run_disconnected hleft1.disconnected
    have hleft := hleft1.trans hleft2
    have hrun : (disconnect reason wsaSend disconnectEx onError onDisconnecting onDisconnectError
        next).run s = some s2 := by
      have hrun1' : SenderSession.disconnect ⟨wsaSend, disconnectEx, onError.run,
          onDisconnecting.run, onDisconnectError.run⟩ reason s = some s1 := hrun1
      show (SenderSession.disconnect _ reason s).bind next.run = some s2
      rw [hrun1']
      exact hrun2
    rw [hrun]
    refine ⟨fun _ => rfl, fun s' hs' => ?_⟩
    cases hs'
    refine ⟨?_, hleft.calls⟩
    rw [hleft.owner, h.owner, Bool.true_and]
    rfl

end Callback

namespace SenderSession

/-! ## The failing calls -/

/-- The call ends with the session Disconnected, after one `Disconnect` by the sender. -/
def EndsInDisconnect (s : SenderSession β) (result : Option (SenderSession β)) : Prop :=
  ∃ s' reason, result = some s' ∧ s'.sender.isDisconnected = true ∧
    s'.disconnectCalls = s.disconnectCalls ++ [reason]

theorem ownerDisconnect_clear (env : Surroundings (Callback β)) (reason : DisconnectReason)
    {s : SenderSession β} (h : s.sender.mpOwner = true) :
    EndsInDisconnect s ((ownerDisconnect env.run reason s).bind fun s => some s.clear) := by
  unfold ownerDisconnect
  rw [h, if_pos rfl]
  obtain ⟨s', kept, hrun, hleft⟩ := disconnect_ends env reason
    { s with disconnectCalls := s.disconnectCalls ++ [reason] }
  rw [hrun]
  exact ⟨s'.clear, reason, rfl, hleft.disconnected, hleft.calls⟩

/-- The queue is full: `Clear` has dropped the owner. -/
theorem send_refused (env : Surroundings (Effect β)) (b : β) {s : SenderSession β}
    (howner : s.sender.mpOwner = true) (hconnected : s.sender.isDisconnected = false)
    (hfull : s.sender.mMaxCount ≤ s.sender.mSendQueue.length) : send env b s = none := by
  unfold send
  rw [if_neg (by simp [Sender.isGone, howner, hconnected]), if_pos hfull]
  rfl

theorem process_zero (env : Surroundings (Callback β)) (onSend : Effect β) {s : SenderSession β}
    (howner : s.sender.mpOwner = true) (hconnected : s.sender.isDisconnected = false) :
    EndsInDisconnect s (process env.run onSend 0 s) := by
  unfold process
  dsimp only
  rw [if_neg (by simp [Sender.isGone, howner, hconnected]), if_pos rfl]
  exact ownerDisconnect_clear env .kicked (s := { s with
    sender := { s.sender with sendPendingBuffer := [] } }) howner

theorem register_failed (env : Surroundings (Callback β)) {errorCode : Nat} {s : SenderSession β}
    (howner : s.sender.mpOwner = true) (hconnected : s.sender.isDisconnected = false)
    (hflag : s.sender.mbSendRegistered = false) (hqueue : s.sender.mSendQueue ≠ [])
    (hfails : env.wsaSend = .error errorCode) :
    EndsInDisconnect s (register env.run s) ↔
      env.onError.keepsOwner s.mDisconnectorOwner (s.sender.mMaxCount -
        (s.sender.mSendQueue.drop Sender.maxSendWsabufSize).length) = true := by
  have hpos := List.length_pos_of_ne_nil hqueue
  have htaken : ¬ (s.sender.mSendQueue.take Sender.maxSendWsabufSize).length = 0 := by
    rw [List.length_take, Sender.maxSendWsabufSize]
    omega
  unfold register
  dsimp only
  rw [if_neg (by simp [Sender.isGone, howner, hconnected]), if_neg (by simp [hflag]),
    if_neg htaken, show env.run.wsaSend = .error errorCode from hfails]
  dsimp only
  -- the sender as `OnError` finds it
  generalize hs1 : SenderSession.mk _ _ _ = s1
  have hraised : Callback.Raised s1 (s.sender.mMaxCount -
      (s.sender.mSendQueue.drop Sender.maxSendWsabufSize).length) := by
    subst hs1
    exact ⟨howner, hconnected, rfl, rfl⟩
  have hdisconnector : s1.mDisconnectorOwner = s.mDisconnectorOwner := by
    subst hs1
    rfl
  have hcalls : s1.disconnectCalls = s.disconnectCalls := by
    subst hs1
    rfl
  obtain ⟨hsome, hend⟩ := env.onError.run_raised hraised
  rw [hdisconnector] at hsome hend
  show EndsInDisconnect s ((env.onError.run s1).bind fun s =>
    (ownerDisconnect env.run .socketError s).bind fun s => some s.clear) ↔ _
  cases hrun : env.onError.run s1 with
  | none =>
    rw [hrun] at hsome
    refine ⟨?_, fun hkeeps => ?_⟩
    · rintro ⟨s', reason, hnone, -⟩
      cases hnone
    · cases hsome hkeeps
  | some s2 =>
    obtain ⟨howner2, hcalls2⟩ := hend s2 hrun
    rw [← howner2]
    constructor
    · rintro ⟨s', reason, hs', -⟩
      by_contra hnull
      rw [Option.bind_some, ownerDisconnect, if_neg hnull] at hs'
      cases hs'
    · intro h2
      obtain ⟨s', reason, hs', hdisc, hcalls'⟩ := ownerDisconnect_clear env .socketError h2
      exact ⟨s', reason, hs', hdisc, by rw [hcalls', hcalls2, hcalls]⟩

/-- The calls that fail, on the state in which they begin. -/
inductive FailingCall (β : Type)
  /-- `Send`, with the queue full. -/
  | send (pSendBuffer : β)
  /-- `Register`, also where `Send` or `Process` comes to it: it takes buffers, and `WSASend` answers
  with an error. -/
  | register (errorCode : Nat)
  /-- `Process` of a completion with no bytes. -/
  | process (onSend : Effect β)

namespace FailingCall

def Fails (env : Surroundings (Callback β)) (s : SenderSession β) : FailingCall β → Prop
  | send _ => s.sender.mMaxCount ≤ s.sender.mSendQueue.length
  | register errorCode => s.sender.mbSendRegistered = false ∧ s.sender.mSendQueue ≠ [] ∧
      env.wsaSend = .error errorCode
  | process _ => True

def result (env : Surroundings (Callback β)) (s : SenderSession β) :
    FailingCall β → Option (SenderSession β)
  | send b => SenderSession.send env.run b s
  | register _ => SenderSession.register env.run s
  | process onSend => SenderSession.process env.run onSend 0 s

/-- What the failing call needs of the callbacks: `OnError` of `Register` keeps the owner, with the
room there is when the buffers have been taken. -/
def OwnerKept (env : Surroundings (Callback β)) (s : SenderSession β) : FailingCall β → Prop
  | send _ => False
  | register _ => env.onError.keepsOwner s.mDisconnectorOwner (s.sender.mMaxCount -
      (s.sender.mSendQueue.drop Sender.maxSendWsabufSize).length) = true
  | process _ => True

end FailingCall

/-- **When an error path ends in a disconnect**: not the one of `Send`, that of `Process` always,
and that of `Register` where its `OnError` leaves the sender its owner. -/
theorem endsInDisconnect_iff (env : Surroundings (Callback β)) {s : SenderSession β}
    (howner : s.sender.mpOwner = true) (hconnected : s.sender.isDisconnected = false)
    {call : FailingCall β} (hfails : call.Fails env s) :
    EndsInDisconnect s (call.result env s) ↔ call.OwnerKept env s := by
  cases call with
  | send b =>
    refine iff_of_false ?_ id
    rintro ⟨s', reason, hs', -⟩
    rw [FailingCall.result, send_refused env.run b howner hconnected hfails] at hs'
    cases hs'
  | register errorCode =>
    obtain ⟨hflag, hqueue, herror⟩ := hfails
    exact register_failed env howner hconnected hflag hqueue herror
  | process onSend => exact iff_of_true (process_zero env onSend howner hconnected) trivial

/-- A sender with room for one buffer, which has one queued, with its flag raised or not. -/
def oneQueued (mbSendRegistered : Bool) : SenderSession Nat where
  sender := { Sender.new Nat 1 with
    mbSendRegistered := mbSendRegistered
    mSendQueue := [7]
    enqueued := [7] }
  mDisconnectorOwner := true
  disconnectCalls := []

/-- `WSASend` fails, and `OnError` does as given. -/
def failing (onError : Callback Nat) : Surroundings (Callback Nat) where
  wsaSend := .error 10054
  disconnectEx := .ok
  onError := onError
  onDisconnecting := .ret
  onDisconnectError := .ret

theorem endsInDisconnect_oneQueued :
    EndsInDisconnect (oneQueued false)
      ((FailingCall.register 10054).result (failing .ret) (oneQueued false)) := by
  have hfails : (FailingCall.register 10054).Fails (failing .ret) (oneQueued false) :=
    ⟨rfl, by decide, rfl⟩
  exact (endsInDisconnect_iff (failing .ret) rfl rfl hfails).2 rfl

/-- `OnError` that disconnects the session and sends something. -/
def disconnectAndSend : Callback Nat :=
  .disconnect .clientRequest .ok .ok .ret .ret .ret (.send 8 .ok .ok .ret .ret .ret .ret)

/-- **Null owners**: of a `Send` into a full queue, and of a `Register` whose `OnError` disconnects
the session and sends something. -/
theorem not_endsInDisconnect :
    ¬ EndsInDisconnect (oneQueued true)
        ((FailingCall.send 8).result (failing .ret) (oneQueued true)) ∧
      ¬ EndsInDisconnect (oneQueued false)
        ((FailingCall.register 10054).result (failing disconnectAndSend) (oneQueued false)) := by
  constructor
  · rintro ⟨s', reason, hs', -⟩
    cases hs'
  · rintro ⟨s', reason, hs', -⟩
    cases hs'

end SenderSession

end CppNetEngine
