import CppNetEngine.Socket.Sockets

/-!
# Sockets that are never closed

`SocketUtils::Close` calls `closesocket` if its argument is `INVALID_SOCKET`, so no socket is ever
passed to `closesocket` (`closed_invalid`), and sessions do not even try. A socket is leaked as soon
as its `mSocket` is overwritten or its owner is destroyed: in the runs in which none is, and only in
these, is nothing leaked (`notLeaked_iff`).
-/

namespace CppNetEngine.Engine

/-- No socket is closed twice, and those that were dropped are closed. -/
structure NotLeaked (e : Engine) : Prop where
  once : ∀ x, e.sockets.closed.count (some x) ≤ 1
  closed : ∀ x ∈ e.dropped, some x ∈ e.sockets.closed

/-- The valid sockets that an `mSocket` loses in a call. -/
def drops (e : Engine) : Act → List Nat
  | .createSession _ wsaSocket registered =>
    if wsaSocket && !registered then [e.sockets.created] else []
  | .clear i | .destroySession i => (e.valid (.session i)).toList
  | .startAccept i wsaSocket _ => if wsaSocket then [] else (e.valid (.listener i)).toList
  | .closeAccept i | .destroyListener i => (e.valid (.listener i)).toList
  | .init _ _ _ | .createListener _ => []

/-- No `mSocket` with a valid socket is overwritten with `INVALID_SOCKET` or destroyed. -/
def Keeps (e : Engine) (a : Act) : Prop := e.drops a = []

instance (e : Engine) (a : Act) : Decidable (Keeps e a) := inferInstanceAs (Decidable (_ = _))

/-! ## Fields -/

section Fields

variable (e : Engine) (o : SocketOwner)

theorem valid_assign (socket : Option Nat) : (e.assign o socket).valid o = socket := by
  simp [valid, assign]

theorem dropped_assign_invalid : (e.assign o none).dropped = e.dropped ++ (e.valid o).toList := rfl

theorem dropped_createTcpSocket : (e.createTcpSocket o true).dropped = e.dropped := rfl

theorem valid_createTcpSocket : (e.createTcpSocket o true).valid o = some e.sockets.created :=
  valid_assign _ _ _

theorem dropped_free : (e.free o).dropped = e.dropped ++ (e.valid o).toList := rfl

theorem dropped_close : (e.close o).dropped = e.dropped ++ (e.valid o).toList := rfl

theorem valid_close : (e.close o).valid o = none := valid_assign _ _ _

theorem valid_of_none (h : ¬ (e.mSocket o).isSome = true) : e.valid o = none := by
  rw [valid, Option.not_isSome_iff_eq_none.1 h]
  rfl

end Fields

/-! ## Steps -/

theorem mem_close {s : Sockets} {socket : Option Nat} {x : Nat} :
    some x ∈ (s.close socket).closed ↔ some x ∈ s.closed := by
  unfold Sockets.close
  split <;> simp [*]

theorem createTcpSocket_closed (s : Sockets) (wsaSocket : Bool) :
    (s.createTcpSocket wsaSocket).1.closed = s.closed := by
  cases wsaSocket <;> rfl

/-- **No call closes a socket.** -/
theorem act_closed {e e' : Engine} {a : Act} (h : e.act a = some e') (x : Nat) :
    some x ∈ e'.sockets.closed ↔ some x ∈ e.sockets.closed := by
  cases a with
  | init wsaStartup wsaSocket bound =>
    cases h
    unfold init
    split
    · rfl
    · dsimp only
      split
      · rw [mem_close, createTcpSocket_closed]
      · rw [createTcpSocket_closed]
  | createSession i wsaSocket registered =>
    simp only [act] at h
    split at h <;> cases h
    cases wsaSocket <;> cases registered <;> rfl
  | clear i | destroySession i =>
    obtain ⟨_, -, rfl⟩ := Option.map_eq_some_iff.1 h
    rfl
  | createListener i =>
    simp only [act] at h
    split at h <;> cases h
    rfl
  | startAccept i wsaSocket setUp =>
    obtain ⟨_, -, rfl⟩ := Option.map_eq_some_iff.1 h
    cases wsaSocket <;> cases setUp <;> rfl
  | closeAccept i | destroyListener i =>
    obtain ⟨_, -, rfl⟩ := Option.map_eq_some_iff.1 h
    exact mem_close

theorem act_dropped {e e' : Engine} {a : Act} (h : e.act a = some e') :
    e'.dropped = e.dropped ++ e.drops a := by
  cases a with
  | init wsaStartup wsaSocket bound =>
    cases h
    rw [drops, List.append_nil, init]
    split
    · rfl
    · dsimp only
      split <;> rfl
  | createSession i wsaSocket registered =>
    simp only [act] at h
    split at h <;> rename_i hnew <;> cases h
    -- the field is `INVALID_SOCKET` first, which drops nothing
    have hassigned : (e.assign (.session i) none).dropped = e.dropped := by
      rw [dropped_assign_invalid, e.valid_of_none _ hnew, Option.toList_none, List.append_nil]
    cases wsaSocket
    · show ((e.assign (.session i) none).assign (.session i) none).dropped = e.dropped ++ []
      rw [dropped_assign_invalid, valid_assign, hassigned]
      rfl
    cases registered
    · show ((((e.assign (.session i) none).createTcpSocket (.session i) true).assign
        (.session i) none).free (.session i)).dropped = e.dropped ++ [e.sockets.created]
      rw [dropped_free, valid_assign, dropped_assign_invalid, Option.toList_none, List.append_nil,
        dropped_createTcpSocket, valid_createTcpSocket, hassigned]
      rfl
    · show ((e.assign (.session i) none).createTcpSocket (.session i) true).dropped =
        e.dropped ++ []
      rw [dropped_createTcpSocket, hassigned, List.append_nil]
  | clear i | destroySession i =>
    obtain ⟨_, -, rfl⟩ := Option.map_eq_some_iff.1 h
    rfl
  | createListener i =>
    simp only [act] at h
    split at h <;> rename_i hnew <;> cases h
    rw [dropped_assign_invalid, e.valid_of_none _ hnew]
    rfl
  | startAccept i wsaSocket setUp =>
    obtain ⟨_, -, rfl⟩ := Option.map_eq_some_iff.1 h
    cases wsaSocket
    · rfl
    · cases setUp <;> exact (List.append_nil _).symm
  | closeAccept i =>
    obtain ⟨_, -, rfl⟩ := Option.map_eq_some_iff.1 h
    rfl
  | destroyListener i =>
    obtain ⟨_, -, rfl⟩ := Option.map_eq_some_iff.1 h
    rw [dropped_free, valid_close, dropped_close]
    exact List.append_nil _

/-! ## Runs -/

/-- What holds while no socket is dropped. -/
structure KeptInv (e : Engine) : Prop where
  closed : ∀ x, some x ∉ e.sockets.closed
  dropped : e.dropped = []

theorem KeptInv.notLeaked {e : Engine} (h : KeptInv e) : NotLeaked e where
  once x := by
    rw [List.count_eq_zero.2 (h.closed x)]
    exact Nat.zero_le 1
  closed x hx := by
    rw [h.dropped] at hx
    cases hx

/-- A step is a call of an engine that has not crashed. -/
theorem act_of_step {e e' : Engine} {a : Act} (h : machine.step e a = some e') :
    e.act a = some e' := by
  dsimp only at h
  split at h
  · cases h
  · exact h

/-- **`closesocket` never gets a socket**, in any run. -/
theorem closed_invalid {e : Engine} (h : machine.Reachable e) :
    ∀ socket ∈ e.sockets.closed, socket = none := by
  have hnone : ∀ x, some x ∉ e.sockets.closed := by
    refine Machine.ReachableIf.invariant (I := fun e => ∀ x, some x ∉ e.sockets.closed) ?_ ?_ h
    · rintro _ rfl x hx
      cases hx
    · intro e a e' _ hI _ hstep x hx
      exact hI x ((act_closed (act_of_step hstep) x).1 hx)
  intro socket hmem
  cases socket with
  | none => rfl
  | some x => exact absurd hmem (hnone x)

/-- **When no socket is leaked**: every socket is closed once at most throughout a run, and those
that an `mSocket` has lost are closed, if and only if no `mSocket` with a valid socket is
overwritten with `INVALID_SOCKET`, and no owner of one is destroyed. -/
theorem notLeaked_iff {e e' : Engine} {as : List Act} (hinit : machine.init e)
    (hexec : machine.exec e as = some e') :
    machine.Always NotLeaked e as ↔ machine.Allowed Keeps e as := by
  have hstart : KeptInv e := by
    cases hinit
    exact ⟨fun x hx => (nomatch hx), rfl⟩
  refine Machine.always_iff (fun _ hI => hI.notLeaked) (fun e a e' hI hok hstep => ?_)
    (fun e a e' hI hno hstep hleaked => ?_) as hstart hexec
  · have hact := act_of_step hstep
    refine ⟨fun x hx => hI.closed x ((act_closed hact x).1 hx), ?_⟩
    rw [act_dropped hact, hI.dropped, hok]
    rfl
  · have hact := act_of_step hstep
    obtain ⟨x, hx⟩ := List.exists_mem_of_ne_nil _ hno
    refine hI.closed x ((act_closed hact x).1 (hleaked.closed x ?_))
    rw [act_dropped hact]
    exact List.mem_append_right _ hx

/-- A listener that is closed before it has a socket, and a session that keeps its own. -/
theorem notLeaked_iff_kept : ∃ as e', machine.exec new as = some e' ∧
    e'.sockets.closed = [none] ∧ machine.Always NotLeaked new as := by
  let as : List Act := [.init true true true, .createListener 0, .closeAccept 0,
    .startAccept 0 true true, .createSession 0 true true]
  have hexec : machine.exec new as = some _ := rfl
  exact ⟨as, _, hexec, rfl, (notLeaked_iff rfl hexec).2 (by decide)⟩

/-- A session is created, and cleared when it has been disconnected. -/
theorem not_notLeaked : ∃ as e', machine.exec new as = some e' ∧ e'.dropped = [0] ∧
    e'.sockets.closed = [] ∧ ¬ NotLeaked e' := by
  refine ⟨[.createSession 0 true true, .clear 0], _, rfl, rfl, rfl, fun hleaked => ?_⟩
  exact nomatch hleaked.closed 0 List.mem_cons_self

end CppNetEngine.Engine
