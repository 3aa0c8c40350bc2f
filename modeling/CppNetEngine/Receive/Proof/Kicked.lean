import CppNetEngine.Receive.Handling

/-!
# The packets behind a rejected one

`OnReceive` does not look at the session: it calls a handler for every packet that framing finds
(`Loop`), whatever the handlers before it returned and although the session is Disconnected then
(`rejected_disconnects`). So no packet is handled behind a rejected one just where no packet but the
last of those the buffer begins with is rejected (`silent_iff`).
-/

namespace CppNetEngine.GameSession

open PacketSession

/-! ## The loop is framing -/

/-- What the loop makes of a session, given the packets that framing delivers. -/
structure Loop (results : Nat → Bool) (before after : GameSession)
    (packets : List (List (Option UInt8))) : Prop where
  /-- Every packet has its call. -/
  packets_eq : after.handled.map HandlerCall.packet =
    before.handled.map HandlerCall.packet ++ packets
  /-- The calls return one result after the other. -/
  results_eq : ∀ i < packets.length, ∃ call, after.handled[before.handled.length + i]? = some call ∧
    call.result = results (before.handled.length + i)
  /-- What has been called stays. -/
  handled_prefix : before.handled <+: after.handled
  /-- A session that is Disconnected stays so. -/
  stays : before.mSessionState = .disconnected → after.mSessionState = .disconnected
  /-- A handler that returns false has the session Disconnected. -/
  rejected : ∀ i < packets.length, results (before.handled.length + i) = false →
    after.mSessionState = .disconnected

theorem Loop.nil (results : Nat → Bool) (session : GameSession) :
    Loop results session session [] where
  packets_eq := (List.append_nil _).symm
  results_eq := nofun
  handled_prefix := List.prefix_rfl
  stays := id
  rejected := nofun

theorem Loop.length {results : Nat → Bool} {before after : GameSession}
    {packets : List (List (Option UInt8))} (h : Loop results before after packets) :
    after.handled.length = before.handled.length + packets.length := by
  have hlen := congrArg List.length h.packets_eq
  rwa [List.length_append, List.length_map, List.length_map] at hlen

theorem Loop.cons {results : Nat → Bool} {before middle after : GameSession} {call : HandlerCall}
    {packets : List (List (Option UInt8))} (hcalled : middle.handled = before.handled ++ [call])
    (hresult : call.result = results before.handled.length)
    (hstate : middle.mSessionState =
      if results before.handled.length then before.mSessionState else .disconnected)
    (h : Loop results middle after packets) :
    Loop results before after (call.packet :: packets) where
  packets_eq := by
    rw [h.packets_eq, hcalled]
    simp
  results_eq := by
    intro i hi
    cases i with
    | zero =>
      obtain ⟨later, hlater⟩ := h.handled_prefix
      refine ⟨call, ?_, hresult⟩
      rw [← hlater, hcalled]
      simp
    | succ i =>
      have hlen : middle.handled.length + i = before.handled.length + (i + 1) := by
        rw [hcalled, List.length_append, List.length_singleton]
        omega
      rw [← hlen]
      exact h.results_eq i (by simpa using hi)
  handled_prefix := by
    refine List.IsPrefix.trans ?_ h.handled_prefix
    rw [hcalled]
    exact List.prefix_append _ _
  stays := by
    intro hb
    refine h.stays ?_
    rw [hstate, hb]
    exact ite_self _
  rejected := by
    intro i hi hfalse
    cases i with
    | zero =>
      refine h.stays ?_
      rw [hstate]
      exact if_neg (by simpa using hfalse)
    | succ i =>
      have hlen : middle.handled.length + i = before.handled.length + (i + 1) := by
        rw [hcalled, List.length_append, List.length_singleton]
        omega
      rw [← hlen] at hfalse
      exact h.rejected i (by simpa using hi) hfalse

/-- **The loop delivers the packets of framing**, and ends as it does, whatever the handlers
return. -/
theorem onReceiveLoop_loop (results : Nat → Bool) (p : Memory) (len k : Nat)
    (session : GameSession) :
    (onReceiveLoop results p len k session).2 = (PacketSession.onReceiveLoop p len k).2 ∧
      Loop results session (onReceiveLoop results p len k session).1
        (PacketSession.onReceiveLoop p len k).1 := by
  fun_induction PacketSession.onReceiveLoop p len k generalizing session with
  | case1 k dataSize h1 =>
    rw [onReceiveLoop, if_pos h1]
    exact ⟨rfl, .nil results session⟩
  | case2 k dataSize h1 hread =>
    rw [onReceiveLoop, if_neg h1, hread]
    exact ⟨rfl, .nil results session⟩
  | case3 k dataSize h1 header hread h2 =>
    rw [onReceiveLoop, if_neg h1, hread]
    dsimp only
    rw [if_pos h2]
    exact ⟨rfl, .nil results session⟩
  | case4 k dataSize h1 header hread h2 h3 =>
    rw [onReceiveLoop, if_neg h1, hread]
    dsimp only
    rw [if_neg h2, if_pos h3]
    exact ⟨rfl, .nil results session⟩
  | case5 k dataSize h1 header hread h2 h3 rest ih =>
    obtain ⟨session', hrecv, hcalled, hstate⟩ := onRecvPacket_eq hread session
    rw [onReceiveLoop, if_neg h1, hread]
    dsimp only
    rw [if_neg h2, if_neg h3, hrecv]
    obtain ⟨hresult, hloop⟩ := ih session'
    exact ⟨hresult, hloop.cons hcalled rfl hstate⟩

theorem onReceive_loop (results : Nat → Bool) (mSessionState : SessionState) (xs : List UInt8) :
    Loop results ⟨mSessionState, [], []⟩ (onReceive results mSessionState xs).1 (parse xs).1 :=
  (onReceiveLoop_loop results (bytes xs) xs.length 0 _).2

/-- **Where a handler returned false, the session is Disconnected** when the call ends. -/
theorem rejected_disconnects (results : Nat → Bool) (mSessionState : SessionState)
    (xs : List UInt8) {i : Nat} (hi : i < (parse xs).1.length) (h : results i = false) :
    (onReceive results mSessionState xs).1.mSessionState = .disconnected :=
  (onReceive_loop results mSessionState xs).rejected i hi (by simpa using h)

/-! ## Behind a rejected packet -/

/-- No handler is called after one that returned false. -/
def Silent (session : GameSession) : Prop :=
  ∀ earlier call later, session.handled = earlier ++ call :: later → call.result = false →
    later = []

/-- The bytes begin with `n` packets. -/
def BeginsWith (xs : List UInt8) (n : Nat) : Prop :=
  ∃ (packets : List (List UInt8)) (rest : List UInt8), xs = packets.flatten ++ rest ∧
    packets.length = n ∧ ∀ packet ∈ packets, Accepted packet

/-- The bytes begin with as many packets as framing delivers, or fewer. -/
theorem beginsWith_iff (xs : List UInt8) (n : Nat) :
    BeginsWith xs n ↔ n ≤ (parse xs).1.length := by
  constructor
  · rintro ⟨packets, rest, rfl, rfl, hpackets⟩
    rw [parse_packets hpackets, List.length_append, inMemory, List.length_map]
    exact Nat.le_add_right _ _
  · intro h
    obtain ⟨packets, rest, rfl, hpackets, hrest⟩ := exists_packets xs
    have hnone : (parse rest).1 = [] := by
      rcases hrest with hshort | hmalformed
      · rw [parse_short hshort]
      · have hnil := parse_malformed hmalformed []
        rw [List.append_nil] at hnil
        rw [hnil]
    rw [parse_packets hpackets, hnone, List.append_nil, inMemory, List.length_map] at h
    refine ⟨packets.take n, (packets.drop n).flatten ++ rest, ?_, ?_, ?_⟩
    · rw [← List.append_assoc, ← List.flatten_append, List.take_append_drop]
    · exact List.length_take_of_le h
    · exact fun packet hp => hpackets packet (List.mem_of_mem_take hp)

/-- **When a kicked session's packets are no longer handled**: the handlers accept every packet of
the buffer but the last. -/
theorem silent_iff (results : Nat → Bool) (mSessionState : SessionState) (xs : List UInt8) :
    Silent (onReceive results mSessionState xs).1 ↔
      ∀ k, BeginsWith xs (k + 2) → results k = true := by
  have hloop := onReceive_loop results mSessionState xs
  have hlength := hloop.length
  simp only [List.length_nil, Nat.zero_add] at hlength
  have hcall : ∀ i < (parse xs).1.length, ∃ call,
      (onReceive results mSessionState xs).1.handled[i]? = some call ∧
        call.result = results i := by
    intro i hi
    obtain ⟨call, hcall, hresult⟩ := hloop.results_eq i hi
    simp only [List.length_nil, Nat.zero_add] at hcall hresult
    exact ⟨call, hcall, hresult⟩
  constructor
  · intro hsilent k hbegin
    rw [beginsWith_iff] at hbegin
    obtain ⟨call, hget, hresult⟩ := hcall k (by omega)
    by_contra hfalse
    rw [Bool.not_eq_true, ← hresult] at hfalse
    obtain ⟨hk, rfl⟩ := List.getElem?_eq_some_iff.1 hget
    have hlast := hsilent _ _ _ (by rw [List.getElem_cons_drop, List.take_append_drop]) hfalse
    have hlen := congrArg List.length hlast
    rw [List.length_drop, List.length_nil] at hlen
    omega
  · intro haccepted earlier call later hhandled hfalse
    by_contra hlater
    have hpos := List.length_pos_of_ne_nil hlater
    have hlen := congrArg List.length hhandled
    rw [List.length_append, List.length_cons, hlength] at hlen
    obtain ⟨call', hget, hresult⟩ := hcall earlier.length (by omega)
    rw [hhandled] at hget
    obtain rfl : call = call' := by simpa using hget
    have htrue := haccepted earlier.length ((beginsWith_iff _ _).2 (by omega))
    rw [hresult, htrue] at hfalse
    cases hfalse

/-- A `C2S_LOGIN_REQ`, which its handler rejects, and a `C2S_ECHO_REQ` behind it. -/
def loginEcho : List UInt8 := [6, 0, 3, 0, 1, 0, 6, 0, 1, 0, 1, 0]

/-- **The echo request is handled** although the login request had the session kicked. -/
theorem loginEcho_handled :
    (onReceive (fun k => decide (k = 1)) .inGame loginEcho).1 =
      ⟨.disconnected, [⟨.c2sLoginReq, [some 6, some 0, some 3, some 0, some 1, some 0], false⟩,
        ⟨.c2sEchoReq, [some 6, some 0, some 1, some 0, some 1, some 0], true⟩], [.kicked]⟩ := by
  unfold onReceive
  rw [onReceiveLoop, if_neg (by decide)]
  show (onReceiveLoop _ _ 12 6 _).1 = _
  rw [onReceiveLoop, if_neg (by decide)]
  show (onReceiveLoop _ _ 12 12 _).1 = _
  rw [onReceiveLoop, if_pos (by decide)]
  rfl

theorem not_silent_loginEcho :
    ¬ Silent (onReceive (fun k => decide (k = 1)) .inGame loginEcho).1 := by
  rw [loginEcho_handled]
  intro hsilent
  exact List.cons_ne_nil _ _ (hsilent [] _ _ rfl rfl)

end CppNetEngine.GameSession
