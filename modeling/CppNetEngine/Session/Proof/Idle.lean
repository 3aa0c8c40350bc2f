import CppNetEngine.Session.Activity

/-!
# When the reaper kicks

`mLastActivityMs` is the time of the last packet that came more than a second after the one recorded
before, at first that of the session's creation. So it is behind the last packet by a second at most
(`active_le`), and behind the connection by as much as there was between creation and connection:
the reaper kicks idle sessions, within that second (`kicked_idle`). A check whose reading falls
between the two timeouts kicks a session that was not idle for `mTimeoutMs`, and there are no other
such kicks (`kicksIdle_iff`).
-/

namespace CppNetEngine.TrackedSession

open SessionTimeoutTracker

/-! ## What is recorded -/

theorem recorded_concat (created : Int) (packets : List PacketArrival) (packet : PacketArrival) :
    recorded created (packets ++ [packet]) = updateActivity (recorded created packets) packet := by
  rw [recorded, List.foldl_append]
  rfl

theorem le_updateActivity {mLastActivityMs : Int} {packet : PacketArrival}
    (h : packet.now ≤ packet.stored) :
    packet.now ≤ updateActivity mLastActivityMs packet + oneSecondMs := by
  unfold updateActivity oneSecondMs
  split <;> omega

/-- What the tracker keeps, by the packets there were. -/
structure ActivityInv (s : TrackedSession) : Prop where
  recorded : s.mLastActivityMs = recorded s.created s.packets
  last : ∀ packet ∈ s.packets.getLast?, packet.now ≤ s.mLastActivityMs + oneSecondMs

theorem ActivityInv.reapSession {s : TrackedSession} (h : ActivityInv s) (mTimeoutMs now : Int)
    (alive : Bool) : ActivityInv (s.reapSession mTimeoutMs now alive).1 := by
  unfold TrackedSession.reapSession
  split
  · exact h
  split
  · exact ⟨h.recorded, h.last⟩
  · exact ⟨h.recorded, h.last⟩

theorem call_of_step {mTimeoutMs : Int} {s : TrackedSession} {a : Int × Call}
    {r : TrackedSession × List Kick} (h : s.step mTimeoutMs a = some r) :
    s.call mTimeoutMs a.1 a.2 = some r := by
  unfold step at h
  split at h
  · cases h
  · exact h

theorem call_cases {mTimeoutMs now : Int} {s : TrackedSession} {c : Call}
    {r : TrackedSession × List Kick} (h : s.call mTimeoutMs now c = some r) :
    (c = .connect ∧
      r = ({ s with connected := true, connectTime := now, now, reaps := s.reaps + 1 }, [])) ∨
    (∃ stored, c = .packet stored ∧ now ≤ stored ∧
      r = ({ s with
        mLastActivityMs := updateActivity s.mLastActivityMs ⟨now, stored⟩
        now := stored
        packets := s.packets ++ [⟨now, stored⟩] }, [])) ∨
    (c = .disconnect ∧ r = ({ s with connected := false, now }, [])) ∨
    ∃ alive n, c = .reap alive ∧
      r = reapSession mTimeoutMs { s with reaps := n, now } now alive := by
  cases c with
  | connect =>
    simp only [call] at h
    split at h
    · cases h
    · exact .inl ⟨rfl, (Option.some.inj h).symm⟩
  | packet stored =>
    simp only [call] at h
    split at h <;> rename_i hstored
    · cases h
    · exact .inr (.inl ⟨stored, rfl, Int.not_lt.1 hstored, (Option.some.inj h).symm⟩)
  | disconnect => exact .inr (.inr (.inl ⟨rfl, (Option.some.inj h).symm⟩))
  | reap alive =>
    simp only [call] at h
    split at h
    · cases h
    · exact .inr (.inr (.inr ⟨alive, _, rfl, (Option.some.inj h).symm⟩))

theorem ActivityInv.call {mTimeoutMs now : Int} {s : TrackedSession} {c : Call}
    {r : TrackedSession × List Kick} (h : ActivityInv s)
    (hcall : s.call mTimeoutMs now c = some r) : ActivityInv r.1 := by
  obtain ⟨-, rfl⟩ | ⟨stored, -, hstored, rfl⟩ | ⟨-, rfl⟩ | ⟨alive, n, -, rfl⟩ := call_cases hcall
  · exact ⟨h.recorded, h.last⟩
  · refine ⟨?_, fun packet hlast => ?_⟩
    · rw [recorded_concat, ← h.recorded]
    · rw [List.getLast?_concat] at hlast
      cases hlast
      exact le_updateActivity hstored
  · exact ⟨h.recorded, h.last⟩
  · have hbefore : ActivityInv { s with reaps := n, now } := ⟨h.recorded, h.last⟩
    exact hbefore.reapSession mTimeoutMs now alive

section Run

variable {mTimeoutMs : Int} {s s' : TrackedSession}

theorem activityInv (h : (machine mTimeoutMs).Reachable s) : ActivityInv s := by
  refine Machine.ReachableIf.invariant ?_ ?_ h
  · rintro _ ⟨t, rfl⟩
    exact ⟨rfl, nofun⟩
  · intro s a s' _ hI _ hstep
    obtain ⟨r, hr, rfl⟩ := Option.map_eq_some_iff.1 hstep
    exact hI.call (call_of_step hr)

/-- **The lag of the record**: it is behind the last packet by a second at most. -/
theorem active_le (h : (machine mTimeoutMs).Reachable s) :
    s.active ≤ max s.connectTime (s.mLastActivityMs + oneSecondMs) := by
  have hI := activityInv h
  unfold active
  split
  · exact Int.le_max_left _ _
  · rename_i packet hlast
    have hpacket := hI.last packet hlast
    omega

theorem reapSession_kicks (now : Int) :
    (s.reapSession mTimeoutMs now true).2 =
      if s.mLastActivityMs + mTimeoutMs < now ∧ s.connected = true then [⟨now, s⟩] else [] := by
  have hexpired : isExpired mTimeoutMs now s.mLastActivityMs = true ↔
      s.mLastActivityMs + mTimeoutMs < now := by
    unfold isExpired
    rw [decide_eq_true_iff]
    omega
  unfold reapSession
  by_cases h : s.mLastActivityMs + mTimeoutMs < now
  · simp [hexpired.2 h, h]
  · simp [hexpired, h]

/-- **What is seen of a call**: only a check kicks, and only a connected session that is expired by
what is recorded. -/
theorem see_cases {a : Int × Call} (hstep : (machine mTimeoutMs).step s a = some s') :
    (see mTimeoutMs s a = [] ∧ ∀ now, a = (now, .reap true) → s.connected = true →
      now ≤ s.mLastActivityMs + mTimeoutMs) ∨
    ∃ now n, a = (now, .reap true) ∧ s.connected = true ∧ s.mLastActivityMs + mTimeoutMs < now ∧
      see mTimeoutMs s a = [⟨now, { s with reaps := n, now }⟩] := by
  obtain ⟨now, c⟩ := a
  obtain ⟨r, hstep, -⟩ := Option.map_eq_some_iff.1 hstep
  have hsee : see mTimeoutMs s (now, c) = r.2 := by
    simp only [see, hstep]
  rw [hsee]
  obtain ⟨rfl, rfl⟩ | ⟨stored, rfl, -, rfl⟩ | ⟨rfl, rfl⟩ | ⟨alive, n, rfl, rfl⟩ :=
    call_cases (call_of_step hstep)
  · exact .inl ⟨rfl, nofun⟩
  · exact .inl ⟨rfl, nofun⟩
  · exact .inl ⟨rfl, nofun⟩
  · cases alive with
    | false => exact .inl ⟨rfl, nofun⟩
    | true =>
      rw [reapSession_kicks]
      split <;> rename_i hkicks
      · exact .inr ⟨now, n, rfl, hkicks.2, hkicks.1, rfl⟩
      · refine .inl ⟨rfl, fun t ht hconnected => ?_⟩
        cases ht
        exact Int.not_lt.1 fun hexpired => hkicks ⟨hexpired, hconnected⟩

/-! ## Within the second of the tracker -/

/-- The session was idle for `mTimeoutMs`, but for the second by which the tracker may be behind its
last packet. -/
def Kick.Idle (mTimeoutMs : Int) (kick : Kick) : Prop :=
  match kick.session.packets.getLast? with
  | none => mTimeoutMs < kick.now - kick.session.created
  | some packet => mTimeoutMs - oneSecondMs < kick.now - packet.now

instance (mTimeoutMs : Int) (kick : Kick) : Decidable (kick.Idle mTimeoutMs) := by
  unfold Kick.Idle
  split <;> infer_instance

theorem see_idle {a : Int × Call} (hr : (machine mTimeoutMs).Reachable s)
    (hstep : (machine mTimeoutMs).step s a = some s') :
    ∀ kick ∈ see mTimeoutMs s a, kick.Idle mTimeoutMs := by
  have hI := activityInv hr
  obtain ⟨hsee, -⟩ | ⟨now, n, -, -, hexpired, hsee⟩ := see_cases hstep
  · rw [hsee]
    exact nofun
  rw [hsee, List.forall_mem_singleton]
  unfold Kick.Idle
  split <;> rename_i hlast
  · -- what is recorded is the creation
    have hnone : s.packets = [] := List.getLast?_eq_none_iff.1 hlast
    have hrecorded := hI.recorded
    rw [hnone] at hrecorded
    have hcreated : s.mLastActivityMs = s.created := hrecorded
    dsimp only
    omega
  · rename_i packet
    have hpacket := hI.last packet hlast
    dsimp only
    omega

/-- **The reaper kicks idle sessions**: every session that a run kicks has had its last packet more
than `mTimeoutMs` less a second before, or was made more than `mTimeoutMs` before and has had
none. -/
theorem kicked_idle {as : List (Int × Call)} (hinit : (machine mTimeoutMs).init s)
    (hexec : (machine mTimeoutMs).exec s as = some s') :
    ∀ kick ∈ (machine mTimeoutMs).watch (see mTimeoutMs) s as, kick.Idle mTimeoutMs := by
  have hiff := Machine.watch_forall_iff
    (fun s a s' hr hstep => iff_of_true (see_idle hr hstep) trivial)
    as (.init hinit) hexec
  exact hiff.2 (Machine.allowed_of (fun _ _ => trivial) as s)

/-- A client that sends a packet every two seconds, and is kicked a minute after the last. -/
theorem kicked_idle_quiet : ∃ as s' kick, (machine 60000).exec (new 0) as = some s' ∧
    (machine 60000).watch (see 60000) (new 0) as = [kick] ∧ kick.now = 64001 ∧
      kick.session.active = 4000 ∧ kick.Idle 60000 := by
  let as : List (Int × Call) :=
    [(0, .connect), (2000, .packet 2000), (4000, .packet 4000), (60016, .reap true),
      (64001, .reap true)]
  have hexec : (machine 60000).exec (new 0) as = some _ := rfl
  exact ⟨as, _, _, hexec, rfl, rfl, rfl, kicked_idle ⟨0, rfl⟩ hexec _ List.mem_cons_self⟩

/-! ## Within `mTimeoutMs` of the activity -/

/-- A check of a connected session that finds what is recorded for the packets older than
`mTimeoutMs` is not made within `mTimeoutMs` of the last of them, or of the connection. -/
def OutsideLag (mTimeoutMs : Int) (s : TrackedSession) : Int × Call → Prop
  | (now, .reap true) => s.connected = true →
      ¬ (recorded s.created s.packets + mTimeoutMs < now ∧ now ≤ s.active + mTimeoutMs)
  | _ => True

instance (mTimeoutMs : Int) (s : TrackedSession) : ∀ a, Decidable (OutsideLag mTimeoutMs s a)
  | (_, .reap true) => inferInstanceAs (Decidable (_ → _))
  | (_, .reap false) | (_, .connect) | (_, .packet _) | (_, .disconnect) => .isTrue trivial

/-- A step kicks no session that was active for `mTimeoutMs` if and only if it is outside of the
lag. -/
theorem see_iff {a : Int × Call} (hr : (machine mTimeoutMs).Reachable s)
    (hstep : (machine mTimeoutMs).step s a = some s') :
    (∀ kick ∈ see mTimeoutMs s a, mTimeoutMs < kick.now - kick.session.active) ↔
      OutsideLag mTimeoutMs s a := by
  have hrecorded := (activityInv hr).recorded
  obtain ⟨hsee, hkept⟩ | ⟨now, n, rfl, hconnected, hexpired, hsee⟩ := see_cases hstep
  · rw [hsee]
    refine iff_of_true nofun ?_
    unfold OutsideLag
    split
    · rename_i now
      intro hconnected hlag
      have hnow := hkept now rfl hconnected
      omega
    · trivial
  · have hactive : ({ s with reaps := n, now } : TrackedSession).active = s.active := rfl
    rw [hsee, List.forall_mem_singleton, OutsideLag, ← hrecorded]
    dsimp only
    rw [hactive]
    constructor
    · intro hidle _ hlag
      omega
    · intro hout
      have hnot := hout hconnected
      omega

/-- **When only idle sessions are kicked**: a run kicks no session within `mTimeoutMs` of its
connection or of its last packet if and only if all checks are outside of the lag. -/
theorem kicksIdle_iff {as : List (Int × Call)} (hinit : (machine mTimeoutMs).init s)
    (hexec : (machine mTimeoutMs).exec s as = some s') :
    (∀ kick ∈ (machine mTimeoutMs).watch (see mTimeoutMs) s as,
      mTimeoutMs < kick.now - kick.session.active) ↔
      (machine mTimeoutMs).Allowed (OutsideLag mTimeoutMs) s as :=
  Machine.watch_forall_iff (fun _ _ _ hr hstep => see_iff hr hstep) as (.init hinit) hexec

end Run

/-- A client that sends a packet one second after it connects is kicked 59016 milliseconds after the
packet. A client that connects to a session that was made long before is kicked by the first check,
ten seconds after the connection. -/
theorem not_kicksIdle :
    (∃ as s', (machine 60000).exec (new 0) as = some s' ∧
      ¬ ∀ kick ∈ (machine 60000).watch (see 60000) (new 0) as,
        60000 < kick.now - kick.session.active) ∧
    ∃ as s', (machine 60000).exec (new 0) as = some s' ∧
      ¬ ∀ kick ∈ (machine 60000).watch (see 60000) (new 0) as,
        60000 < kick.now - kick.session.active := by
  constructor
  · refine ⟨[(0, .connect), (1000, .packet 1000), (60016, .reap true)], _, rfl, fun hidle => ?_⟩
    exact absurd (hidle _ List.mem_cons_self) (by decide)
  · refine ⟨[(100000, .connect), (110000, .reap true)], _, rfl, fun hidle => ?_⟩
    exact absurd (hidle _ List.mem_cons_self) (by decide)

end CppNetEngine.TrackedSession
