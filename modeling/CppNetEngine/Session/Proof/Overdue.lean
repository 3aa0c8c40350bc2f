import CppNetEngine.Session.Proof.Idle

/-!
# How long a session stays connected that is idle

A `ReapSession` job is posted with a delay of `mTimeoutMs`, when the session connects and whenever a
check finds it not expired. `Scheduled` is a tracked session with the times at which its jobs were
posted. There is always a check to come for a connected session, posted not later than `mTimeoutMs`
after the session was last heard of (`Inv.watched`). So if the scheduler runs each job within
`slack` of the end of its delay, no session stays connected that has been idle for more than twice
`mTimeoutMs` and the slack (`connected_bounded`).
-/

namespace CppNetEngine.TrackedSession

open SessionTimeoutTracker

/-- A session, and when the `ReapSession` jobs were posted that did not run yet. -/
structure Scheduled where
  session : TrackedSession
  posted : List Int

namespace Scheduled

variable {mTimeoutMs now : Int} {s s' : Scheduled}

/-- The jobs that a call posts: `registerReap` of `processConnect` and of `ReapSession`. -/
def posts (mTimeoutMs now : Int) (s : TrackedSession) : Call → List Int
  | .connect => [now]
  | .reap true => if isExpired mTimeoutMs now s.mLastActivityMs then [] else [now]
  | .reap false | .packet _ | .disconnect => []

/-- A call at the reading `now`; a `ReapSession` is the `k`-th of the jobs. -/
structure Step where
  now : Int
  call : Call
  k : Nat

/-- A `ReapSession` is a job that is posted. -/
def Step.IsPosted (a : Step) (posted : List Int) : Prop :=
  match a.call with
  | .reap _ => a.k < posted.length
  | .connect | .packet _ | .disconnect => True

instance (a : Step) (posted : List Int) : Decidable (a.IsPosted posted) := by
  unfold Step.IsPosted
  split <;> infer_instance

/-- The jobs that are left when the call begins. -/
def rest (posted : List Int) (k : Nat) : Call → List Int
  | .reap _ => posted.eraseIdx k
  | .connect | .packet _ | .disconnect => posted

def step (mTimeoutMs : Int) (s : Scheduled) (a : Step) : Option Scheduled :=
  if a.IsPosted s.posted then
    (s.session.step mTimeoutMs (a.now, a.call)).map fun r =>
      ⟨r.1, rest s.posted a.k a.call ++ posts mTimeoutMs a.now s.session a.call⟩
  else none

/-- Calls for one session of a reaper, whose jobs have a delay. -/
abbrev machine (mTimeoutMs : Int) : Machine Scheduled Step where
  init s := ∃ t, s = ⟨new t, []⟩
  step := step mTimeoutMs

/-- The last reading of the clock in a call. -/
def Step.reading (a : Step) : Int :=
  match a.call with
  | .packet stored => stored
  | .connect | .disconnect | .reap _ => a.now

/-- A connected session is not destroyed: the `SessionManager` has it. -/
def Found (s : Scheduled) (a : Step) : Prop :=
  a.call = .reap false → s.session.connected = false

/-- When the call is made, no job is left that should have run `slack` before. -/
def InTime (mTimeoutMs slack : Int) (s : Scheduled) (a : Step) : Prop :=
  ∀ t ∈ s.posted, a.reading ≤ t + mTimeoutMs + slack

/-- The later of the connect time and of the last reading that `OnActivityUpdate` made. -/
def heard (s : TrackedSession) : Int :=
  match s.packets.getLast? with
  | none => s.connectTime
  | some packet => max s.connectTime packet.stored

/-! ## What is kept -/

structure Inv (mTimeoutMs : Int) (s : Scheduled) : Prop where
  length : s.posted.length = s.session.reaps
  recorded : s.session.mLastActivityMs ≤ heard s.session
  heard : heard s.session ≤ s.session.now
  /-- There is a check to come that was posted not long after the session was heard of. -/
  watched : s.session.connected = true → ∃ t ∈ s.posted, t ≤ Scheduled.heard s.session + mTimeoutMs

theorem step_cases {a : Step} (h : step mTimeoutMs s a = some s') :
    ∃ r, s.session.step mTimeoutMs (a.now, a.call) = some r ∧ a.IsPosted s.posted ∧
      s' = ⟨r.1, rest s.posted a.k a.call ++ posts mTimeoutMs a.now s.session a.call⟩ := by
  unfold step at h
  split at h <;> rename_i hposted
  · obtain ⟨r, hr, heq⟩ := Option.map_eq_some_iff.1 h
    exact ⟨r, hr, hposted, heq.symm⟩
  · cases h

theorem le_of_step {s : TrackedSession} {a : Int × Call} {r : TrackedSession × List Kick}
    (h : s.step mTimeoutMs a = some r) : s.now ≤ a.1 := by
  unfold TrackedSession.step at h
  split at h <;> rename_i hlt
  · cases h
  · exact Int.not_lt.1 hlt

theorem updateActivity_le {mLastActivityMs stored : Int} (hlast : mLastActivityMs ≤ now)
    (hstored : now ≤ stored) : updateActivity mLastActivityMs ⟨now, stored⟩ ≤ stored := by
  unfold updateActivity
  split
  · exact Int.le_refl _
  · exact Int.le_trans hlast hstored

theorem heard_packet {session : TrackedSession} {packet : PacketArrival} :
    heard { session with packets := session.packets ++ [packet] } =
      max session.connectTime packet.stored := by
  simp only [heard, List.getLast?_concat]

theorem connectTime_le_heard {session : TrackedSession} : session.connectTime ≤ heard session := by
  unfold heard
  split <;> omega

theorem heard_connect {session : TrackedSession} (h : heard session ≤ now) :
    heard { session with connectTime := now } = now := by
  unfold heard at h ⊢
  split at h <;> rename_i hlast <;> simp only [hlast]
  omega

theorem reap_cases {session : TrackedSession} {r : TrackedSession × List Kick} {alive : Bool}
    (h : session.call mTimeoutMs now (.reap alive) = some r) :
    ∃ n, session.reaps = n + 1 ∧
      ((alive = false ∧ r.1 = { session with reaps := n, now }) ∨
        (alive = true ∧ mTimeoutMs < now - session.mLastActivityMs ∧
          r.1 = { session with reaps := n, now, connected := false }) ∨
        (alive = true ∧ now - session.mLastActivityMs ≤ mTimeoutMs ∧
          r.1 = { session with now })) := by
  simp only [call] at h
  cases hreaps : session.reaps with
  | zero =>
    rw [hreaps] at h
    cases h
  | succ n =>
    rw [hreaps] at h
    refine ⟨n, rfl, ?_⟩
    cases h
    cases alive with
    | false => exact .inl ⟨rfl, rfl⟩
    | true =>
      by_cases hexpired : mTimeoutMs < now - session.mLastActivityMs
      · exact .inr (.inl ⟨rfl, hexpired, by simp [reapSession, isExpired, hexpired]⟩)
      · refine .inr (.inr ⟨rfl, Int.not_lt.1 hexpired, ?_⟩)
        simp [reapSession, isExpired, hexpired, ← hreaps]

theorem Inv.step {a : Step} (htimeout : 0 ≤ mTimeoutMs) (h : Inv mTimeoutMs s) (hok : Found s a)
    (hs : Scheduled.step mTimeoutMs s a = some s') : Inv mTimeoutMs s' := by
  obtain ⟨session, posted⟩ := s
  obtain ⟨hlength, hrecorded, hheard, hwatched⟩ := h
  obtain ⟨r, hr, hposted, rfl⟩ := step_cases hs
  have hnow := le_of_step hr
  have hcall := call_of_step hr
  obtain ⟨now, c, k⟩ := a
  dsimp only at *
  have hheardNow := Int.le_trans hheard hnow
  cases c with
  | connect =>
    simp only [call] at hcall
    split at hcall <;> cases hcall
    have hconnect : Scheduled.heard { session with connectTime := now } = now :=
      heard_connect hheardNow
    refine ⟨?_, ?_, Int.le_of_eq hconnect, fun _ => ⟨now, ?_, ?_⟩⟩
    · simp only [rest, posts, List.length_append, hlength]
      rfl
    · exact Int.le_trans (Int.le_trans hrecorded hheardNow) (Int.le_of_eq hconnect.symm)
    · exact List.mem_append_right _ List.mem_cons_self
    · exact Int.le_trans (Int.le_of_eq hconnect.symm) (Int.le_add_of_nonneg_right htimeout)
  | packet stored =>
    simp only [call] at hcall
    split at hcall <;> rename_i hstored <;> cases hcall
    have hle := Int.not_lt.1 hstored
    have hpacket : Scheduled.heard { session with packets := session.packets ++ [⟨now, stored⟩] } =
        max session.connectTime stored := heard_packet
    have hconnect : session.connectTime ≤ Scheduled.heard session := connectTime_le_heard
    have hrecord := updateActivity_le (Int.le_trans hrecorded hheardNow) hle
    refine ⟨?_, ?_, ?_, fun hconnected => ?_⟩
    · simp only [rest, posts, List.append_nil, hlength]
    · refine Int.le_trans ?_ (Int.le_of_eq hpacket.symm)
      exact Int.le_trans hrecord (Int.le_max_right _ _)
    · refine Int.le_trans (Int.le_of_eq hpacket) (Int.max_le.2 ⟨?_, Int.le_refl stored⟩)
      exact Int.le_trans hconnect (Int.le_trans hheardNow hle)
    · obtain ⟨t, ht, htheard⟩ := hwatched hconnected
      refine ⟨t, List.mem_append_left _ ht, ?_⟩
      refine Int.le_trans htheard (Int.add_le_add_right ?_ _)
      refine Int.le_trans ?_ (Int.le_of_eq hpacket.symm)
      omega
  | disconnect =>
    cases hcall
    refine ⟨?_, hrecorded, hheardNow, fun hconnected => absurd hconnected Bool.false_ne_true⟩
    simp only [rest, posts, List.append_nil, hlength]
  | reap alive =>
    obtain ⟨n, hreaps, hreap⟩ := reap_cases hcall
    have hrest : (posted.eraseIdx k).length = n := by
      rw [List.length_eraseIdx_of_lt hposted]
      omega
    obtain ⟨rfl, hafter⟩ | ⟨rfl, hexpired, hafter⟩ | ⟨rfl, hactive, hafter⟩ := hreap <;>
      rw [hafter]
    · refine ⟨?_, hrecorded, hheardNow, fun hconnected => ?_⟩
      · simp only [rest, posts, List.append_nil, hrest]
      · exact absurd (hconnected.symm.trans (hok rfl)) Bool.noConfusion
    · refine ⟨?_, hrecorded, hheardNow, fun hconnected => absurd hconnected Bool.false_ne_true⟩
      simp only [rest, posts, isExpired, hexpired, decide_true, if_true, List.append_nil, hrest]
    · have hposts : posts mTimeoutMs now session (.reap true) = [now] := by
        simp [posts, isExpired, Int.not_lt.2 hactive]
      refine ⟨?_, hrecorded, hheardNow, fun _ => ⟨now, ?_, ?_⟩⟩
      · rw [hposts, List.length_append, rest, hrest]
        exact hreaps.symm
      · rw [hposts]
        exact List.mem_append_right _ List.mem_cons_self
      · have hsame : Scheduled.heard { session with now } = Scheduled.heard session := rfl
        dsimp only
        omega

/-- **No session stays connected that is idle.** There is a check to come for every connected
session, posted at most `mTimeoutMs` after it was last heard of; and as long as the checks come in
time no call finds it idle for more than twice `mTimeoutMs`. -/
theorem connected_bounded (htimeout : 0 ≤ mTimeoutMs) (h : (machine mTimeoutMs).ReachableIf Found s)
    (hconnected : s.session.connected = true) :
    0 < s.session.reaps ∧ (∃ t ∈ s.posted, t ≤ heard s.session + mTimeoutMs) ∧
      ∀ slack a, InTime mTimeoutMs slack s a →
        a.reading - heard s.session ≤ 2 * mTimeoutMs + slack := by
  have hI : Inv mTimeoutMs s := by
    refine Machine.ReachableIf.invariant ?_ ?_ h
    · rintro _ ⟨t, rfl⟩
      exact ⟨rfl, Int.le_refl _, Int.le_refl _, nofun⟩
    · intro s a s' _ hI hok hs
      exact hI.step htimeout hok hs
  obtain ⟨t, ht, hheard⟩ := hI.watched hconnected
  refine ⟨?_, ⟨t, ht, hheard⟩, fun slack a hintime => ?_⟩
  · rw [← hI.length]
    exact List.length_pos_of_mem ht
  · have hreading := hintime t ht
    omega

/-- A client is silent from its packet at 1001 on. The check at 10000 finds it active, and the next
one is due at 20000. -/
theorem connected_bounded_silent : ∃ s : Scheduled, s.session.connected = true ∧
    heard s.session = 1001 ∧ s.posted = [10000] ∧
    (∃ t ∈ s.posted, t ≤ heard s.session + 10000) ∧
    20000 - heard s.session ≤ 2 * 10000 + 0 := by
  let start : Scheduled := ⟨new 0, []⟩
  let as : List Step := [⟨0, .connect, 0⟩, ⟨1001, .packet 1001, 0⟩, ⟨10000, .reap true, 0⟩]
  have hok : (machine 10000).Allowed Found start as := ⟨nofun, nofun, nofun, trivial⟩
  have hreach : (machine 10000).ReachableIf Found _ := .exec as (.init ⟨0, rfl⟩) hok rfl
  obtain ⟨-, hposted, hlate⟩ := connected_bounded (by decide) hreach rfl
  refine ⟨_, rfl, rfl, rfl, hposted, hlate 0 ⟨20000, .reap true, 0⟩ ?_⟩
  exact List.forall_mem_singleton.2 (by decide)

end Scheduled

end CppNetEngine.TrackedSession
