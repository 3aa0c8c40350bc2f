import CppNetEngine.Lib.Observed

/-!
# The activity of a session, and its reaper

`SessionTimeoutTracker` of a `PacketSession` and the jobs of `SessionReaper`. Clock readings are
those of the steady clock in milliseconds. A run is a machine of calls, each at a reading that is
not smaller than the last one, and what is seen of it are the sessions that `ReapSession` kicks.
The times at which the session was made, connected and given its packets are kept beside what the
code keeps.
-/

namespace CppNetEngine

/-- A call of `OnActivityUpdate` for a packet: the reading of `UpdateActivity` that it tests, and
the one that it stores. -/
structure PacketArrival where
  now : Int
  stored : Int
  deriving DecidableEq

namespace SessionTimeoutTracker

def oneSecondMs : Int := 1000

/-- `UpdateActivity`, on `mLastActivityMs`. -/
def updateActivity (mLastActivityMs : Int) (packet : PacketArrival) : Int :=
  if packet.now - mLastActivityMs > oneSecondMs then packet.stored else mLastActivityMs

/-- `mLastActivityMs` of a tracker made at `created`, after packets. -/
def recorded (created : Int) (packets : List PacketArrival) : Int :=
  packets.foldl updateActivity created

end SessionTimeoutTracker

/-- A session with its tracker and the jobs that the reaper has for it. -/
structure TrackedSession where
  mLastActivityMs : Int
  /-- `mSessionState` is not `Disconnected`. -/
  connected : Bool
  /-- The `ReapSession` jobs that are posted. -/
  reaps : Nat
  /-- The last reading of the clock. -/
  now : Int
  created : Int
  connectTime : Int
  packets : List PacketArrival

namespace TrackedSession

open SessionTimeoutTracker

inductive Call
  /-- `processConnect`, in which `AddSession` returns true. -/
  | connect
  /-- `OnActivityUpdate`, which reads the clock again at `stored` if it stores a reading. -/
  | packet (stored : Int)
  | disconnect
  /-- `ReapSession`, which finds the session if it is not destroyed. -/
  | reap (alive : Bool)

/-- The reaper disconnects the session at the reading `now`. -/
structure Kick where
  now : Int
  session : TrackedSession

def new (t : Int) : TrackedSession :=
  { mLastActivityMs := t
    connected := false
    reaps := 0
    now := t
    created := t
    connectTime := t
    packets := [] }

/-- The later of the connect time and the time of the last packet. -/
def active (s : TrackedSession) : Int :=
  match s.packets.getLast? with
  | none => s.connectTime
  | some packet => max s.connectTime packet.now

/-- `SessionReaper::isExpired`. -/
def isExpired (mTimeoutMs now lastActivityMs : Int) : Bool := now - lastActivityMs > mTimeoutMs

/-- `SessionReaper::ReapSession`. -/
def reapSession (mTimeoutMs : Int) (s : TrackedSession) (now : Int) (alive : Bool) :
    TrackedSession × List Kick :=
  if !alive then (s, [])
  else if isExpired mTimeoutMs now s.mLastActivityMs then
    -- `Disconnect` does nothing if the state is `Disconnected`
    ({ s with connected := false }, if s.connected then [⟨now, s⟩] else [])
  else ({ s with reaps := s.reaps + 1 }, [])

/-- A call at the reading `now`. -/
def call (mTimeoutMs : Int) (s : TrackedSession) (now : Int) :
    Call → Option (TrackedSession × List Kick)
  | .connect =>
    if s.connected then none
    else some ({ s with connected := true, connectTime := now, now, reaps := s.reaps + 1 }, [])
  | .packet stored =>
    if stored < now then none
    else
      let packet := ⟨now, stored⟩
      some ({ s with
        mLastActivityMs := updateActivity s.mLastActivityMs packet
        now := stored
        packets := s.packets ++ [packet] }, [])
  | .disconnect => some ({ s with connected := false, now }, [])
  | .reap alive =>
    match s.reaps with
    | 0 => none
    | n + 1 => some (reapSession mTimeoutMs { s with reaps := n, now } now alive)

/-- Calls are made at readings that do not become smaller. -/
def step (mTimeoutMs : Int) (s : TrackedSession) (a : Int × Call) :
    Option (TrackedSession × List Kick) :=
  if a.1 < s.now then none else s.call mTimeoutMs a.1 a.2

/-- Calls for one session of a reaper. -/
abbrev machine (mTimeoutMs : Int) : Machine TrackedSession (Int × Call) where
  init s := ∃ t, s = new t
  step s a := (s.step mTimeoutMs a).map (·.1)

/-- Whom a call kicks. -/
def see (mTimeoutMs : Int) (s : TrackedSession) (a : Int × Call) : List Kick :=
  match s.step mTimeoutMs a with
  | none => []
  | some r => r.2

end TrackedSession

end CppNetEngine
