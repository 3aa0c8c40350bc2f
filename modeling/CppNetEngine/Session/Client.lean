import CppNetEngine.Session.Membership

/-!
# A session of a client service

The session of `Member.machine` in a `ClientService`, which has no wait queue and no reaper, with
what `GetQueuedCompletionStatus` returned for the completions of the session's events.
`IocpCore::Dispatch` tells `mpOnHandleError` of a failure, and dispatches the event all the same.
-/

namespace CppNetEngine.Session

variable {ι : Type} [DecidableEq ι]

/-- A session of a client service. -/
structure Client (ι : Type) where
  member : Member ι
  /-- A `ConnectEx` of the session completed successfully. -/
  established : Bool
  /-- The calls of `mpOnHandleError`. -/
  handledErrors : Nat

namespace Client

/-- A call, and what `GetQueuedCompletionStatus` returned, if it is one of `IocpCore::Dispatch`. -/
structure Call where
  call : Session.Call
  gqcsRet : Bool

/-- `IocpCore::Dispatch`, before it dispatches the event. -/
def handleError (c : Call) (s : Client ι) : Client ι :=
  match c.call with
  | .dispatch component _ =>
    { s with
      established := s.established || (c.gqcsRet && component = .connector)
      handledErrors := if c.gqcsRet then s.handledErrors else s.handledErrors + 1 }
  | _ => s

def enter (c : Call) (s : Client ι) (fs : List Stmt) : Option (Client ι × Stmt) :=
  (s.member.enter c.call fs).map fun r => ({ handleError c s with member := r.1 }, r.2)

/-- `mpWaitQueueManager` is null: no session enters a wait queue, and none leaves one. -/
def noWaitQueue (k : Outside) : Stmt → Bool
  | .addSession _ => match k.admission with
    | .entered _ => false
    | _ => true
  | .admitOther => !k.granted
  | _ => true

def step (me : ι) (k : Outside) (s : Client ι) (f : Stmt) : Option (Client ι × List Stmt) :=
  if noWaitQueue k f then
    (s.member.step me k f).map fun r => ({ s with member := r.1 }, r.2)
  else none

def othersChange (me : ι) (m : SessionManager ι) (s : Client ι) : Option (Client ι) :=
  (s.member.othersChange me m).map fun member => { s with member }

/-- `CreateSession` of the client service has just returned the session. -/
def Created (me : ι) (s : Client ι) : Prop :=
  Member.Created me s.member ∧ s.member.session.isClient = true ∧ s.established = false ∧
    s.handledErrors = 0

abbrev State (ι τ : Type) := Threads τ (List Stmt) (Client ι)

/-- Threads that use a session of a client service, while other sessions come and go. -/
abbrev machine (me : ι) (τ : Type) [DecidableEq τ] :
    Machine (State ι τ) (ThreadAction τ (StackAction Call Outside) (SessionManager ι)) :=
  Threads.machine (Stacks.act enter fun _ k s f => step me k s f) (othersChange me)
    fun p => Created me p.shared ∧ ∀ t, p.locals t = []

end Client

end CppNetEngine.Session
