import CppNetEngine.Lib.Machine
import CppNetEngine.Session.State

/-!
# Accepting connections

A `Listener` and its `Acceptor`s. `Register` creates a session and issues an `AcceptEx` for it;
`Process` takes the session of a completed one over, and issues the next. The answers of the calls
they make are in `RegisterAnswers` and `ProcessAnswers`. A null pointer that is followed has no
result. Sessions are numbered in the order in which they are created.
-/

namespace CppNetEngine

/-- `eIocpEventType`. -/
inductive IocpEventType
  | accept
  | connect
  | disconnect
  | send
  | receive
  deriving DecidableEq

structure Acceptor where
  /-- `mpOwner` is not null. -/
  mpOwner : Bool
  /-- `mpService` is not null. -/
  mpService : Bool
  /-- The owner of `mAcceptEvent` is not null. -/
  mEventOwner : Bool
  /-- The session of `mAcceptEvent`. -/
  mpClientSession : Option Nat
  /-- The sessions of the `AcceptEx` issued with `mAcceptEvent` and not yet dequeued. -/
  outstanding : List Nat
  deriving DecidableEq

structure Listener where
  mAcceptCount : Nat
  mAcceptors : List Acceptor
  /-- The number of sessions created. -/
  created : Nat
  /-- The sessions of the `AcceptEx` that have been dequeued. -/
  accepted : List Nat
  /-- The sessions that `processConnect` was called for, with the answer of `AddSession`. -/
  connected : List (Nat × Bool)
  /-- The arguments of `mpErrorHandle`. -/
  errors : List Nat
  deriving DecidableEq

/-- What the calls in `Register` answer. -/
structure RegisterAnswers where
  createSession : Bool
  acceptEx : WsaResult

/-- `CreateSession` and `AcceptEx` succeed. -/
def RegisterAnswers.Succeeds (k : RegisterAnswers) : Prop :=
  k.createSession = true ∧ k.acceptEx.Accepted

/-- What the calls in `Process` answer. -/
structure ProcessAnswers where
  setUpdateAcceptSocket : Bool
  getpeername : Bool
  addSession : Bool
  register : RegisterAnswers

namespace Acceptor

/-- A new acceptor, after `SetOwner` and `SetService`. -/
def new : Acceptor :=
  { mpOwner := true
    mpService := true
    mEventOwner := true
    mpClientSession := none
    outstanding := [] }

def clear (a : Acceptor) : Acceptor :=
  { a with mpOwner := false, mpService := false, mEventOwner := false }

end Acceptor

namespace Listener

def set (l : Listener) (i : Nat) (a : Acceptor) : Listener :=
  { l with mAcceptors := l.mAcceptors.set i a }

/-- `Acceptor::Register` of the acceptor `i`. -/
def register (l : Listener) (i : Nat) (k : RegisterAnswers) : Option Listener :=
  l.mAcceptors[i]?.bind fun a =>
    if a.mpService = false then none
    else if k.createSession = false then some (l.set i a.clear)
    else
      let pSession := l.created
      let l := { l with created := l.created + 1 }
      let a := { a with mpClientSession := some pSession }
      if a.mpOwner = false then none
      else
        match k.acceptEx with
        | .error errorCode => some { l.set i a.clear with errors := l.errors ++ [errorCode] }
        | _ => some (l.set i { a with outstanding := a.outstanding ++ [pSession] })

/-- `Acceptor::Process` of the acceptor `i`. -/
def process (l : Listener) (i : Nat) (k : ProcessAnswers) : Option Listener :=
  l.mAcceptors[i]?.bind fun a =>
    a.mpClientSession.bind fun pSession =>
      let a := { a with mpClientSession := none }
      if a.mpOwner = false then none
      else if k.setUpdateAcceptSocket = false then some (l.set i a.clear)
      else if k.getpeername = false then some (l.set i a.clear)
      else
        register { l.set i a with connected := l.connected ++ [(pSession, k.addSession)] } i
          k.register

/-- `Listener::Dispatch`. -/
def dispatch (l : Listener) (eventType : IocpEventType) (acceptorIndex : Nat)
    (k : ProcessAnswers) : Option Listener :=
  if eventType ≠ .accept then some l else l.process acceptorIndex k

/-- The loop of `StartAccept`, for `n` more acceptors. -/
def startAccept (k : Nat → RegisterAnswers) : Nat → Listener → Option Listener
  | 0, l => some l
  | n + 1, l =>
    (register { l with mAcceptors := l.mAcceptors ++ [.new] } l.mAcceptors.length
      (k l.mAcceptors.length)).bind (startAccept k n)

def new (acceptCount : Nat) : Listener :=
  { mAcceptCount := acceptCount
    mAcceptors := []
    created := 0
    accepted := []
    connected := []
    errors := [] }

/-- An accept completion that `IocpCore::Dispatch` dequeues. -/
structure Completion where
  acceptorIndex : Nat
  answers : ProcessAnswers

/-- `IocpCore::Dispatch`. An acceptor without an `AcceptEx` outstanding has no completion. -/
def step (l : Listener) (c : Completion) : Option Listener :=
  l.mAcceptors[c.acceptorIndex]?.bind fun a =>
    match a.outstanding with
    | [] => none
    | pSession :: rest =>
      let l := { l.set c.acceptorIndex { a with outstanding := rest } with
        accepted := l.accepted ++ [pSession] }
      if a.mEventOwner then l.dispatch .accept c.acceptorIndex c.answers else some l

/-- A listener that gets accept completions, after a successful `StartAccept`. -/
abbrev machine (acceptCount : Nat) : Machine Listener Completion where
  init l := ∃ k : Nat → RegisterAnswers, (∀ i, (k i).Succeeds) ∧
    startAccept k acceptCount (new acceptCount) = some l
  step := step

end Listener

end CppNetEngine
