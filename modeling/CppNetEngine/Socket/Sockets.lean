import CppNetEngine.Lib.Machine
import Mathlib.Logic.Function.Basic

/-!
# Sockets and their owners

`SocketUtils::CreateTcpSocket` and `Close`, and the field `mSocket` of the sessions and listeners of
the engine. A socket is its number in the order in which `WSASocket` returned them, and
`INVALID_SOCKET` is `none`. A step is a call, with the answers of the system calls it makes. What
else the engine does with a session or a listener leaves its `mSocket` alone.
-/

namespace CppNetEngine

/-- The sockets that `WSASocket` has returned, and the arguments of `closesocket`. -/
structure Sockets where
  created : Nat
  closed : List (Option Nat)

namespace Sockets

/-- `SocketUtils::CreateTcpSocket`, with `outSocket`. -/
def createTcpSocket (s : Sockets) (wsaSocket : Bool) : Sockets × Option Nat :=
  if wsaSocket then ({ s with created := s.created + 1 }, some s.created) else (s, none)

/-- `SocketUtils::Close`; the caller's variable is `INVALID_SOCKET` afterwards. -/
def close (s : Sockets) (socket : Option Nat) : Sockets :=
  if socket = none then { s with closed := s.closed ++ [socket] } else s

end Sockets

/-- The objects with an `mSocket`. -/
inductive SocketOwner
  | session (i : Nat)
  | listener (i : Nat)
  deriving DecidableEq

structure Engine where
  sockets : Sockets
  /-- `mSocket` of the objects that exist. -/
  mSocket : SocketOwner → Option (Option Nat)
  /-- `isInit` of `SocketUtils::Init`. -/
  isInit : Bool
  crashed : Bool
  /-- The valid sockets of an `mSocket` that was overwritten with `INVALID_SOCKET`, or whose owner
  was destroyed. -/
  dropped : List Nat

namespace Engine

inductive Act
  /-- `SocketUtils::Init`; `bound` if `WSAIoctl` succeeds each time. -/
  | init (wsaStartup wsaSocket bound : Bool)
  /-- `Service::CreateSession`; `registered` if `IocpCore::Register` succeeds. -/
  | createSession (i : Nat) (wsaSocket registered : Bool)
  /-- `Session::Clear`, in `processDisconnect` or after an `AcceptEx` that failed. -/
  | clear (i : Nat)
  | destroySession (i : Nat)
  | createListener (i : Nat)
  /-- `StartAccept`, up to the first `Register`; `setUp` if all calls on the socket succeed. -/
  | startAccept (i : Nat) (wsaSocket setUp : Bool)
  | closeAccept (i : Nat)
  | destroyListener (i : Nat)

def new : Engine :=
  { sockets := ⟨0, []⟩
    mSocket := fun _ => none
    isInit := false
    crashed := false
    dropped := [] }

/-- The valid socket of an object, if it exists and has one. -/
def valid (e : Engine) (o : SocketOwner) : Option Nat := (e.mSocket o).join

/-- `mSocket` is set. -/
def assign (e : Engine) (o : SocketOwner) (socket : Option Nat) : Engine :=
  { e with
    mSocket := Function.update e.mSocket o (some socket)
    dropped := if socket = none then e.dropped ++ (e.valid o).toList else e.dropped }

/-- The memory of the object is freed. -/
def free (e : Engine) (o : SocketOwner) : Engine :=
  { e with
    mSocket := Function.update e.mSocket o none
    dropped := e.dropped ++ (e.valid o).toList }

/-- `CreateTcpSocket(mSocket)`. -/
def createTcpSocket (e : Engine) (o : SocketOwner) (wsaSocket : Bool) : Engine :=
  let r := e.sockets.createTcpSocket wsaSocket
  { e with sockets := r.1 }.assign o r.2

/-- `Close(mSocket)`. -/
def close (e : Engine) (o : SocketOwner) : Engine :=
  { e with sockets := e.sockets.close (e.valid o) }.assign o none

def crash (e : Engine) : Engine := { e with crashed := true }

/-- `SocketUtils::Init`. `dummySocket` is a local variable. -/
def init (e : Engine) (wsaStartup wsaSocket bound : Bool) : Engine :=
  if e.isInit || !wsaStartup then e
  else
    let r := e.sockets.createTcpSocket wsaSocket
    if wsaSocket && bound then { e with sockets := r.1.close r.2, isInit := true }
    else { e with sockets := r.1 }

/-- `Service::CreateSession`, with the constructor of `Session`. -/
def createSession (e : Engine) (i : Nat) (wsaSocket registered : Bool) : Engine :=
  let e := (e.assign (.session i) none).createTcpSocket (.session i) wsaSocket
  if !wsaSocket then e.crash
  else if registered then e
  else (e.assign (.session i) none).free (.session i)

/-- `Listener::StartAccept`. -/
def startAccept (e : Engine) (i : Nat) (wsaSocket setUp : Bool) : Engine :=
  let e := e.createTcpSocket (.listener i) wsaSocket
  if wsaSocket && setUp then e else e.crash

def act (e : Engine) : Act → Option Engine
  | .init wsaStartup wsaSocket bound => some (e.init wsaStartup wsaSocket bound)
  | .createSession i wsaSocket registered =>
    if (e.mSocket (.session i)).isSome then none
    else some (e.createSession i wsaSocket registered)
  | .clear i =>
    (e.mSocket (.session i)).map fun _ => e.assign (.session i) none
  | .destroySession i =>
    (e.mSocket (.session i)).map fun _ => e.free (.session i)
  | .createListener i =>
    if (e.mSocket (.listener i)).isSome then none else some (e.assign (.listener i) none)
  | .startAccept i wsaSocket setUp =>
    (e.mSocket (.listener i)).map fun _ => e.startAccept i wsaSocket setUp
  | .closeAccept i =>
    (e.mSocket (.listener i)).map fun _ => e.close (.listener i)
  | .destroyListener i =>
    (e.mSocket (.listener i)).map fun _ => (e.close (.listener i)).free (.listener i)

/-- The engine, until it crashes. -/
abbrev machine : Machine Engine Act where
  init e := e = new
  step e a := if e.crashed then none else e.act a

end Engine

end CppNetEngine
