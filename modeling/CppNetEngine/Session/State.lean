/-!
# The state word of a session

`eSessionState` and `eDisconnectReason` of `Session.h`, the answers of the socket calls, and the
compare-and-swaps on `mSessionState` with the values they expect and desire. `setSessionWaiting`
desires the value it expects, so no session ever waits (`StateSwap.desired_ne_waiting`).
-/

namespace CppNetEngine

/-- `eSessionState`. -/
inductive SessionState
  | connected
  | waiting
  | inGame
  | disconnected
  deriving DecidableEq

/-- `eDisconnectReason`. -/
inductive DisconnectReason
  | clientRequest
  | timeout
  | kicked
  | serverFull
  | serverShutdown
  | socketError
  | stateError
  | serviceError
  deriving DecidableEq

/-- What `WSASend`, `WSARecv`, `ConnectEx` and `DisconnectEx` answer. -/
inductive WsaResult
  | ok
  | pending
  | error (errorCode : Nat)
  deriving DecidableEq

/-- The operation is under way, and a completion will come. -/
def WsaResult.Accepted : WsaResult → Prop
  | .error _ => False
  | _ => True

instance : ∀ r : WsaResult, Decidable r.Accepted
  | .error _ => .isFalse id
  | .ok | .pending => .isTrue trivial

/-- The `compare_exchange_weak`s of the state word, under the names of their functions. -/
inductive StateSwap
  | setSessionInGame
  | setSessionWaiting
  | setWaitingToConnected
  | setSessionConnected
  deriving DecidableEq

namespace StateSwap

def expected : StateSwap → SessionState
  | setSessionInGame => .connected
  | setSessionWaiting => .disconnected
  | setWaitingToConnected => .waiting
  | setSessionConnected => .disconnected

def desired : StateSwap → SessionState
  | setSessionInGame => .inGame
  | setSessionWaiting => .disconnected
  | setWaitingToConnected => .connected
  | setSessionConnected => .connected

theorem desired_ne_waiting (swap : StateSwap) : swap.desired ≠ .waiting := by
  cases swap <;> decide

end StateSwap

end CppNetEngine
