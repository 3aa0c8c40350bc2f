import CppNetEngine.Actor.Scheduler
import Mathlib.Data.List.Destutter
import Mathlib.Data.List.Sort

/-!
# Scoped actors

What the constructor of `ScopedActor` makes of the actors it is passed, and its `TryAcquire` and
`Release` as functions of the memory, for a thread that acts alone.
-/

namespace CppNetEngine.ScopedActor

variable {τ α ς J : Type}

/-- The seeds of the actors: each one takes the next of `sSeedBase`. -/
structure Seeds (α : Type) where
  getSeed : α → Int
  injective : Function.Injective getSeed

/-- The constructor: `std::unique`, which drops what has the seed of the one before it, and then
`std::sort`, which may be any sort, since no two actors have the same seed. -/
def construct (seeds : Seeds α) (args : List α) : List α :=
  (args.destutter fun pLeft pRight => seeds.getSeed pLeft ≠ seeds.getSeed pRight).insertionSort
    fun pLeft pRight => seeds.getSeed pLeft ≤ seeds.getSeed pRight

section Functions

variable [DecidableEq α] [DecidableEq ς]

/-- `tryAcquireAll`: the loop over `curSpin`, with that many rounds to go. -/
def spin (t : τ) (a : α) : Nat → ActorMemory τ α ς J → ActorMemory τ α ς J × Bool
  | 0, m => (m, false)
  | rounds + 1, m =>
    match ActorScheduler.tryAcquire m t a with
    | (m, true) => (m, true)
    | (m, false) => spin t a rounds m

/-- `mAcquireIndex = i`. -/
def storeIndex (s : ς) (i : Int) (m : ActorMemory τ α ς J) : ActorMemory τ α ς J :=
  { m with mAcquireIndex := Function.update m.mAcquireIndex s i }

/-- `tryAcquireAll`: the loop over the members, at `i`. -/
def acquireMembers (cfg : ActorConfig α ς) (t : τ) (s : ς) :
    List α → Nat → ActorMemory τ α ς J → ActorMemory τ α ς J × Bool
  | [], _, m => (m, true)
  | a :: rest, i, m =>
    let r := spin t a (cfg.mSpinCount s).toNat m
    let m := if r.2 then storeIndex s i r.1 else r.1
    if m.mAcquireIndex s ≠ i then (m, false) else acquireMembers cfg t s rest (i + 1) m

def tryAcquireAll (cfg : ActorConfig α ς) (t : τ) (s : ς) (m : ActorMemory τ α ς J) :
    ActorMemory τ α ς J × Bool :=
  acquireMembers cfg t s (cfg.mActors s) 0 m

/-- `Release`: the loop, from `i` down. `mActors[i]` outside the vector has no result. -/
def releaseMembers (cfg : ActorConfig α ς) (s : ς) :
    Nat → ActorMemory τ α ς J → Option (ActorMemory τ α ς J)
  | 0, m => (cfg.mActors s)[0]?.map (ActorScheduler.release m)
  | i + 1, m =>
    (cfg.mActors s)[i + 1]?.bind fun a => releaseMembers cfg s i (ActorScheduler.release m a)

def release (cfg : ActorConfig α ς) (s : ς) (m : ActorMemory τ α ς J) :
    Option (ActorMemory τ α ς J) :=
  match m.mAcquireIndex s with
  | .ofNat i => (releaseMembers cfg s i m).map (storeIndex s (-1))
  | .negSucc _ => some (storeIndex s (-1) m)

def tryAcquire (cfg : ActorConfig α ς) (t : τ) (s : ς) (m : ActorMemory τ α ς J) :
    Option (ActorMemory τ α ς J × Bool) :=
  let r := tryAcquireAll cfg t s m
  if r.2 then some (r.1, true) else (release cfg s r.1).map (·, false)

end Functions

end CppNetEngine.ScopedActor
