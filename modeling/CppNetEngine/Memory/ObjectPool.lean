import CppNetEngine.Lib.Observed
import CppNetEngine.Stack.TopNode
import Mathlib.Data.BitVec
import Mathlib.Data.Finset.Insert

/-!
# The object pool

`ObjectPool::Alloc` and `Free` down to their reads, writes and compare-and-swaps, with any number of
threads that call them. An object is known by the address of its node; the count at the top is an
`int64`. `mi_malloc` gives any address that is not in use. What is constructed in an object is left
out, and so is the checksum, which nobody writes to after the node was allocated.
-/

namespace CppNetEngine.ObjectPool

open TopNode

structure Memory where
  /-- `mTopNode16`, and the `pNextNode` of the nodes. -/
  links : Links (BitVec 64)
  mPoolingCount : Int
  /-- The nodes that `allocNode` got from `mi_malloc`. -/
  allocated : Finset Nat
  /-- The objects that callers hold. -/
  held : List Nat

/-- Where a thread is in `Alloc`. -/
inductive AllocStep
  | fetchSub
  | fetchAdd
  | allocNode
  | pop (step : PopStep (BitVec 64))
  | ret (pNode : Nat)

/-- Where a thread is in `Free`. -/
inductive FreeStep
  | push (step : PushStep)
  | fetchAdd

inductive Pc
  | idle
  | alloc (step : AllocStep)
  | free (pDesired : Nat) (step : FreeStep)

/-- What the outside decides in a step. -/
structure Outside where
  /-- A `compare_exchange_weak` fails without a reason. -/
  spurious : Bool
  /-- What `mi_malloc` returns. -/
  address : Nat

inductive Action
  | alloc
  | free (pData : Nat)
  | next (k : Outside)

/-- `Alloc`. -/
def allocStep (k : Outside) (m : Memory) : AllocStep → Option (Memory × Pc)
  | .fetchSub =>
    some ({ m with mPoolingCount := m.mPoolingCount - 1 },
      .alloc (if m.mPoolingCount ≤ 0 then .fetchAdd else .pop .readCount))
  | .fetchAdd => some ({ m with mPoolingCount := m.mPoolingCount + 1 }, .alloc .allocNode)
  | .allocNode =>
    some ({ m with
      links := m.links.setNext k.address none
      allocated := insert k.address m.allocated }, .alloc (.ret k.address))
  | .pop step =>
    (popStep k.spurious m.links step).map fun (links, next) =>
      ({ m with links := links }, .alloc (next.elim .pop .ret))
  | .ret pNode => some ({ m with held := pNode :: m.held }, .idle)

/-- `Free`. -/
def freeStep (k : Outside) (m : Memory) (pDesired : Nat) : FreeStep → Memory × Pc
  | .push step =>
    let (links, next) := pushStep k.spurious m.links pDesired step
    ({ m with links := links }, .free pDesired (next.elim .fetchAdd .push))
  | .fetchAdd => ({ m with mPoolingCount := m.mPoolingCount + 1 }, .idle)

/-- The next step of a thread. -/
def step (k : Outside) (m : Memory) : Pc → Option (Memory × Pc)
  | .idle => none
  | .alloc step => allocStep k m step
  | .free pDesired step => some (freeStep k m pDesired step)

/-- What a thread can do. -/
def act : Action → Memory → Pc → Option (Memory × Pc)
  | .next k, m, pc => step k m pc
  | .alloc, m, .idle => some (m, .alloc .fetchSub)
  | .free pData, m, .idle =>
    some ({ m with held := m.held.erase pData }, .free pData (.push .readNode))
  | _, _, _ => none

/-- A node that the constructor allocates. -/
def Memory.addNode (m : Memory) (pNode : Nat) : Memory :=
  { m with
    links := { m.links.setNext pNode m.links.top.pNode with
      top := { m.links.top with pNode := some pNode } }
    allocated := insert pNode m.allocated }

/-- The constructor; `nodes` are the `poolingCount` nodes that it allocates. -/
def Memory.construct (nodes : List Nat) : Memory :=
  nodes.foldl Memory.addNode ⟨⟨⟨none, 0⟩, fun _ => none⟩, nodes.length, ∅, []⟩

abbrev State (τ : Type*) := Threads τ Pc Memory

/-- Threads that call `Alloc` and `Free`. -/
abbrev machine (τ : Type*) [DecidableEq τ] : Machine (State τ) (ThreadAction τ Action Empty) :=
  Threads.machine (fun _ => act) (fun e _ => e.elim)
    fun s => (∃ nodes, nodes.Nodup ∧ s.shared = .construct nodes) ∧ ∀ t, s.locals t = .idle

/-- The next step of the thread is `mi_malloc`. -/
def Pc.allocates : Pc → Bool
  | .alloc .allocNode => true
  | _ => false

/-- What the callers and `mi_malloc` see to: an object is freed by who holds it, and memory that is
in use is not given again. -/
def CallsGuard {τ : Type*} (s : State τ) (t : τ) : Action → Prop
  | .alloc => True
  | .free pData => pData ∈ s.shared.held
  | .next k => (s.locals t).allocates = true → k.address ∉ s.shared.allocated

instance {τ : Type*} (s : State τ) (t : τ) : ∀ a, Decidable (CallsGuard s t a)
  | .alloc => inferInstanceAs (Decidable True)
  | .free _ => inferInstanceAs (Decidable (_ ∈ _))
  | .next _ => inferInstanceAs (Decidable (_ → _))

/-! ## What is seen of a run -/

/-- The node that the step takes from the list. -/
def popped (k : Outside) (m : Memory) : Pc → List Nat
  | .alloc (.pop (.swap count pNode _)) =>
    if m.links.top = ⟨some pNode, count⟩ ∧ k.spurious = false then [pNode] else []
  | _ => []

/-- What is seen of a step. -/
def watched {τ : Type*} (s : State τ) : ThreadAction τ Action Empty → List Nat
  | .thread t (.next k) => popped k s.shared (s.locals t)
  | _ => []

/-- The runs, with the nodes that were popped. -/
abbrev Observed {τ : Type*} [DecidableEq τ] : List Nat → State τ → Prop :=
  (machine τ).Observed (Threads.Guard CallsGuard fun _ _ => True) watched

end CppNetEngine.ObjectPool
