import CppNetEngine.Lib.Linked
import Mathlib.Algebra.Ring.Nat
import Mathlib.Data.Nat.Cast.Defs

/-!
# The top of a lock-free list

The two loops that `LockFreeStack` and `ObjectPool` have in common, down to their reads, writes and
compare-and-swaps. `TryPop` and `Alloc` swap the 16 bytes of the top, with its count; `TryPush` and
`Free` swap the 8 bytes of its pointer. A `compare_exchange_weak` may fail without a reason.
-/

namespace CppNetEngine.TopNode

/-- `count` is an `int64` in the source. -/
@[ext] structure Node16 (γ : Type*) where
  pNode : Option Nat
  count : γ
  deriving DecidableEq

/-- The top, and the nodes by their addresses. -/
structure Links (γ : Type*) where
  top : Node16 γ
  pNextNode : Nat → Option Nat

/-- Where a thread is in the loop of `TryPop` and `Alloc`. -/
inductive PopStep (γ : Type*)
  | readCount
  | readNode (count : γ)
  | readNext (count : γ) (pNode : Option Nat)
  | swap (count : γ) (pNode : Nat) (pNextNode : Option Nat)

/-- Where a thread is in the loop of `TryPush` and `Free`. -/
inductive PushStep
  | readNode
  | setNext (pExpected : Option Nat)
  | swap (pExpected : Option Nat)

section

variable {γ : Type*}

def Links.setNext (m : Links γ) (pNode : Nat) (pNextNode : Option Nat) : Links γ :=
  { m with pNextNode := Function.update m.pNextNode pNode pNextNode }

@[simp] theorem Links.setNext_top (m : Links γ) (pNode : Nat) (pNextNode : Option Nat) :
    (m.setNext pNode pNextNode).top = m.top := rfl

@[simp] theorem Links.setNext_self (m : Links γ) (pNode : Nat) (pNextNode : Option Nat) :
    (m.setNext pNode pNextNode).pNextNode pNode = pNextNode := Function.update_self _ _ _

theorem Links.setNext_other (m : Links γ) {pNode p : Nat} (pNextNode : Option Nat)
    (hp : p ≠ pNode) : (m.setNext pNode pNextNode).pNextNode p = m.pNextNode p :=
  Function.update_of_ne hp _ _

/-- The loop of `TryPop` and `Alloc`: what is next in it, or the node that it has taken. -/
def popStep [Add γ] [One γ] [DecidableEq γ] (spurious : Bool) (m : Links γ) :
    PopStep γ → Option (Links γ × (PopStep γ ⊕ Nat))
  | .readCount => some (m, .inl (.readNode m.top.count))
  | .readNode count => some (m, .inl (.readNext count m.top.pNode))
  | .readNext count pNode =>
    -- there is no step that follows a null pointer
    pNode.map fun pNode => (m, .inl (.swap count pNode (m.pNextNode pNode)))
  | .swap count pNode pNextNode =>
    some (if m.top = ⟨some pNode, count⟩ ∧ spurious = false then
        ({ m with top := ⟨pNextNode, count + 1⟩ }, .inr pNode)
      else (m, .inl .readCount))

/-- The loop of `TryPush` and `Free` with a node: what is next in it, if it does not end. -/
def pushStep (spurious : Bool) (m : Links γ) (pDesired : Nat) :
    PushStep → Links γ × Option PushStep
  | .readNode => (m, some (.setNext m.top.pNode))
  | .setNext pExpected => (m.setNext pDesired pExpected, some (.swap pExpected))
  | .swap pExpected =>
    if m.top.pNode = pExpected ∧ spurious = false then
      ({ m with top := { m.top with pNode := some pDesired } }, none)
    else (m, some .readNode)

end

end CppNetEngine.TopNode
