import CppNetEngine.Lib.Machine
import Mathlib.Logic.Function.Basic

/-!
# Threads over a shared state

A machine whose steps are those of threads, each with a local state, on a state they share, and
those of an outside. `step_cases` says what a step is; `invariant` is the invariant rule, with one
case for the threads and one for the outside.
-/

/-- A shared state and the local state of each thread. -/
structure Threads (τ L σ : Type*) where
  shared : σ
  locals : τ → L

/-- A thread takes an action, or something happens outside. -/
inductive ThreadAction (τ α ε : Type*)
  | thread (t : τ) (a : α)
  | env (e : ε)

namespace Threads

variable {τ L σ α ε : Type*}

/-- A thread's local state replaced. -/
def set [DecidableEq τ] (s : Threads τ L σ) (t : τ) (shared : σ) (l : L) : Threads τ L σ :=
  ⟨shared, Function.update s.locals t l⟩

section Set

variable [DecidableEq τ] (s : Threads τ L σ) (t : τ) (shared : σ) (l : L)

@[simp] theorem set_shared : (s.set t shared l).shared = shared := rfl

@[simp] theorem set_self : (s.set t shared l).locals t = l := Function.update_self _ _ _

theorem set_other {u : τ} (h : u ≠ t) : (s.set t shared l).locals u = s.locals u :=
  Function.update_of_ne h _ _

@[simp] theorem set_eta : s.set t s.shared (s.locals t) = s :=
  congrArg (Threads.mk s.shared) (Function.update_eq_self t s.locals)

@[simp] theorem set_set (shared' : σ) (l' : L) :
    (s.set t shared l).set t shared' l' = s.set t shared' l' := by
  simp [set]

end Set

variable [DecidableEq τ]
  (act : τ → α → σ → L → Option (σ × L)) (env : ε → σ → Option σ) (init : Threads τ L σ → Prop)

/-- The machine of the threads. -/
def machine : Machine (Threads τ L σ) (ThreadAction τ α ε) where
  init := init
  step s
    | .thread t a => (act t a s.shared (s.locals t)).map fun r => s.set t r.1 r.2
    | .env e => (env e s.shared).map fun shared => { s with shared := shared }

/-- A condition on the actions of threads, and one on what happens outside. -/
def Guard (ok : Threads τ L σ → τ → α → Prop) (okEnv : σ → ε → Prop) (s : Threads τ L σ) :
    ThreadAction τ α ε → Prop
  | .thread t a => ok s t a
  | .env e => okEnv s.shared e

instance (ok : Threads τ L σ → τ → α → Prop) (okEnv : σ → ε → Prop)
    [∀ s t a, Decidable (ok s t a)] [∀ s e, Decidable (okEnv s e)] (s : Threads τ L σ) :
    ∀ a : ThreadAction τ α ε, Decidable (Guard ok okEnv s a)
  | .thread t a => inferInstanceAs (Decidable (ok s t a))
  | .env e => inferInstanceAs (Decidable (okEnv s.shared e))

omit [DecidableEq τ] in
theorem guard_true (s : Threads τ L σ) (a : ThreadAction τ α ε) :
    Guard (fun _ _ _ => True) (fun _ _ => True) s a := by
  cases a <;> trivial

variable {act env init}

theorem step_cases {s s' : Threads τ L σ} {a : ThreadAction τ α ε}
    (h : (machine act env init).step s a = some s') :
    (∃ t b shared l, a = .thread t b ∧ act t b s.shared (s.locals t) = some (shared, l) ∧
      s' = s.set t shared l) ∨
    ∃ e shared, a = .env e ∧ env e s.shared = some shared ∧ s' = { s with shared := shared } := by
  cases a with
  | thread t b =>
    obtain ⟨⟨shared, l⟩, hact, hs⟩ := Option.map_eq_some_iff.1 h
    exact .inl ⟨t, b, shared, l, rfl, hact, hs.symm⟩
  | env e =>
    obtain ⟨shared, henv, hs⟩ := Option.map_eq_some_iff.1 h
    exact .inr ⟨e, shared, rfl, henv, hs.symm⟩

variable {ok : Threads τ L σ → τ → α → Prop} {okEnv : σ → ε → Prop}

theorem reachable_act {s : Threads τ L σ} {t : τ} {a : α} {shared : σ} {l : L}
    (h : (machine act env init).ReachableIf (Guard ok okEnv) s) (hok : ok s t a)
    (hact : act t a s.shared (s.locals t) = some (shared, l)) :
    (machine act env init).ReachableIf (Guard ok okEnv) (s.set t shared l) := by
  refine .step (a := .thread t a) h ?_ ?_
  · exact hok
  · exact congrArg (Option.map fun r => s.set t r.1 r.2) hact

/-- **The invariant rule**, one case for the actions of threads and one for the outside. -/
theorem invariant {I : Threads τ L σ → Prop} (hinit : ∀ s, init s → I s)
    (hact : ∀ (s : Threads τ L σ) (t : τ) (a : α) (shared : σ) (l : L), I s →
      ok s t a → act t a s.shared (s.locals t) = some (shared, l) →
      I (s.set t shared l))
    (henv : ∀ (s : Threads τ L σ) (e : ε) (shared : σ), I s → okEnv s.shared e →
      env e s.shared = some shared → I { s with shared := shared })
    {s : Threads τ L σ} (h : (machine act env init).ReachableIf (Guard ok okEnv) s) : I s := by
  refine Machine.ReachableIf.invariant (M := machine act env init) hinit ?_ h
  intro s a s' _ hI hok hs
  obtain ⟨t, b, shared, l, rfl, hb, rfl⟩ | ⟨e, shared, rfl, he, rfl⟩ := step_cases hs
  · exact hact s t b shared l hI hok hb
  · exact henv s e shared hI hok he

end Threads
