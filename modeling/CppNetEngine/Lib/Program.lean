import CppNetEngine.Lib.Threads

/-!
# Programs of atomic actions

A program is a sequence of atomic actions on a shared state, each chosen by the answers to those
before it. Run alone, it is a function on the state (`run`). In a pool of threads the actions of
several programs interleave (`pool`). An invariant of the actions is one of every run
(`run_invariant`) and of every interleaving (`pool_invariant`).
-/

/-- A program over the actions `A`, of which `a` answers with an `R a`. -/
inductive Program (A : Type) (R : A → Type) (β : Type)
  | ret (b : β)
  | act (a : A) (k : R a → Program A R β)

namespace Program

variable {A : Type} {R : A → Type} {β γ σ : Type}

def bind : Program A R β → (β → Program A R γ) → Program A R γ
  | .ret b, f => f b
  | .act a k, f => .act a fun r => (k r).bind f

instance : Monad (Program A R) where
  pure := .ret
  bind := bind

/-- One action. -/
def call (a : A) : Program A R (R a) := .act a .ret

/-- The program alone on the state. -/
def run (exec : (a : A) → σ → σ × R a) : Program A R β → σ → σ × β
  | .ret b, s => (s, b)
  | .act a k, s => run exec (k (exec a s).2) (exec a s).1

/-- Every action the program can come to is in `P`. -/
def Uses (P : A → Prop) : Program A R β → Prop
  | .ret _ => True
  | .act a k => P a ∧ ∀ r, (k r).Uses P

theorem Uses.bind {P : A → Prop} {p : Program A R β} {f : β → Program A R γ} (hp : p.Uses P)
    (hf : ∀ b, (f b).Uses P) : (p >>= f).Uses P := by
  induction p with
  | ret b => exact hf b
  | act a k ih => exact ⟨hp.1, fun r => ih r (hp.2 r)⟩

theorem uses_true (p : Program A R β) : p.Uses fun _ => True := by
  induction p with
  | ret b => trivial
  | act a k ih => exact ⟨trivial, ih⟩

/-- The next action, if the program is not over. -/
def head : Program A R β → Option A
  | .ret _ => none
  | .act a _ => some a

/-- Every action the program comes to is one that `next` allows after the answer to the action
before it. -/
def Follows (next : (a : A) → R a → A → Prop) : Program A R β → Prop
  | .ret _ => True
  | .act a k => ∀ r, (∀ b ∈ (k r).head, next a r b) ∧ (k r).Follows next

/-- The program may come after the answer `r` to `a`, and keeps to `next` from there. -/
def Continues (next : (a : A) → R a → A → Prop) (a : A) (r : R a) (q : Program A R β) : Prop :=
  (∀ b ∈ q.head, next a r b) ∧ q.Follows next

section Follows

variable {next : (a : A) → R a → A → Prop} {a : A} {r : R a}

theorem Continues.ret {b : β} : (Program.ret b).Continues next a r :=
  ⟨fun _ h => (by cases h), trivial⟩

theorem Follows.act {k : R a → Program A R β} (hk : ∀ r, (k r).Continues next a r) :
    (Program.act a k).Follows next :=
  hk

theorem Continues.act {b : A} {k : R b → Program A R β} (h : next a r b)
    (hk : ∀ r, (k r).Continues next b r) : (Program.act b k).Continues next a r := by
  refine ⟨fun c hc => ?_, hk⟩
  cases hc
  exact h

/-- A program that may come after anything may come after another. -/
theorem Continues.bind {p : Program A R β} {f : β → Program A R γ} (hp : p.Continues next a r)
    (hf : ∀ b a r, (f b).Continues next a r) : (p >>= f).Continues next a r := by
  induction p generalizing a with
  | ret b => exact hf b a r
  | act b k ih => exact .act (hp.1 b rfl) fun r => ih r (hp.2 r)

end Follows

section Rules

variable (exec : (a : A) → σ → σ × R a)

@[simp] theorem run_pure (b : β) (s : σ) : run exec (pure b : Program A R β) s = (s, b) := rfl

@[simp] theorem run_call (a : A) (s : σ) : run exec (call a) s = exec a s := rfl

@[simp] theorem run_bind (p : Program A R β) (f : β → Program A R γ) :
    ∀ s, run exec (p >>= f) s = run exec (f (run exec p s).2) (run exec p s).1 := by
  induction p with
  | ret b => exact fun s => rfl
  | act a k ih => exact fun s => ih (exec a s).2 (exec a s).1

/-- What the actions of a program keep, the program keeps. -/
theorem run_invariant {P : A → Prop} {I : σ → Prop}
    (h : ∀ a s, P a → I s → I (exec a s).1) {p : Program A R β} (hp : p.Uses P) :
    ∀ s, I s → I (run exec p s).1 := by
  induction p with
  | ret b => exact fun s hs => hs
  | act a k ih => exact fun s hs => ih _ (hp.2 _) _ (h a s hp.1 hs)

theorem run_unchanged {P : A → Prop} {δ : Type*} {f : σ → δ}
    (h : ∀ a s, P a → f (exec a s).1 = f s) {p : Program A R β} (hp : p.Uses P) (s : σ) :
    f (run exec p s).1 = f s :=
  run_invariant exec (I := fun s' => f s' = f s)
    (fun a s' ha hs => (h a s' ha).trans hs) hp s rfl

end Rules

/-! ## Threads -/

section Pools

variable {τ C E : Type} [DecidableEq τ]
  (exec : (a : A) → σ → σ × R a) (code : C → Program A R β) (env : E → σ → σ) (init : σ → Prop)

/-- A shared state and what is left of the program each thread is in, if it is in one. -/
abbrev Pool (τ : Type) (A : Type) (R : A → Type) (β σ : Type) :=
  Threads τ (Option (Program A R β)) σ

/-- A thread calls a program, or goes on with the one it is in. -/
def poolAct : Option C → σ → Option (Program A R β) → Option (σ × Option (Program A R β))
  | some c, s, none => some (s, some (code c))
  | some _, _, some _ => none
  | none, _, none => none
  | none, s, some (.ret _) => some (s, none)
  | none, s, some (.act a k) => some ((exec a s).1, some (k (exec a s).2))

/-- Threads that call programs over one shared state, action by action. -/
def pool : Machine (Pool τ A R β σ) (ThreadAction τ (Option C) E) :=
  Threads.machine (fun _ => poolAct exec code) (fun e s => some (env e s))
    fun p => init p.shared ∧ ∀ t, p.locals t = none

/-- A condition on an action and on how the program goes on from there, as a condition on what a
thread does. -/
def AtAction (ok : (a : A) → (R a → Program A R β) → Prop) :
    Option (Program A R β) → Option C → Prop
  | some (.act a k), none => ok a k
  | _, _ => True

instance (ok : (a : A) → (R a → Program A R β) → Prop) [∀ a k, Decidable (ok a k)] :
    ∀ (l : Option (Program A R β)) (c : Option C), Decidable (AtAction ok l c)
  | some (.act a k), none => inferInstanceAs (Decidable (ok a k))
  | none, none | none, some _ | some (.ret _), none | some (.ret _), some _
  | some (.act _ _), some _ => .isTrue trivial

/-- A condition on actions as a condition on the steps that take them. -/
abbrev Guard (ok : Pool τ A R β σ → (a : A) → (R a → Program A R β) → Prop) :
    Pool τ A R β σ → ThreadAction τ (Option C) E → Prop :=
  Threads.Guard (fun p t => AtAction (ok p) (p.locals t)) fun _ _ => True

variable {exec code env init} {ok : Pool τ A R β σ → (a : A) → (R a → Program A R β) → Prop}

/-- **What a thread does**: it calls a program, takes the next action of its own, or is done with
it. -/
theorem poolAct_cases {c : Option C} {s s' : σ} {l l' : Option (Program A R β)}
    (h : poolAct exec code c s l = some (s', l')) :
    (∃ d, c = some d ∧ l = none ∧ s' = s ∧ l' = some (code d)) ∨
    (∃ a k, c = none ∧ l = some (.act a k) ∧ s' = (exec a s).1 ∧ l' = some (k (exec a s).2)) ∨
    (∃ b, c = none ∧ l = some (.ret b) ∧ s' = s ∧ l' = none) := by
  cases c with
  | some d =>
    cases l with
    | none =>
      cases h
      exact .inl ⟨d, rfl, rfl, rfl, rfl⟩
    | some q => cases h
  | none =>
    cases l with
    | none => cases h
    | some q =>
      cases q with
      | ret b =>
        cases h
        exact .inr (.inr ⟨b, rfl, rfl, rfl, rfl⟩)
      | act a k =>
        cases h
        exact .inr (.inl ⟨a, k, rfl, rfl, rfl, rfl⟩)

variable (exec code env ok) in
/-- **A proof outline** for programs that interleave: `I` holds throughout, and `pre a` wherever a
thread is about to take `a`. Every action establishes what the one after it needs (`next`), and
leaves what the other threads need as it is (`stable`). -/
structure Outline (init : σ → Prop) (next : (a : A) → R a → A → Prop) (I : σ → Prop)
    (pre : A → σ → Prop) : Prop where
  init : ∀ s, init s → I s
  follows : ∀ c, (code c).Follows next
  first : ∀ c s, I s → ∀ a ∈ (code c).head, pre a s
  keep : ∀ (p : Pool τ A R β σ) a k, ok p a k → I p.shared → pre a p.shared →
    I (exec a p.shared).1
  next : ∀ (p : Pool τ A R β σ) a k b, ok p a k → I p.shared → pre a p.shared →
    b ∈ (k (exec a p.shared).2).head → next a (exec a p.shared).2 b → pre b (exec a p.shared).1
  stable : ∀ (p : Pool τ A R β σ) a k u b, ok p a k → I p.shared →
    b ∈ (p.locals u).bind head → pre b p.shared → pre b (exec a p.shared).1
  envKeeps : ∀ e s, I s → I (env e s)
  envStable : ∀ e s b, pre b s → pre b (env e s)

/-- What a proof outline says of a pool. -/
structure Outline.At (next : (a : A) → R a → A → Prop) (I : σ → Prop) (pre : A → σ → Prop)
    (p : Pool τ A R β σ) : Prop where
  holds : I p.shared
  follows : ∀ t, ∀ q ∈ p.locals t, q.Follows next
  pre : ∀ t, ∀ a ∈ (p.locals t).bind head, pre a p.shared

/-- A thread's step, by what it leaves to the thread and to the others. -/
theorem Outline.At.set {next : (a : A) → R a → A → Prop} {I : σ → Prop} {pre : A → σ → Prop}
    {p : Pool τ A R β σ} {t : τ} {s : σ} {l : Option (Program A R β)} (h : At next I pre p)
    (hI : I s) (hl : ∀ q ∈ l, q.Follows next) (hpre : ∀ a ∈ l.bind head, pre a s)
    (hothers : ∀ u, ∀ a ∈ (p.locals u).bind head, pre a p.shared → pre a s) :
    At next I pre (p.set t s l) := by
  refine ⟨hI, fun u q hq => ?_, fun u a ha => ?_⟩
  · by_cases hu : u = t
    · subst hu
      rw [Threads.set_self] at hq
      exact hl q hq
    · rw [Threads.set_other _ _ _ _ hu] at hq
      exact h.follows u q hq
  · by_cases hu : u = t
    · subst hu
      rw [Threads.set_self] at ha
      exact hpre a ha
    · rw [Threads.set_other _ _ _ _ hu] at ha
      exact hothers u a ha (h.pre u a ha)

/-- **A proof outline holds in every interleaving.** -/
theorem Outline.at {next : (a : A) → R a → A → Prop} {I : σ → Prop} {pre : A → σ → Prop}
    (o : Outline exec code env ok init next I pre) {p : Pool τ A R β σ}
    (h : (pool exec code env init).ReachableIf (Guard ok) p) : Outline.At next I pre p := by
  refine Threads.invariant (fun p hp => ?_) ?_ ?_ h
  · refine ⟨o.init _ hp.1, fun t q hq => ?_, fun t a ha => ?_⟩
    · rw [hp.2 t] at hq
      cases hq
    · rw [hp.2 t] at ha
      cases ha
  · intro p t c s l hI hok hact
    obtain ⟨d, rfl, hl, rfl, rfl⟩ | ⟨a, k, rfl, hl, rfl, rfl⟩ | ⟨b, rfl, hl, rfl, rfl⟩ :=
      poolAct_cases hact
    · refine hI.set hI.holds (fun q hq => ?_) (o.first d _ hI.holds) fun _ _ _ => id
      cases hq
      exact o.follows d
    · simp only [AtAction, hl] at hok
      have hpre : pre a p.shared := hI.pre t a (by rw [hl]; rfl)
      obtain ⟨hnext, hfollows⟩ := hI.follows t _ hl (exec a p.shared).2
      refine hI.set (o.keep p a k hok hI.holds hpre) (fun q hq => ?_)
        (fun b hb => o.next p a k b hok hI.holds hpre hb (hnext b hb))
        fun u b hb => o.stable p a k u b hok hI.holds hb
      cases hq
      exact hfollows
    · exact hI.set hI.holds (fun q hq => by cases hq) (fun a ha => by cases ha) fun _ _ _ => id
  · intro p e s hI _ he
    cases he
    exact ⟨o.envKeeps e _ hI.holds, hI.follows, fun t a ha => o.envStable e _ a (hI.pre t a ha)⟩

end Pools

end Program
