import Mathlib.Data.List.Basic

/-!
# Machines

A machine has initial states and a step function that says what an action does where it can be
taken. `ReachableIf ok` are the states of the runs whose steps all meet the condition `ok`; an
invariant of these steps holds in all of them (`ReachableIf.invariant`). Steps of the machine can
also be executed (`exec`), which is how a run is exhibited (`ReachableIf.exec`). `always_iff` says
which runs keep a property throughout.
-/

/-- Where a machine starts, and what an action does in a state, if it can be taken there. -/
structure Machine (σ α : Type*) where
  init : σ → Prop
  step : σ → α → Option σ

namespace Machine

variable {σ α : Type*} (M : Machine σ α) (ok : σ → α → Prop)

/-- The states that runs reach whose steps all meet `ok`. -/
inductive ReachableIf : σ → Prop
  | init {s : σ} : M.init s → ReachableIf s
  | step {s s' : σ} {a : α} : ReachableIf s → ok s a → M.step s a = some s' → ReachableIf s'

/-- The states that runs reach. -/
def Reachable (s : σ) : Prop := M.ReachableIf (fun _ _ => True) s

/-- The actions one after the other. -/
def exec (s : σ) : List α → Option σ
  | [] => some s
  | a :: as => (M.step s a).bind (exec · as)

/-- Every action of a run meets `ok` where it is taken. -/
def Allowed (s : σ) : List α → Prop
  | [] => True
  | a :: as => ok s a ∧ (match M.step s a with | none => True | some s' => Allowed s' as)

/-- Whether a run meets a condition can be computed. -/
instance decidableAllowed [∀ s a, Decidable (ok s a)] :
    ∀ (s : σ) (as : List α), Decidable (M.Allowed ok s as)
  | _, [] => .isTrue trivial
  | s, a :: as =>
    have : Decidable (match M.step s a with | none => True | some s' => M.Allowed ok s' as) :=
      match M.step s a with
      | none => .isTrue trivial
      | some s' => decidableAllowed s' as
    inferInstanceAs (Decidable (_ ∧ _))

/-- `P` holds in every state of a run. -/
def Always (P : σ → Prop) (s : σ) : List α → Prop
  | [] => P s
  | a :: as => P s ∧ (match M.step s a with | none => True | some s' => Always P s' as)

variable {M ok}

/-- **Invariants.** What holds at the start and is kept by every step that meets `ok`, from a
state already known to be reachable, holds in every state reached by such steps. -/
theorem ReachableIf.invariant {I : σ → Prop} (hinit : ∀ s, M.init s → I s)
    (hstep : ∀ s a s', M.ReachableIf ok s → I s → ok s a → M.step s a = some s' → I s') {s : σ}
    (h : M.ReachableIf ok s) : I s := by
  induction h with
  | init h => exact hinit _ h
  | step hr hok hs ih => exact hstep _ _ _ hr ih hok hs

theorem ReachableIf.mono {ok' : σ → α → Prop} (hok : ∀ s a, ok s a → ok' s a) {s : σ}
    (h : M.ReachableIf ok s) : M.ReachableIf ok' s := by
  induction h with
  | init h => exact .init h
  | step _ ha hs ih => exact .step ih (hok _ _ ha) hs

theorem ReachableIf.exec (as : List α) : ∀ {s s' : σ}, M.ReachableIf ok s → M.Allowed ok s as →
    M.exec s as = some s' → M.ReachableIf ok s' := by
  induction as with
  | nil =>
    intro s s' h _ he
    cases he
    exact h
  | cons a as ih =>
    intro s s' h ha he
    obtain ⟨hok, hrest⟩ := ha
    obtain ⟨s1, h1, h2⟩ := Option.bind_eq_some_iff.1 he
    rw [h1] at hrest
    exact ih (.step h hok h1) hrest h2

/-- What every step keeps holds after a run, if it held before. -/
theorem exec_invariant {I : σ → Prop} (hstep : ∀ s a s', I s → M.step s a = some s' → I s')
    (as : List α) : ∀ {s s' : σ}, I s → M.exec s as = some s' → I s' := by
  induction as with
  | nil =>
    intro s s' hI he
    cases he
    exact hI
  | cons a as ih =>
    intro s s' hI he
    obtain ⟨s1, h1, h2⟩ := Option.bind_eq_some_iff.1 he
    exact ih (hstep s a s1 hI h1) h2

/-- A run whose steps meet `B` can be executed, if each of these steps can be taken. -/
theorem exec_of_allowed {B : σ → α → Prop} {I : σ → Prop}
    (hstep : ∀ s a, I s → B s a → ∃ s', M.step s a = some s' ∧ I s') (as : List α) :
    ∀ {s : σ}, I s → M.Allowed B s as → ∃ s', M.exec s as = some s' := by
  induction as with
  | nil => exact fun _ _ => ⟨_, rfl⟩
  | cons a as ih =>
    intro s hI hB
    obtain ⟨s1, h1, hI1⟩ := hstep s a hI hB.1
    have hrest := hB.2
    rw [h1] at hrest
    obtain ⟨s', h'⟩ := ih hI1 hrest
    refine ⟨s', ?_⟩
    rw [exec, h1]
    exact h'

theorem allowed_of (hok : ∀ s a, ok s a) (as : List α) : ∀ s : σ, M.Allowed ok s as := by
  induction as with
  | nil => exact fun _ => trivial
  | cons a as ih =>
    intro s
    refine ⟨hok s a, ?_⟩
    split
    · trivial
    · exact ih _

/-- What the steps of a run meet in states with an invariant. -/
theorem allowed_mono {B ok' : σ → α → Prop} {I : σ → Prop}
    (hkeep : ∀ s a s', I s → B s a → ok s a → M.step s a = some s' → I s')
    (hok : ∀ s a, I s → B s a → ok s a → ok' s a) (as : List α) :
    ∀ {s : σ}, I s → M.Allowed B s as → M.Allowed ok s as → M.Allowed ok' s as := by
  induction as with
  | nil => exact fun _ _ _ => trivial
  | cons a as ih =>
    intro s hI hB ha
    refine ⟨hok s a hI hB.1 ha.1, ?_⟩
    have hrestB := hB.2
    have hrest := ha.2
    cases hs : M.step s a with
    | none => trivial
    | some s' =>
      rw [hs] at hrestB hrest
      exact ih (hkeep s a s' hI hB.1 ha.1 hs) hrestB hrest

/-- What an invariant of all steps implies holds throughout every run. -/
theorem always_of_invariant {I P : σ → Prop} (hP : ∀ s, I s → P s)
    (hkeep : ∀ s a s', I s → M.step s a = some s' → I s') (as : List α) :
    ∀ {s : σ}, I s → M.Always P s as := by
  induction as with
  | nil => exact fun hI => hP _ hI
  | cons a as ih =>
    intro s hI
    refine ⟨hP s hI, ?_⟩
    split
    · trivial
    · rename_i s' hs
      exact ih (hkeep s a s' hI hs)

/-- **When `P` holds throughout a run** whose steps all meet `B`: if an invariant of the steps
that meet `ok` as well implies `P`, and from a state with the invariant the other steps end `P`,
then it holds throughout exactly when all of the steps meet `ok`. -/
theorem always_iff_of_allowed {B : σ → α → Prop} {I P : σ → Prop} (hP : ∀ s, I s → P s)
    (hkeep : ∀ s a s', I s → B s a → ok s a → M.step s a = some s' → I s')
    (hend : ∀ s a s', I s → B s a → ¬ ok s a → M.step s a = some s' → ¬ P s') (as : List α) :
    ∀ {s s' : σ}, I s → M.Allowed B s as → M.exec s as = some s' →
      (M.Always P s as ↔ M.Allowed ok s as) := by
  induction as with
  | nil => exact fun hI _ _ => ⟨fun _ => trivial, fun _ => hP _ hI⟩
  | cons a as ih =>
    intro s s' hI hbase he
    obtain ⟨s1, h1, h2⟩ := Option.bind_eq_some_iff.1 he
    simp only [Allowed, h1] at hbase
    simp only [Always, Allowed, h1]
    constructor
    · rintro ⟨-, hrest⟩
      have hP1 : P s1 := by
        cases as with
        | nil => exact hrest
        | cons => exact hrest.1
      have hok : ok s a := by
        by_contra hno
        exact hend s a s1 hI hbase.1 hno h1 hP1
      exact ⟨hok, (ih (hkeep s a s1 hI hbase.1 hok h1) hbase.2 h2).1 hrest⟩
    · rintro ⟨hok, hrest⟩
      exact ⟨hP s hI, (ih (hkeep s a s1 hI hbase.1 hok h1) hbase.2 h2).2 hrest⟩

/-- **When `P` holds throughout a run**, whatever its steps. -/
theorem always_iff {I P : σ → Prop} (hP : ∀ s, I s → P s)
    (hkeep : ∀ s a s', I s → ok s a → M.step s a = some s' → I s')
    (hend : ∀ s a s', I s → ¬ ok s a → M.step s a = some s' → ¬ P s') (as : List α)
    {s s' : σ} (hI : I s) (he : M.exec s as = some s') :
    M.Always P s as ↔ M.Allowed ok s as :=
  always_iff_of_allowed (B := fun _ _ => True) hP (fun s a s' hI _ => hkeep s a s' hI)
    (fun s a s' hI _ => hend s a s' hI) as hI (allowed_of (fun _ _ => trivial) as s) he

theorem Reachable.exec {s s' : σ} (as : List α) (h : M.Reachable s) (he : M.exec s as = some s') :
    M.Reachable s' := ReachableIf.exec as h (allowed_of (fun _ _ => trivial) as s) he

end Machine
