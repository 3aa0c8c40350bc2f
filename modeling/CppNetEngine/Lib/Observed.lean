import CppNetEngine.Lib.Stacks

/-!
# Observed runs

What happens in a run, as a list: every step adds what `see` says of it. A run is observed in one
way only, and every reachable state is that of an observed run (`ReachableIf.observed`), so a
theorem about observed runs is one about all runs. `Threads.observed` and `Stacks.observed` are the
invariant rules for threads, and for threads with stacks.
-/

namespace Machine

variable {σ α ω : Type*} (M : Machine σ α) (ok : σ → α → Prop) (see : σ → α → List ω)

/-- The states that runs reach whose steps all meet `ok`, with what was seen on the way. -/
inductive Observed : List ω → σ → Prop
  | init {s : σ} : M.init s → Observed [] s
  | step {l : List ω} {s s' : σ} {a : α} : Observed l s → ok s a → M.step s a = some s' →
      Observed (l ++ see s a) s'

/-- What is seen while the actions are taken. -/
def watch (s : σ) : List α → List ω
  | [] => []
  | a :: as => see s a ++ (match M.step s a with | none => [] | some s' => watch s' as)

variable {M ok see}

theorem Observed.reachableIf {l : List ω} {s : σ} (h : M.Observed ok see l s) :
    M.ReachableIf ok s := by
  induction h with
  | init h => exact .init h
  | step _ hok hs ih => exact .step ih hok hs

theorem ReachableIf.observed {s : σ} (h : M.ReachableIf ok s) : ∃ l, M.Observed ok see l s := by
  induction h with
  | init h => exact ⟨[], .init h⟩
  | step _ hok hs ih =>
    obtain ⟨l, hl⟩ := ih
    exact ⟨_, .step hl hok hs⟩

theorem Observed.mono {ok' : σ → α → Prop} (hok : ∀ s a, ok s a → ok' s a) {l : List ω} {s : σ}
    (h : M.Observed ok see l s) : M.Observed ok' see l s := by
  induction h with
  | init h => exact .init h
  | step _ ha hs ih => exact .step ih (hok _ _ ha) hs

/-- Only the steps that are taken matter. -/
theorem Observed.mono_of_step {ok' : σ → α → Prop}
    (hok : ∀ s a s', ok s a → M.step s a = some s' → ok' s a) {l : List ω} {s : σ}
    (h : M.Observed ok see l s) : M.Observed ok' see l s := by
  induction h with
  | init h => exact .init h
  | step _ ha hs ih => exact .step ih (hok _ _ _ ha hs) hs

theorem Observed.exec (as : List α) : ∀ {l : List ω} {s s' : σ}, M.Observed ok see l s →
    M.Allowed ok s as → M.exec s as = some s' → M.Observed ok see (l ++ M.watch see s as) s' := by
  induction as with
  | nil =>
    intro l s s' h _ he
    cases he
    rw [watch, List.append_nil]
    exact h
  | cons a as ih =>
    intro l s s' h ha he
    obtain ⟨hok, hrest⟩ := ha
    obtain ⟨s1, h1, h2⟩ := Option.bind_eq_some_iff.1 he
    rw [h1] at hrest
    rw [watch, h1, ← List.append_assoc]
    exact ih (.step h hok h1) hrest h2

/-- Who sees some of what another sees, sees some of the run. -/
theorem Observed.filterMap {ω' : Type*} {see' : σ → α → List ω'} {g : ω → Option ω'}
    (hsee : ∀ s a, see' s a = (see s a).filterMap g) {l : List ω} {s : σ}
    (h : M.Observed ok see l s) : M.Observed ok see' (l.filterMap g) s := by
  induction h with
  | init h => exact .init h
  | step _ hok hs ih =>
    rw [List.filterMap_append, ← hsee]
    exact .step ih hok hs

/-- **When all that is seen of a run is right**: if what a step from a reachable state shows is
right exactly when the step meets `ok`, then what a run shows is right exactly when its steps do. -/
theorem watch_forall_iff {P : ω → Prop} (h : ∀ s a s', M.Reachable s → M.step s a = some s' →
    ((∀ e ∈ see s a, P e) ↔ ok s a)) (as : List α) : ∀ {s s' : σ}, M.Reachable s →
    M.exec s as = some s' → ((∀ e ∈ M.watch see s as, P e) ↔ M.Allowed ok s as) := by
  induction as with
  | nil => exact fun _ _ => ⟨fun _ => trivial, fun _ _ he => nomatch he⟩
  | cons a as ih =>
    intro s s' hr he
    obtain ⟨s1, h1, h2⟩ := Option.bind_eq_some_iff.1 he
    have hrest := ih (.step hr trivial h1) h2
    simp only [watch, Allowed, h1, List.forall_mem_append]
    rw [h s a s1 hr h1, hrest]

end Machine

namespace Threads

variable {τ L σ α ε ω : Type*} [DecidableEq τ] {act : τ → α → σ → L → Option (σ × L)}
  {env : ε → σ → Option σ} {init : Threads τ L σ → Prop}
  {ok : Threads τ L σ → τ → α → Prop} {okEnv : σ → ε → Prop}
  {see : Threads τ L σ → ThreadAction τ α ε → List ω}

/-- **The invariant rule for observed runs**, one case for the actions of threads and one for the
outside. -/
theorem observed {I : List ω → Threads τ L σ → Prop} (hinit : ∀ s, init s → I [] s)
    (hact : ∀ (l : List ω) (s : Threads τ L σ) (t : τ) (a : α) (shared : σ) (loc : L), I l s →
      ok s t a → act t a s.shared (s.locals t) = some (shared, loc) →
      I (l ++ see s (.thread t a)) (s.set t shared loc))
    (henv : ∀ (l : List ω) (s : Threads τ L σ) (e : ε) (shared : σ), I l s → okEnv s.shared e →
      env e s.shared = some shared → I (l ++ see s (.env e)) { s with shared := shared })
    {l : List ω} {s : Threads τ L σ}
    (h : (machine act env init).Observed (Guard ok okEnv) see l s) : I l s := by
  induction h with
  | init h => exact hinit _ h
  | step _ hok hs ih =>
    obtain ⟨t, b, shared, loc, rfl, hb, rfl⟩ | ⟨e, shared, rfl, he, rfl⟩ := step_cases hs
    · exact hact _ _ t b shared loc ih hok hb
    · exact henv _ _ e shared ih hok he

end Threads

namespace Stacks

variable {τ F σ κ ν ω : Type*} [DecidableEq τ]
  {enter : κ → σ → List F → Option (σ × F)} {step : τ → ν → σ → F → Option (σ × List F)}
  {init : Threads τ (List F) σ → Prop}
  {ok : Threads τ (List F) σ → τ → StackAction κ ν → Prop}

/-- What is seen of a step: of a call, and of the frame that takes a step. -/
def see (seeCall : σ → κ → List ω) (seeNext : σ → ν → F → List ω) (s : Threads τ (List F) σ) :
    ThreadAction τ (StackAction κ ν) Empty → List ω
  | .thread _ (.call c) => seeCall s.shared c
  | .thread t (.next k) => match s.locals t with
    | [] => []
    | f :: _ => seeNext s.shared k f

variable (enter step init ok) in
/-- The states of the runs in which every action meets `ok`, with what was seen on the way. -/
abbrev Observed (seeCall : σ → κ → List ω) (seeNext : σ → ν → F → List ω) :
    List ω → Threads τ (List F) σ → Prop :=
  (machine enter step init).Observed (Threads.Guard ok fun _ _ => True) (see seeCall seeNext)

variable {seeCall : σ → κ → List ω} {seeNext : σ → ν → F → List ω}

theorem Observed.filterMap {ω' : Type*} {seeCall' : σ → κ → List ω'}
    {seeNext' : σ → ν → F → List ω'} {g : ω → Option ω'}
    (hcall : ∀ s c, seeCall' s c = (seeCall s c).filterMap g)
    (hnext : ∀ s k f, seeNext' s k f = (seeNext s k f).filterMap g)
    {l : List ω} {s : Threads τ (List F) σ}
    (h : Observed enter step init ok seeCall seeNext l s) :
    Observed enter step init ok seeCall' seeNext' (l.filterMap g) s := by
  refine Machine.Observed.filterMap (fun s a => ?_) h
  cases a with
  | env e => exact e.elim
  | thread t a =>
    cases a with
    | call c => exact hcall s.shared c
    | next k =>
      simp only [see]
      split
      · rfl
      · exact hnext s.shared k _

/-- **The invariant rule for observed runs**, one case for calls and one for the steps of
frames. -/
theorem observed {I : List ω → Threads τ (List F) σ → Prop} (hinit : ∀ s, init s → I [] s)
    (hcall : ∀ (l : List ω) (s : Threads τ (List F) σ) (t : τ) (c : κ) (shared : σ) (f : F),
      Observed enter step init ok seeCall seeNext l s → I l s → ok s t (.call c) →
      enter c s.shared (s.locals t) = some (shared, f) →
      I (l ++ seeCall s.shared c) (s.set t shared (f :: s.locals t)))
    (hnext : ∀ (l : List ω) (s : Threads τ (List F) σ) (t : τ) (k : ν) (shared : σ) (f : F)
      (rest new : List F), Observed enter step init ok seeCall seeNext l s → I l s →
      ok s t (.next k) → s.locals t = f :: rest → step t k s.shared f = some (shared, new) →
      I (l ++ seeNext s.shared k f) (s.set t shared (new ++ rest)))
    {l : List ω} {s : Threads τ (List F) σ}
    (h : Observed enter step init ok seeCall seeNext l s) : I l s := by
  induction h with
  | init h => exact hinit _ h
  | step hr hok hs ih =>
    obtain ⟨t, b, shared, fs, rfl, hact, rfl⟩ | ⟨e, -⟩ := Threads.step_cases hs
    · obtain ⟨c, f, rfl, hc, rfl⟩ | ⟨k, f, rest, new, rfl, hfs, hk, rfl⟩ := act_cases hact
      · exact hcall _ _ t c shared f hr ih hok hc
      · have := hnext _ _ t k shared f rest new hr ih hok hfs hk
        simp only [see, hfs]
        exact this
    · exact e.elim

end Stacks
