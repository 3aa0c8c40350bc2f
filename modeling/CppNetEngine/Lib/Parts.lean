import CppNetEngine.Lib.Observed

/-!
# Parts of threads

A machine of threads that is put together from smaller ones: `Threads.part` is what one of them sees
of the shared state and of the local states. If every step of the whole leaves the part as it is or
is one of its own, then the runs of the whole are, for the part, runs of its own machine
(`Threads.observed_part`), so that what was proved of it holds in the whole.
-/

namespace Threads

variable {τ L L' σ σ' α α' ε ε' ω ω' : Type*}

/-- What a part sees. -/
def part (f : σ → σ') (g : L → L') (s : Threads τ L σ) : Threads τ L' σ' :=
  ⟨f s.shared, fun t => g (s.locals t)⟩

section Part

variable {f : σ → σ'} {g : L → L'} {s : Threads τ L σ} {t : τ} {shared : σ} {l : L}

@[simp] theorem part_shared : (s.part f g).shared = f s.shared := rfl

@[simp] theorem part_locals : (s.part f g).locals t = g (s.locals t) := rfl

variable [DecidableEq τ]

theorem part_set : (s.set t shared l).part f g = (s.part f g).set t (f shared) (g l) := by
  refine congrArg (Threads.mk (f shared)) (funext fun u => ?_)
  by_cases hu : u = t
  · subst hu
    rw [set_self, Function.update_self]
  · rw [set_other _ _ _ _ hu, Function.update_of_ne hu]
    rfl

theorem part_set_eq (hshared : f shared = f s.shared) (hlocal : g l = g (s.locals t)) :
    (s.set t shared l).part f g = s.part f g := by
  rw [part_set, hshared, hlocal]
  exact set_eta _ _

end Part

variable [DecidableEq τ] {f : σ → σ'} {g : L → L'} {pick : ω → Option ω'}
  {act : τ → α → σ → L → Option (σ × L)} {env : ε → σ → Option σ} {init : Threads τ L σ → Prop}
  {ok : Threads τ L σ → τ → α → Prop} {okEnv : σ → ε → Prop}
  {see : Threads τ L σ → ThreadAction τ α ε → List ω}
  {act' : τ → α' → σ' → L' → Option (σ' × L')} {env' : ε' → σ' → Option σ'}
  {init' : Threads τ L' σ' → Prop} {ok' : Threads τ L' σ' → τ → α' → Prop}
  {okEnv' : σ' → ε' → Prop} {see' : Threads τ L' σ' → ThreadAction τ α' ε' → List ω'}

theorem observed_part (hinit : ∀ s, init s → init' (s.part f g))
    (hact : ∀ s t a shared l, (machine act env init).ReachableIf (Guard ok okEnv) s → ok s t a →
      act t a s.shared (s.locals t) = some (shared, l) →
      (f shared = f s.shared ∧ g l = g (s.locals t) ∧
        (see s (.thread t a)).filterMap pick = []) ∨
      ∃ b, ok' (s.part f g) t b ∧
        act' t b (f s.shared) (g (s.locals t)) = some (f shared, g l) ∧
        see' (s.part f g) (.thread t b) = (see s (.thread t a)).filterMap pick)
    (henv : ∀ s e shared, okEnv s.shared e → env e s.shared = some shared →
      (f shared = f s.shared ∧ (see s (.env e)).filterMap pick = []) ∨
      ∃ e', okEnv' (f s.shared) e' ∧ env' e' (f s.shared) = some (f shared) ∧
        see' (s.part f g) (.env e') = (see s (.env e)).filterMap pick)
    {l : List ω} {s : Threads τ L σ}
    (h : (machine act env init).Observed (Guard ok okEnv) see l s) :
    (machine act' env' init').Observed (Guard ok' okEnv') see' (l.filterMap pick)
      (s.part f g) := by
  induction h with
  | init h => exact .init (hinit _ h)
  | @step l s s' a hrun hok hs ih =>
    rw [List.filterMap_append]
    obtain ⟨t, b, shared, loc, rfl, hb, rfl⟩ | ⟨e, shared, rfl, he, rfl⟩ := step_cases hs
    · obtain ⟨hshared, hlocal, hsee⟩ | ⟨b', hok', hb', hsee⟩ :=
        hact s t b shared loc hrun.reachableIf hok hb
      · rw [hsee, List.append_nil, part_set_eq hshared hlocal]
        exact ih
      · rw [← hsee, part_set]
        refine .step (a := .thread t b') ih ?_ ?_
        · exact hok'
        · exact congrArg (Option.map fun r => (s.part f g).set t r.1 r.2) hb'
    · obtain ⟨hshared, hsee⟩ | ⟨e', hok', he', hsee⟩ := henv s e shared hok he
      · have hpart : ({ s with shared := shared } : Threads τ L σ).part f g = s.part f g :=
          congrArg (fun m => Threads.mk m fun t => g (s.locals t)) hshared
        rw [hsee, List.append_nil, hpart]
        exact ih
      · rw [← hsee]
        refine .step (a := .env e') ih ?_ ?_
        · exact hok'
        · exact congrArg (Option.map fun m => { s.part f g with shared := m }) he'

theorem reachable_part (hinit : ∀ s, init s → init' (s.part f g))
    (hact : ∀ s t a shared l, (machine act env init).ReachableIf (Guard ok okEnv) s → ok s t a →
      act t a s.shared (s.locals t) = some (shared, l) →
      (f shared = f s.shared ∧ g l = g (s.locals t)) ∨
      ∃ b, ok' (s.part f g) t b ∧ act' t b (f s.shared) (g (s.locals t)) = some (f shared, g l))
    (henv : ∀ (s : Threads τ L σ) e shared, okEnv s.shared e → env e s.shared = some shared →
      f shared = f s.shared ∨
      ∃ e', okEnv' (f s.shared) e' ∧ env' e' (f s.shared) = some (f shared))
    {s : Threads τ L σ} (h : (machine act env init).ReachableIf (Guard ok okEnv) s) :
    (machine act' env' init').ReachableIf (Guard ok' okEnv') (s.part f g) := by
  obtain ⟨l, hl⟩ : ∃ l : List Empty, (machine act env init).Observed (Guard ok okEnv)
    (fun _ _ => []) l s := h.observed
  have hpart : (machine act' env' init').Observed (Guard ok' okEnv') (fun _ _ => ([] : List Empty))
      (l.filterMap some) (s.part f g) := by
    refine observed_part hinit ?_ ?_ hl
    · intro s t a shared l hr hok ha
      obtain ⟨hshared, hlocal⟩ | ⟨b, hb, hact⟩ := hact s t a shared l hr hok ha
      · exact .inl ⟨hshared, hlocal, rfl⟩
      · exact .inr ⟨b, hb, hact, rfl⟩
    · intro s e shared hok he
      obtain hshared | ⟨e', he', henv⟩ := henv s e shared hok he
      · exact .inl ⟨hshared, rfl⟩
      · exact .inr ⟨e', he', henv, rfl⟩
  exact hpart.reachableIf

end Threads
