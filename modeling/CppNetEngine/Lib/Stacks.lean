import CppNetEngine.Lib.Threads
import Mathlib.Data.Fintype.Defs

/-!
# Threads with stacks

A thread whose local state is a stack of frames: what it still has to do, innermost first. It calls
a function, which puts a frame on its stack, or its innermost frame takes a step, which leaves
frames in its place. `Stacks.invariant` is the invariant rule, and `Stacks.always_iff` says which
runs keep a property throughout. `HasFrame` says that some thread still has a frame of some kind to
come back to; it ends only with a step of such a frame.
-/

/-- A thread calls a function, or goes on with its innermost frame. -/
inductive StackAction (κ ν : Type*)
  | call (c : κ)
  | next (k : ν)

namespace Stacks

variable {τ F σ κ ν : Type*} [DecidableEq τ]
  (enter : κ → σ → List F → Option (σ × F)) (step : τ → ν → σ → F → Option (σ × List F))
  (init : Threads τ (List F) σ → Prop)

/-- What a thread's action does to the shared state and to its stack. -/
def act (t : τ) : StackAction κ ν → σ → List F → Option (σ × List F)
  | .call c, s, fs => (enter c s fs).map fun r => (r.1, r.2 :: fs)
  | .next _, _, [] => none
  | .next k, s, f :: fs => (step t k s f).map fun r => (r.1, r.2 ++ fs)

/-- The machine of the threads. Nothing happens outside of them. -/
def machine : Machine (Threads τ (List F) σ) (ThreadAction τ (StackAction κ ν) Empty) :=
  Threads.machine (act enter step) (fun e _ => e.elim) init

variable {enter step init} {ok : Threads τ (List F) σ → τ → StackAction κ ν → Prop}

/-- The states of the runs in which every action meets `ok`. -/
abbrev RunsTo (enter : κ → σ → List F → Option (σ × F))
    (step : τ → ν → σ → F → Option (σ × List F)) (init : Threads τ (List F) σ → Prop)
    (ok : Threads τ (List F) σ → τ → StackAction κ ν → Prop) (s : Threads τ (List F) σ) : Prop :=
  (machine enter step init).ReachableIf (Threads.Guard ok fun _ _ => True) s

omit [DecidableEq τ] in
theorem act_cases {t : τ} {a : StackAction κ ν} {s s' : σ} {fs fs' : List F}
    (h : act enter step t a s fs = some (s', fs')) :
    (∃ c f, a = .call c ∧ enter c s fs = some (s', f) ∧ fs' = f :: fs) ∨
    ∃ k f rest new, a = .next k ∧ fs = f :: rest ∧ step t k s f = some (s', new) ∧
      fs' = new ++ rest := by
  cases a with
  | call c =>
    obtain ⟨⟨shared, f⟩, hc, he⟩ := Option.map_eq_some_iff.1 h
    cases he
    exact .inl ⟨c, f, rfl, hc, rfl⟩
  | next k =>
    cases fs with
    | nil => cases h
    | cons f rest =>
      obtain ⟨⟨shared, new⟩, hk, he⟩ := Option.map_eq_some_iff.1 h
      cases he
      exact .inr ⟨k, f, rest, new, rfl, rfl, hk, rfl⟩

/-! ## The innermost frame -/

section Innermost

variable {s : Threads τ (List F) σ} {t : τ} {f : F} {rest : List F}

omit [DecidableEq τ] in
theorem mem_locals (ht : s.locals t = f :: rest) : f ∈ s.locals t := by
  rw [ht]
  exact List.mem_cons_self

omit [DecidableEq τ] in
theorem forall_head {P : F → Prop} (ht : s.locals t = f :: rest) :
    (∀ g ∈ (s.locals t).head?, P g) ↔ P f := by
  rw [ht, List.head?_cons]
  exact ⟨fun h => h f rfl, fun hf g hg => Option.some.inj hg ▸ hf⟩

end Innermost

/-! ## Invariants -/

/-- **The invariant rule** where something may happen outside of the threads, too. -/
theorem invariant_env {ε : Type*} {env : ε → σ → Option σ} {okEnv : σ → ε → Prop}
    {I : Threads τ (List F) σ → Prop} (hinit : ∀ s, init s → I s)
    (hcall : ∀ (s : Threads τ (List F) σ) (t : τ) (c : κ) (shared : σ) (f : F), I s →
      ok s t (.call c) → enter c s.shared (s.locals t) = some (shared, f) →
      I (s.set t shared (f :: s.locals t)))
    (hnext : ∀ (s : Threads τ (List F) σ) (t : τ) (k : ν) (shared : σ) (f : F) (rest new : List F),
      I s → ok s t (.next k) → s.locals t = f :: rest → step t k s.shared f = some (shared, new) →
      I (s.set t shared (new ++ rest)))
    (henv : ∀ (s : Threads τ (List F) σ) (e : ε) (shared : σ), I s → okEnv s.shared e →
      env e s.shared = some shared → I { s with shared := shared })
    {s : Threads τ (List F) σ}
    (h : (Threads.machine (act enter step) env init).ReachableIf (Threads.Guard ok okEnv) s) :
    I s := by
  refine Threads.invariant hinit ?_ henv h
  intro s t a shared fs hI hok hact
  obtain ⟨c, f, rfl, hc, rfl⟩ | ⟨k, f, rest, new, rfl, hfs, hk, rfl⟩ := act_cases hact
  · exact hcall s t c shared f hI hok hc
  · exact hnext s t k shared f rest new hI hok hfs hk

/-- **The invariant rule**, one case for calls and one for the steps of frames. -/
theorem invariant {I : Threads τ (List F) σ → Prop} (hinit : ∀ s, init s → I s)
    (hcall : ∀ (s : Threads τ (List F) σ) (t : τ) (c : κ) (shared : σ) (f : F), I s →
      ok s t (.call c) → enter c s.shared (s.locals t) = some (shared, f) →
      I (s.set t shared (f :: s.locals t)))
    (hnext : ∀ (s : Threads τ (List F) σ) (t : τ) (k : ν) (shared : σ) (f : F) (rest new : List F),
      I s → ok s t (.next k) → s.locals t = f :: rest → step t k s.shared f = some (shared, new) →
      I (s.set t shared (new ++ rest)))
    {s : Threads τ (List F) σ} (h : RunsTo enter step init ok s) : I s :=
  invariant_env hinit hcall hnext (fun _ e => e.elim) h

/-- **When `P` holds throughout a run**: an invariant of the actions that meet `ok` implies it, and
all other actions end it. -/
theorem always_iff {ε : Type*} {env : ε → σ → Option σ} {I P : Threads τ (List F) σ → Prop}
    (hP : ∀ s, I s → P s)
    (hcall : ∀ (s : Threads τ (List F) σ) (t : τ) (c : κ) (shared : σ) (f : F), I s →
      ok s t (.call c) → enter c s.shared (s.locals t) = some (shared, f) →
      I (s.set t shared (f :: s.locals t)))
    (hnext : ∀ (s : Threads τ (List F) σ) (t : τ) (k : ν) (shared : σ) (f : F) (rest new : List F),
      I s → ok s t (.next k) → s.locals t = f :: rest → step t k s.shared f = some (shared, new) →
      I (s.set t shared (new ++ rest)))
    (henv : ∀ (s : Threads τ (List F) σ) (e : ε) (shared : σ), I s →
      env e s.shared = some shared → I { s with shared := shared })
    (hend : ∀ (s : Threads τ (List F) σ) (t : τ) (a : StackAction κ ν) (shared : σ) (fs : List F),
      I s → ¬ ok s t a → act enter step t a s.shared (s.locals t) = some (shared, fs) →
      ¬ P (s.set t shared fs))
    (as : List (ThreadAction τ (StackAction κ ν) ε)) {s s' : Threads τ (List F) σ} (hI : I s)
    (h : (Threads.machine (act enter step) env init).exec s as = some s') :
    (Threads.machine (act enter step) env init).Always P s as ↔
      (Threads.machine (act enter step) env init).Allowed (Threads.Guard ok fun _ _ => True)
        s as := by
  refine Machine.always_iff hP (fun s a s' hI hok hs => ?_) (fun s a s' hI hno hs => ?_) as hI h
  · obtain ⟨t, b, shared, fs, rfl, hact, rfl⟩ | ⟨e, shared, rfl, he, rfl⟩ := Threads.step_cases hs
    · obtain ⟨c, f, rfl, hc, rfl⟩ | ⟨k, f, rest, new, rfl, hfs, hk, rfl⟩ := act_cases hact
      · exact hcall s t c shared f hI hok hc
      · exact hnext s t k shared f rest new hI hok hfs hk
    · exact henv s e shared hI he
  · obtain ⟨t, b, shared, fs, rfl, hact, rfl⟩ | ⟨e, shared, rfl, he, rfl⟩ := Threads.step_cases hs
    · exact hend s t b shared fs hI hno hact
    · exact absurd trivial hno

/-! ## Frames on some stack -/

/-- Some thread has a frame with `P` on its stack. -/
def HasFrame (s : Threads τ (List F) σ) (P : F → Prop) : Prop := ∃ t, ∃ f ∈ s.locals t, P f

instance [Fintype τ] (s : Threads τ (List F) σ) (P : F → Prop) [DecidablePred P] :
    Decidable (HasFrame s P) :=
  inferInstanceAs (Decidable (∃ t, ∃ f ∈ s.locals t, P f))

namespace HasFrame

variable {s : Threads τ (List F) σ} {P Q : F → Prop} {t : τ} {shared : σ} {f : F}
  {fs rest new : List F}

omit [DecidableEq τ] in
theorem imp (h : HasFrame s P) (hPQ : ∀ f, P f → Q f) : HasFrame s Q := by
  obtain ⟨t, f, hf, hP⟩ := h
  exact ⟨t, f, hf, hPQ f hP⟩

omit [DecidableEq τ] in
theorem of_innermost (ht : s.locals t = f :: rest) (hP : P f) : HasFrame s P :=
  ⟨t, f, mem_locals ht, hP⟩

omit [DecidableEq τ] in
theorem not_of_idle (hidle : ∀ t, s.locals t = []) : ¬ HasFrame s P := by
  rintro ⟨t, f, hf, -⟩
  rw [hidle t] at hf
  cases hf

theorem of_mem (hf : f ∈ fs) (hP : P f) : HasFrame (s.set t shared fs) P :=
  ⟨t, f, by rw [Threads.set_self]; exact hf, hP⟩

theorem push (h : HasFrame s P) : HasFrame (s.set t shared (f :: s.locals t)) P := by
  obtain ⟨u, g, hg, hP⟩ := h
  by_cases hu : u = t
  · subst hu
    exact of_mem (List.mem_cons_of_mem _ hg) hP
  · exact ⟨u, g, by rw [Threads.set_other _ _ _ _ hu]; exact hg, hP⟩

theorem next (h : HasFrame s P) (ht : s.locals t = f :: rest) :
    P f ∨ HasFrame (s.set t shared (new ++ rest)) P := by
  obtain ⟨u, g, hg, hP⟩ := h
  by_cases hu : u = t
  · subst hu
    rw [ht] at hg
    rcases List.mem_cons.1 hg with rfl | hg
    · exact .inl hP
    · exact .inr (of_mem (List.mem_append_right _ hg) hP)
  · exact .inr ⟨u, g, by rw [Threads.set_other _ _ _ _ hu]; exact hg, hP⟩

theorem of_push (h : HasFrame (s.set t shared (f :: s.locals t)) P) : P f ∨ HasFrame s P := by
  obtain ⟨u, g, hg, hP⟩ := h
  by_cases hu : u = t
  · subst hu
    rw [Threads.set_self] at hg
    rcases List.mem_cons.1 hg with rfl | hg
    · exact .inl hP
    · exact .inr ⟨u, g, hg, hP⟩
  · rw [Threads.set_other _ _ _ _ hu] at hg
    exact .inr ⟨u, g, hg, hP⟩

theorem of_next (h : HasFrame (s.set t shared (new ++ rest)) P) (ht : s.locals t = f :: rest) :
    HasFrame s P ∨ ∃ g ∈ new, P g := by
  obtain ⟨u, g, hg, hP⟩ := h
  by_cases hu : u = t
  · subst hu
    rw [Threads.set_self] at hg
    rcases List.mem_append.1 hg with hg | hg
    · exact .inr ⟨g, hg, hP⟩
    · exact .inl ⟨u, g, ht ▸ List.mem_cons_of_mem f hg, hP⟩
  · rw [Threads.set_other _ _ _ _ hu] at hg
    exact .inl ⟨u, g, hg, hP⟩

theorem push_iff (hf : ¬ P f) :
    HasFrame (s.set t shared (f :: s.locals t)) P ↔ HasFrame s P :=
  ⟨fun h => h.of_push.resolve_left hf, push⟩

theorem next_iff (ht : s.locals t = f :: rest) (hf : ¬ P f) (hnew : ∀ g ∈ new, ¬ P g) :
    HasFrame (s.set t shared (new ++ rest)) P ↔ HasFrame s P := by
  refine ⟨fun h => ?_, fun h => (h.next ht).resolve_left hf⟩
  rcases h.of_next ht with h | ⟨g, hg, hP⟩
  · exact h
  · exact absurd hP (hnew g hg)

theorem of_append (h : HasFrame (s.set t shared (new ++ rest)) P) :
    (∃ g ∈ new, P g) ∨ HasFrame (s.set t shared rest) P := by
  obtain ⟨u, g, hg, hP⟩ := h
  by_cases hu : u = t
  · subst hu
    rw [Threads.set_self] at hg
    rcases List.mem_append.1 hg with hg | hg
    · exact .inl ⟨g, hg, hP⟩
    · exact .inr (of_mem hg hP)
  · rw [Threads.set_other _ _ _ _ hu] at hg
    exact .inr ⟨u, g, by rw [Threads.set_other _ _ _ _ hu]; exact hg, hP⟩

theorem prepend {shared' : σ} (h : HasFrame (s.set t shared' rest) P) :
    HasFrame (s.set t shared (new ++ rest)) P := by
  obtain ⟨u, g, hg, hP⟩ := h
  by_cases hu : u = t
  · subst hu
    rw [Threads.set_self] at hg
    exact of_mem (List.mem_append_right _ hg) hP
  · rw [Threads.set_other _ _ _ _ hu] at hg
    exact ⟨u, g, by rw [Threads.set_other _ _ _ _ hu]; exact hg, hP⟩

/-- What needs a frame with `P` has one after a call, if it had one or the call brings one. -/
theorem of_call {A A' : Prop} (h : A → HasFrame s P) (hf : A' → P f ∨ A) (hA : A') :
    HasFrame (s.set t shared (f :: s.locals t)) P := by
  rcases hf hA with hP | hA
  · exact of_mem List.mem_cons_self hP
  · exact (h hA).push

/-- What needs a frame with `P` has one after a step, if the step leaves one, or if it had one and
that is not the one that took the step. -/
theorem of_step {A A' : Prop} (h : A → HasFrame s P) (ht : s.locals t = f :: rest)
    (hf : A' → (∃ g ∈ new, P g) ∨ (A ∧ ¬ P f)) (hA : A') :
    HasFrame (s.set t shared (new ++ rest)) P := by
  rcases hf hA with ⟨g, hg, hP⟩ | ⟨hA, hP⟩
  · exact of_mem (List.mem_append_left _ hg) hP
  · exact ((h hA).next ht).resolve_left hP

end HasFrame

end Stacks
