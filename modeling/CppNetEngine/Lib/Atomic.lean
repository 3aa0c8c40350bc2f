import CppNetEngine.Lib.Totals
import Mathlib.Data.List.Count
import Mathlib.Data.List.Perm.Subperm

/-!
# Atomic objects

An object that threads call, and that answers each call at one moment between the call and its
return. `Answers` says which answers an object may give, and what is in it afterwards; `Moves` are
its runs. A history of calls and returns is linearizable if it is that of such a run, and
`Threads.linearizable` is the rule by which the calls of a program are shown to be so: each step of a
thread is one that an atomic object can follow (`Does`). What was answered is what was returned, but for the calls
in progress (`Moves.returned_subperm`, `Moves.returned_perm`).
-/

/-- What others see of a call. -/
inductive CallEvent (τ κ ρ : Type*)
  | call (t : τ) (c : κ)
  | ret (t : τ) (c : κ) (r : ρ)

def CallEvent.IsRet {τ κ ρ : Type*} : CallEvent τ κ ρ → Prop
  | .ret _ _ _ => True
  | .call _ _ => False

/-- Where a call is. -/
inductive Phase (κ ρ : Type*)
  | idle
  | called (c : κ)
  | answered (c : κ) (r : ρ)

/-- The thread has this answer, and has not returned. -/
def Phase.answers {κ ρ : Type*} [DecidableEq (κ × ρ)] (x : κ × ρ) : Phase κ ρ → Nat
  | .answered c r => if (c, r) = x then 1 else 0
  | _ => 0

namespace AtomicObject

/-- Whether the call of a thread can be answered, and what is in the object then. -/
abbrev Answers (τ κ ρ υ : Type*) := Threads τ (Phase κ ρ) υ → τ → κ → ρ → υ → Prop

variable {τ κ ρ υ : Type*}

/-- An object that nobody has called. -/
def fresh (τ κ ρ : Type*) {υ : Type*} (v : υ) : Threads τ (Phase κ ρ) υ := ⟨v, fun _ => .idle⟩

/-- The calls that have returned, with what they returned. -/
def returned (h : List (CallEvent τ κ ρ)) : List (κ × ρ) :=
  h.filterMap fun
    | .call _ _ => none
    | .ret _ c r => some (c, r)

theorem returned_append (h h' : List (CallEvent τ κ ρ)) :
    returned (h ++ h') = returned h ++ returned h' := List.filterMap_append

variable [DecidableEq τ]

/-- The runs of an object: the calls and returns, and the answers in the order in which they were
given. -/
inductive Moves (answers : Answers τ κ ρ υ) (o : Threads τ (Phase κ ρ) υ) :
    List (CallEvent τ κ ρ) → List (κ × ρ) → Threads τ (Phase κ ρ) υ → Prop
  | refl : Moves answers o [] [] o
  | call {h : List (CallEvent τ κ ρ)} {e : List (κ × ρ)} {o' : Threads τ (Phase κ ρ) υ} {t : τ}
      (c : κ) : Moves answers o h e o' → o'.locals t = .idle →
      Moves answers o (h ++ [.call t c]) e (o'.set t o'.shared (.called c))
  | answer {h : List (CallEvent τ κ ρ)} {e : List (κ × ρ)} {o' : Threads τ (Phase κ ρ) υ} {t : τ}
      {c : κ} {r : ρ} {v : υ} : Moves answers o h e o' → o'.locals t = .called c →
      answers o' t c r v → Moves answers o h (e ++ [(c, r)]) (o'.set t v (.answered c r))
  | ret {h : List (CallEvent τ κ ρ)} {e : List (κ × ρ)} {o' : Threads τ (Phase κ ρ) υ} {t : τ}
      {c : κ} {r : ρ} : Moves answers o h e o' → o'.locals t = .answered c r →
      Moves answers o (h ++ [.ret t c r]) e (o'.set t o'.shared .idle)

namespace Moves

variable {answers : Answers τ κ ρ υ} {o o₁ o₂ : Threads τ (Phase κ ρ) υ}
  {h h' : List (CallEvent τ κ ρ)} {e e' : List (κ × ρ)}

theorem trans (h₁ : Moves answers o h e o₁) (h₂ : Moves answers o₁ h' e' o₂) :
    Moves answers o (h ++ h') (e ++ e') o₂ := by
  induction h₂ with
  | refl =>
    rw [List.append_nil, List.append_nil]
    exact h₁
  | call c _ hidle ih =>
    rw [← List.append_assoc]
    exact .call c ih hidle
  | answer _ hcalled hanswers ih =>
    rw [← List.append_assoc]
    exact .answer ih hcalled hanswers
  | ret _ hanswered ih =>
    rw [← List.append_assoc]
    exact .ret ih hanswered

/-- **What every answer keeps** holds of all that was answered and of what is in the object. -/
theorem invariant {I : List (κ × ρ) → υ → Prop} (hstart : I [] o.shared)
    (hanswer : ∀ e o' t c r v, I e o'.shared → answers o' t c r v → I (e ++ [(c, r)]) v)
    (hm : Moves answers o h e o₁) : I e o₁.shared := by
  induction hm with
  | refl => exact hstart
  | call _ _ _ ih => exact ih
  | answer _ _ hanswers ih => exact hanswer _ _ _ _ _ _ ih hanswers
  | ret _ _ ih => exact ih

/-! ## Answers and returns -/

/-- An answer was returned once for each time that it was given, but for the calls in progress. -/
theorem count_returned [DecidableEq (κ × ρ)] {v : υ} (x : κ × ρ)
    (hm : Moves answers (fresh τ κ ρ v) h e o₁) : ∃ n,
      Threads.Total o₁ (Phase.answers x) n ∧ e.count x = (returned h).count x + n := by
  induction hm with
  | refl => exact ⟨0, .zero fun _ => rfl, rfl⟩
  | @call h e o' t c _ hidle ih =>
    obtain ⟨n, htotal, hn⟩ := ih
    refine ⟨n, htotal.set (by rw [hidle]; rfl), ?_⟩
    rw [hn, returned_append]
    exact (congrArg (List.count x · + n) (List.append_nil _)).symm
  | @answer h e o' t c r v _ hcalled _ ih =>
    obtain ⟨n, htotal, hn⟩ := ih
    refine ⟨n + Phase.answers x (.answered c r), htotal.set (by rw [hcalled]; rfl), ?_⟩
    rw [List.count_append, hn, List.count_singleton, Nat.add_assoc]
    simp [Phase.answers]
  | @ret h e o' t c r _ hanswered ih =>
    obtain ⟨n, htotal, hn⟩ := ih
    have hle := htotal.le t
    rw [hanswered] at hle
    refine ⟨n - Phase.answers x (.answered c r), htotal.set ?_, ?_⟩
    · rw [hanswered]
      simp only [Phase.answers] at hle ⊢
      omega
    · have hone : (returned [CallEvent.ret t c r]).count x = Phase.answers x (.answered c r) := by
        simp [returned, Phase.answers, List.count_singleton]
      rw [returned_append, List.count_append, hone, hn]
      omega

theorem returned_subperm {v : υ} (hm : Moves answers (fresh τ κ ρ v) h e o₁) :
    (returned h).Subperm e := by
  have : DecidableEq (κ × ρ) := Classical.decEq _
  refine List.subperm_iff_count.2 fun x => ?_
  obtain ⟨n, -, hn⟩ := hm.count_returned x
  omega

/-- **When all calls have returned**, their answers are those that were given. -/
theorem returned_perm {v : υ} (hm : Moves answers (fresh τ κ ρ v) h e o₁)
    (hrest : ∀ t, o₁.locals t = .idle) : (returned h).Perm e := by
  have : DecidableEq (κ × ρ) := Classical.decEq _
  refine List.perm_iff_count.2 fun x => ?_
  obtain ⟨n, htotal, hn⟩ := hm.count_returned x
  have hzero : n = 0 := htotal.eq_zero fun t => by rw [hrest t]; rfl
  omega

end Moves

/-! ## Steps of programs -/

section Behind

variable {L σ : Type*}

/-- The object behind the threads of a program, with `v` in it, where `phase` says of a thread where
its call is. -/
def behind (phase : σ → L → Phase κ ρ) (s : Threads τ L σ) (v : υ) : Threads τ (Phase κ ρ) υ :=
  ⟨v, fun t => phase s.shared (s.locals t)⟩

/-- What a step of a program is for the object: from one phase of the thread's call to another, with
what is seen of it, and what is in the object then. -/
inductive Does (answers : Answers τ κ ρ υ) (o : Threads τ (Phase κ ρ) υ) (t : τ) :
    Phase κ ρ → List (CallEvent τ κ ρ) → υ → Phase κ ρ → Prop
  | quiet (p : Phase κ ρ) : Does answers o t p [] o.shared p
  | call (c : κ) : Does answers o t .idle [.call t c] o.shared (.called c)
  | answer {c : κ} {r : ρ} {v : υ} : answers o t c r v →
      Does answers o t (.called c) [] v (.answered c r)
  | ret (c : κ) (r : ρ) : Does answers o t (.answered c r) [.ret t c r] o.shared .idle
  | answerRet {c : κ} {r : ρ} {v : υ} : answers o t c r v →
      Does answers o t (.called c) [.ret t c r] v .idle
  | atOnce {c : κ} {r : ρ} {v : υ} :
      answers (o.set t o.shared (.called c)) t c r v →
      Does answers o t .idle [.call t c, .ret t c r] v .idle

theorem Does.moves {answers : Answers τ κ ρ υ} {o : Threads τ (Phase κ ρ) υ} {t : τ}
    {p p' : Phase κ ρ} {h : List (CallEvent τ κ ρ)} {v : υ} (hd : Does answers o t p h v p')
    (hp : o.locals t = p) : ∃ e, Moves answers o h e (o.set t v p') := by
  cases hd with
  | quiet =>
    subst hp
    exact ⟨[], (Threads.set_eta o t).symm ▸ .refl⟩
  | call c => exact ⟨[], .call c .refl hp⟩
  | answer hanswers => exact ⟨_, .answer .refl hp hanswers⟩
  | ret c r => exact ⟨[], .ret .refl hp⟩
  | @answerRet c r v hanswers =>
    rw [← Threads.set_set o t v (.answered c r)]
    exact ⟨_, .ret (.answer .refl hp hanswers) (Threads.set_self _ _ _ _)⟩
  | @atOnce c r v hanswers =>
    rw [← Threads.set_set o t v (.answered c r), ← Threads.set_set o t o.shared (.called c)]
    exact ⟨_, .ret (.answer (.call c .refl hp) (Threads.set_self _ _ _ _) hanswers)
      (Threads.set_self _ _ _ _)⟩

theorem behind_set {phase : σ → L → Phase κ ρ} {s : Threads τ L σ} {t : τ} {m : σ} {loc : L}
    {v v' : υ}
    (hother : ∀ u, u ≠ t → phase m (s.locals u) = phase s.shared (s.locals u)) :
    behind phase (s.set t m loc) v' = (behind phase s v).set t v' (phase m loc) := by
  refine congrArg (Threads.mk v') (funext fun u => ?_)
  by_cases hut : u = t
  · subst hut
    rw [Threads.set_self, Function.update_self]
    rfl
  · rw [Threads.set_other _ _ _ _ hut, Function.update_of_ne hut]
    exact hother u hut

end Behind

end AtomicObject

namespace Threads

open AtomicObject

variable {τ L σ α κ ρ υ : Type*} [DecidableEq τ] {act : τ → α → σ → L → Option (σ × L)}
  {init : Threads τ L σ → Prop} {ok : Threads τ L σ → τ → α → Prop}
  {see : Threads τ L σ → ThreadAction τ α Empty → List (CallEvent τ κ ρ)}

/-- **Linearizability.** If every step of a thread does for the object behind the threads what an
atomic object can do, and leaves the other threads where they are, then the histories of the runs
are those of an atomic object. `R` says what is in the object. -/
theorem linearizable (answers : Answers τ κ ρ υ) (phase : σ → L → Phase κ ρ) (start : υ → Prop)
    (R : Threads τ L σ → υ → Prop)
    (hinit : ∀ s, init s → (∃ v, start v ∧ R s v) ∧ ∀ t, phase s.shared (s.locals t) = .idle)
    (hact : ∀ s v t a m loc, R s v → ok s t a → act t a s.shared (s.locals t) = some (m, loc) →
      ∃ v', Does answers (behind phase s v) t (phase s.shared (s.locals t))
          (see s (.thread t a)) v' (phase m loc) ∧
        R (s.set t m loc) v' ∧
        ∀ u, u ≠ t → phase m (s.locals u) = phase s.shared (s.locals u))
    {h : List (CallEvent τ κ ρ)} {s : Threads τ L σ}
    (hs : (machine act (fun e _ => e.elim) init).Observed (Guard ok fun _ _ => True) see h s) :
    ∃ v₀ e v, start v₀ ∧ Moves answers (fresh τ κ ρ v₀) h e (behind phase s v) ∧ R s v := by
  refine Threads.observed (I := fun h s => ∃ v₀ e v, start v₀ ∧
    Moves answers (fresh τ κ ρ v₀) h e (behind phase s v) ∧ R s v) ?_ ?_ ?_ hs
  · intro s hs
    obtain ⟨⟨v, hv, hR⟩, hidle⟩ := hinit s hs
    refine ⟨v, [], v, hv, ?_, hR⟩
    have hfresh : behind phase s v = fresh τ κ ρ v := congrArg (Threads.mk v) (funext hidle)
    exact hfresh ▸ .refl
  · intro h s t a m loc hI hok ha
    obtain ⟨v₀, e, v, hv, hmoves, hR⟩ := hI
    obtain ⟨v', hdoes, hR', hother⟩ := hact s v t a m loc hR hok ha
    obtain ⟨e', hmoves'⟩ := hdoes.moves rfl
    refine ⟨v₀, e ++ e', v', hv, ?_, hR'⟩
    rw [behind_set hother]
    exact hmoves.trans hmoves'
  · exact fun _ _ e => e.elim

end Threads
