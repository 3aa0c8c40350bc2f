import CppNetEngine.Lib.Totals

/-!
# Progress

How long a run can go on until something is seen of it: as long as a measure says that all other
steps decrease (`Machine.exists_seen`). For finitely many threads such a measure comes from what
each of them has left to do, if the others leave it alone, and from how often it may still get in
the way of the others, which gives them more to do (`Threads.exists_seen`): something is seen of
every long run, also where threads can make each other start again.
-/

namespace Machine

variable {σ α ω : Type*} {M : Machine σ α} {see : σ → α → List ω} {P : ω → Prop}

/-- A measure that every step decreases of which nothing is seen: in more steps than it measures,
something is seen. -/
theorem exists_seen (μ : σ → Nat) {fair : α → Prop}
    (hstep : ∀ s a s', fair a → (∀ e ∈ see s a, ¬ P e) → M.step s a = some s' → μ s' < μ s)
    (as : List α) : ∀ {s s' : σ}, (∀ a ∈ as, fair a) → M.exec s as = some s' →
      μ s < as.length → ∃ e ∈ M.watch see s as, P e := by
  induction as with
  | nil => exact fun _ _ h => absurd h (Nat.not_lt_zero _)
  | cons a as ih =>
    intro s s' hfair he hlength
    obtain ⟨ha, has⟩ := List.forall_mem_cons.1 hfair
    obtain ⟨s1, h1, h2⟩ := Option.bind_eq_some_iff.1 he
    rw [watch, h1]
    by_cases hsee : ∃ e ∈ see s a, P e
    · obtain ⟨e, hmem, hP⟩ := hsee
      exact ⟨e, List.mem_append_left _ hmem, hP⟩
    · have hlt := hstep s a s1 ha (fun e hmem hP => hsee ⟨e, hmem, hP⟩) h1
      rw [List.length_cons] at hlength
      obtain ⟨e, hmem, hP⟩ := ih has h2 (by omega)
      exact ⟨e, List.mem_append_right _ hmem, hP⟩

end Machine

namespace Threads

variable {τ L σ α ω : Type*} [DecidableEq τ] {act : τ → α → σ → L → Option (σ × L)}
  {init : Threads τ L σ → Prop} {see : Threads τ L σ → ThreadAction τ α Empty → List ω}
  {P : ω → Prop} {fair : α → Prop}

/-- A step of a thread that leaves the others alone: it has less to do, and nobody has more. -/
structure Quiet (left : σ → L → Nat) (ways : L → Nat) (m m' : σ) (loc loc' : L) : Prop where
  left_lt : left m' loc' < left m loc
  ways_le : ways loc' ≤ ways loc
  others : ∀ l, left m' l ≤ left m l

/-- A step by which a thread gets in the way of the others, once less than it may: they have at most
`b` more to do. -/
structure InTheWay (left : σ → L → Nat) (ways : L → Nat) (b : Nat) (m m' : σ) (loc loc' : L) :
    Prop where
  left_le : left m' loc' ≤ left m loc + b
  ways_lt : ways loc' < ways loc
  others : ∀ l, left m' l ≤ left m l + b

variable [Fintype τ]

/-- What all threads have left to do, with what they may still make of it. -/
def leftOver (left : σ → L → Nat) (ways : L → Nat) (b : Nat) (s : Threads τ L σ) : Nat :=
  ∑ t, left s.shared (s.locals t) + (b * Fintype.card τ + 1) * ∑ t, ways (s.locals t)

theorem leftOver_lt {left : σ → L → Nat} {ways : L → Nat} {b : Nat} {s : Threads τ L σ} {t : τ}
    {m : σ} {loc : L}
    (h : Quiet left ways s.shared m (s.locals t) loc ∨
      InTheWay left ways b s.shared m (s.locals t) loc) :
    leftOver left ways b (s.set t m loc) < leftOver left ways b s := by
  have hsplit : ∀ (f : L → Nat) (s' : Threads τ L σ), ∑ u, f (s'.locals u) =
      f (s'.locals t) + ∑ u ∈ Finset.univ.erase t, f (s'.locals u) :=
    fun f s' => (Finset.add_sum_erase _ _ (Finset.mem_univ t)).symm
  have hother : ∀ f : L → Nat, ∑ u ∈ Finset.univ.erase t, f ((s.set t m loc).locals u) =
      ∑ u ∈ Finset.univ.erase t, f (s.locals u) := by
    intro f
    refine Finset.sum_congr rfl fun u hu => ?_
    rw [set_other _ _ _ _ (Finset.ne_of_mem_erase hu)]
  have hways : ∑ u, ways ((s.set t m loc).locals u) + ways (s.locals t) =
      ∑ u, ways (s.locals u) + ways loc := by
    rw [hsplit, hsplit ways s, hother, set_self]
    omega
  unfold leftOver
  rw [hsplit, hsplit (left s.shared) s, hother, set_self, set_shared]
  obtain ⟨hleft, hle, hothers⟩ | ⟨hleft, hlt, hothers⟩ := h
  · have hrest : ∑ u ∈ Finset.univ.erase t, left m (s.locals u) ≤
        ∑ u ∈ Finset.univ.erase t, left s.shared (s.locals u) :=
      Finset.sum_le_sum fun u _ => hothers (s.locals u)
    have hmul := Nat.mul_le_mul_left (b * Fintype.card τ + 1)
      (show ∑ u, ways ((s.set t m loc).locals u) ≤ ∑ u, ways (s.locals u) by omega)
    omega
  · have hrest : ∑ u ∈ Finset.univ.erase t, left m (s.locals u) ≤
        ∑ u ∈ Finset.univ.erase t, left s.shared (s.locals u) +
          (Finset.univ.erase t).card * b := by
      rw [← Finset.sum_const_nat (fun _ _ => rfl), ← Finset.sum_add_distrib]
      exact Finset.sum_le_sum fun u _ => hothers (s.locals u)
    have hcard : (Finset.univ.erase t).card * b + b = b * Fintype.card τ := by
      rw [← Finset.card_univ, ← Finset.card_erase_add_one (Finset.mem_univ t), Nat.mul_add,
        Nat.mul_one, Nat.mul_comm]
    have hmul := Nat.mul_le_mul_left (b * Fintype.card τ + 1)
      (show ∑ u, ways ((s.set t m loc).locals u) + 1 ≤ ∑ u, ways (s.locals u) by omega)
    rw [Nat.mul_add, Nat.mul_one] at hmul
    omega

omit [DecidableEq τ] in
/-- What is left over, if no thread has more than `c` left, or more than `d` ways to get in the way
of the others. -/
theorem leftOver_le {left : σ → L → Nat} {ways : L → Nat} (b : Nat) {c d : Nat}
    (hleft : ∀ m l, left m l ≤ c) (hways : ∀ l, ways l ≤ d)
    (s : Threads τ L σ) : leftOver left ways b s ≤
      Fintype.card τ * c + (b * Fintype.card τ + 1) * (Fintype.card τ * d) := by
  have hsum : ∀ (f : τ → Nat) (n : Nat), (∀ t, f t ≤ n) → ∑ t, f t ≤ Fintype.card τ * n :=
    fun f n hf => Finset.sum_le_card_nsmul _ _ _ fun t _ => hf t
  exact Nat.add_le_add (hsum _ _ fun t => hleft _ _)
    (Nat.mul_le_mul_left _ (hsum _ _ fun t => hways _))

/-- **Something is seen of every long run** whose steps all leave the others alone, or get in their
way once less, when nothing is seen of them. -/
theorem exists_seen (left : σ → L → Nat) (ways : L → Nat) (b : Nat) {c d : Nat}
    (hleft : ∀ m l, left m l ≤ c) (hways : ∀ l, ways l ≤ d)
    (hact : ∀ s t a m loc, fair a → (∀ e ∈ see s (.thread t a), ¬ P e) →
      act t a s.shared (s.locals t) = some (m, loc) →
      Quiet left ways s.shared m (s.locals t) loc ∨
        InTheWay left ways b s.shared m (s.locals t) loc)
    (as : List (ThreadAction τ α Empty)) {s s' : Threads τ L σ}
    (hfair : ∀ t a, .thread t a ∈ as → fair a)
    (he : (machine act (fun e _ => e.elim) init).exec s as = some s')
    (hlength : Fintype.card τ * c + (b * Fintype.card τ + 1) * (Fintype.card τ * d) < as.length) :
    ∃ e ∈ (machine act (fun e _ => e.elim) init).watch see s as, P e := by
  have hfairs : ∀ a ∈ as, ∀ t c, a = .thread t c → fair c := by
    rintro a ha t c rfl
    exact hfair t c ha
  refine Machine.exists_seen (leftOver left ways b) ?_ as hfairs he
    (Nat.lt_of_le_of_lt (leftOver_le b hleft hways s) hlength)
  intro s a s' hfair hsee hs
  obtain ⟨t, c, m, loc, rfl, hc, rfl⟩ | ⟨e, -⟩ := step_cases hs
  · exact leftOver_lt (hact s t c m loc (hfair t c rfl) hsee hc)
  · exact e.elim

end Threads
