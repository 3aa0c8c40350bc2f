import CppNetEngine.Lib.Observed
import Mathlib.Algebra.BigOperators.Group.Finset.Basic
import Mathlib.Algebra.Order.BigOperators.Group.Finset
import Mathlib.Algebra.Ring.Nat

/-!
# Totals over all threads

Local states have weights, and all but finitely many threads weigh nothing: `Threads.Total` says
what they weigh together. A step of one thread changes the total by what it changes of that
thread's weight (`Threads.Total.set`). For threads with stacks a weight of frames gives one of
stacks (`Stacks.weigh`), and the total follows the calls and steps of frames. `Stacks.conserved`
is the rule for what a run owes: what was seen to be due is what was seen to be done, what the
shared state holds, and what the frames still have to do.
-/

namespace Threads

variable {τ L σ : Type*}

/-- All threads together weigh `n`. -/
def Total (s : Threads τ L σ) (w : L → Nat) (n : Nat) : Prop :=
  ∃ A : Finset τ, (∀ t, t ∉ A → w (s.locals t) = 0) ∧ ∑ t ∈ A, w (s.locals t) = n

namespace Total

variable {s : Threads τ L σ} {w : L → Nat} {n n' : Nat} {t u : τ} {shared : σ} {l : L}

theorem zero (h : ∀ t, w (s.locals t) = 0) : Total s w 0 := ⟨∅, fun t _ => h t, rfl⟩

theorem eq_zero (h : Total s w n) (h0 : ∀ t, w (s.locals t) = 0) : n = 0 := by
  obtain ⟨A, -, rfl⟩ := h
  exact Finset.sum_eq_zero fun t _ => h0 t

theorem congr {s' : Threads τ L σ} {w' : L → Nat} (h : Total s w n)
    (hw : ∀ t, w' (s'.locals t) = w (s.locals t)) : Total s' w' n := by
  obtain ⟨A, hA, rfl⟩ := h
  exact ⟨A, fun t ht => (hw t).trans (hA t ht), Finset.sum_congr rfl fun t _ => hw t⟩

theorem univ [Fintype τ] : Total s w (∑ t, w (s.locals t)) :=
  ⟨Finset.univ, fun t ht => absurd (Finset.mem_univ t) ht, rfl⟩

theorem unique (h : Total s w n) (h' : Total s w n') : n = n' := by
  classical
  obtain ⟨A, hA, rfl⟩ := h
  obtain ⟨B, hB, rfl⟩ := h'
  have hleft := Finset.sum_subset (Finset.subset_union_left : A ⊆ A ∪ B)
    fun t _ ht => hA t ht
  have hright := Finset.sum_subset (Finset.subset_union_right : B ⊆ A ∪ B)
    fun t _ ht => hB t ht
  exact hleft.trans hright.symm

theorem length_le {ts : List τ} (h : Total s w n) (hnodup : ts.Nodup)
    (hts : ∀ t ∈ ts, 0 < w (s.locals t)) : ts.length ≤ n := by
  classical
  obtain ⟨A, hA, rfl⟩ := h
  have hsub : ts.toFinset ⊆ A := by
    intro t ht
    by_contra hnot
    have hpos := hts t (List.mem_toFinset.1 ht)
    rw [hA t hnot] at hpos
    exact Nat.lt_irrefl 0 hpos
  calc ts.length = ∑ t ∈ ts.toFinset, 1 := by
        rw [← Finset.card_eq_sum_ones, List.toFinset_card_of_nodup hnodup]
    _ ≤ ∑ t ∈ ts.toFinset, w (s.locals t) :=
        Finset.sum_le_sum fun t ht => hts t (List.mem_toFinset.1 ht)
    _ ≤ ∑ t ∈ A, w (s.locals t) :=
        Finset.sum_le_sum_of_subset hsub

/-- Where threads weigh one at most, the total is the number of those that weigh something. -/
theorem eq_length_iff {ts : List τ} (h : Total s w n) (hnodup : ts.Nodup)
    (hts : ∀ t ∈ ts, 0 < w (s.locals t)) (hone : ∀ t, w (s.locals t) ≤ 1) :
    n = ts.length ↔ ∀ t, 0 < w (s.locals t) → t ∈ ts := by
  classical
  constructor
  · intro heq t ht
    by_contra hnot
    have hle := h.length_le (List.nodup_cons.2 ⟨hnot, hnodup⟩) (List.forall_mem_cons.2 ⟨ht, hts⟩)
    rw [List.length_cons] at hle
    omega
  · intro hall
    obtain ⟨A, hA, rfl⟩ := h
    refine Nat.le_antisymm ?_ (length_le ⟨A, hA, rfl⟩ hnodup hts)
    rw [← List.toFinset_card_of_nodup hnodup, Finset.card_eq_sum_ones]
    calc ∑ t ∈ A, w (s.locals t) ≤ ∑ t ∈ A with t ∈ ts.toFinset, 1 := by
          rw [Finset.sum_filter]
          refine Finset.sum_le_sum fun t _ => ?_
          split <;> rename_i hin
          · exact hone t
          · exact Nat.le_of_not_lt fun hpos => hin (List.mem_toFinset.2 (hall t hpos))
      _ ≤ ∑ t ∈ ts.toFinset, 1 :=
          Finset.sum_le_sum_of_subset fun t ht => (Finset.mem_filter.1 ht).2

theorem exists_threads (h : Total s w n) (hone : ∀ t, w (s.locals t) ≤ 1) :
    ∃ ts : List τ, ts.Nodup ∧ (∀ t ∈ ts, 0 < w (s.locals t)) ∧ n = ts.length := by
  classical
  obtain ⟨A, hA, hsum⟩ := h
  have hmem : ∀ t, t ∈ (A.filter fun t => 0 < w (s.locals t)).toList ↔ 0 < w (s.locals t) := by
    intro t
    rw [Finset.mem_toList, Finset.mem_filter]
    refine ⟨And.right, fun ht => ⟨?_, ht⟩⟩
    by_contra hnot
    rw [hA t hnot] at ht
    exact Nat.lt_irrefl 0 ht
  have hnodup := Finset.nodup_toList (A.filter fun t => 0 < w (s.locals t))
  refine ⟨_, hnodup, fun t => (hmem t).1, ?_⟩
  exact (eq_length_iff ⟨A, hA, hsum⟩ hnodup (fun t => (hmem t).1) hone).2 fun t => (hmem t).2

theorem add {w' : L → Nat} (h : Total s w n) (h' : Total s w' n') :
    Total s (fun l => w l + w' l) (n + n') := by
  classical
  obtain ⟨A, hA, rfl⟩ := h
  obtain ⟨B, hB, rfl⟩ := h'
  refine ⟨A ∪ B, fun t ht => ?_, ?_⟩
  · obtain ⟨hnotA, hnotB⟩ := not_or.1 (fun hor => ht (Finset.mem_union.2 hor))
    exact Nat.add_eq_zero_iff.2 ⟨hA t hnotA, hB t hnotB⟩
  · rw [Finset.sum_add_distrib, Finset.sum_subset Finset.subset_union_left fun t _ => hA t,
      Finset.sum_subset Finset.subset_union_right fun t _ => hB t]

variable [DecidableEq τ]

/-- The threads of a total can be chosen to contain a given one. -/
theorem withThread (h : Total s w n) (t : τ) : ∃ A : Finset τ, t ∈ A ∧
    (∀ u, u ∉ A → w (s.locals u) = 0) ∧ ∑ u ∈ A, w (s.locals u) = n := by
  obtain ⟨A, hA, hsum⟩ := h
  refine ⟨insert t A, Finset.mem_insert_self t A, fun u hu => ?_, ?_⟩
  · exact hA u fun hmem => hu (Finset.mem_insert_of_mem hmem)
  · by_cases ht : t ∈ A
    · rw [Finset.insert_eq_of_mem ht, hsum]
    · rw [Finset.sum_insert ht, hA t ht, hsum, Nat.zero_add]

theorem le (h : Total s w n) (t : τ) : w (s.locals t) ≤ n := by
  obtain ⟨A, ht, -, rfl⟩ := h.withThread t
  exact Finset.single_le_sum (f := fun u => w (s.locals u)) (fun u _ => Nat.zero_le _) ht

theorem set (h : Total s w n) (hn : n' + w (s.locals t) = n + w l) :
    Total (s.set t shared l) w n' := by
  obtain ⟨A, ht, hA, hsum⟩ := h.withThread t
  have hother : ∑ u ∈ A.erase t, w ((s.set t shared l).locals u) =
      ∑ u ∈ A.erase t, w (s.locals u) := by
    refine Finset.sum_congr rfl fun u hu => ?_
    rw [Threads.set_other _ _ _ _ (Finset.ne_of_mem_erase hu)]
  refine ⟨A, fun u hu => ?_, ?_⟩
  · rw [Threads.set_other _ _ _ _ (by rintro rfl; exact hu ht)]
    exact hA u hu
  · rw [← Finset.add_sum_erase A _ ht] at hsum ⊢
    rw [hother, Threads.set_self]
    omega

omit [DecidableEq τ] in
theorem exists_pos (h : Total s w n) (hn : 0 < n) : ∃ t, 0 < w (s.locals t) := by
  by_contra hnone
  have hzero := h.eq_zero fun t => Nat.eq_zero_of_not_pos fun hpos => hnone ⟨t, hpos⟩
  omega

end Total

variable {α ω : Type*} [DecidableEq τ] {act : τ → α → σ → L → Option (σ × L)}
  {init : Threads τ L σ → Prop} {ok : Threads τ L σ → τ → α → Prop}
  {see : Threads τ L σ → ThreadAction τ α Empty → List ω}

/-- **Conservation.** If every action does as much, or leaves as much to do, as becomes due with
it, then in every run what became due was done or is left to threads. -/
theorem conserved {due done : ω → Bool} {w : L → Nat}
    (hinit : ∀ s, init s → ∀ t, w (s.locals t) = 0)
    (hact : ∀ s t a shared l', act t a s.shared (s.locals t) = some (shared, l') →
      (see s (.thread t a)).countP due + w (s.locals t) =
        (see s (.thread t a)).countP done + w l')
    {l : List ω} {s : Threads τ L σ}
    (h : (machine act (fun e _ => e.elim) init).Observed (Guard ok fun _ _ => True) see l s) :
    ∃ n, Total s w n ∧ l.countP due = l.countP done + n := by
  refine Threads.observed (I := fun l s => ∃ n, Total s w n ∧ l.countP due = l.countP done + n)
    ?_ ?_ ?_ h
  · exact fun s hs => ⟨0, .zero (hinit s hs), rfl⟩
  · intro l s t a shared l' hI _ ha
    obtain ⟨n, htotal, hn⟩ := hI
    have hone := hact s t a shared l' ha
    have hle := htotal.le t
    refine ⟨n - w (s.locals t) + w l', htotal.set (by omega), ?_⟩
    rw [List.countP_append, List.countP_append]
    omega
  · exact fun _ _ e => e.elim

end Threads

namespace Stacks

variable {τ F σ : Type*} [DecidableEq τ]

/-- What the frames of a stack weigh together. -/
def weigh (w : F → Nat) (fs : List F) : Nat := (fs.map w).sum

@[simp] theorem weigh_nil (w : F → Nat) : weigh w [] = 0 := rfl

@[simp] theorem weigh_cons (w : F → Nat) (f : F) (fs : List F) :
    weigh w (f :: fs) = w f + weigh w fs := rfl

@[simp] theorem weigh_append (w : F → Nat) (l l' : List F) :
    weigh w (l ++ l') = weigh w l + weigh w l' := by
  simp [weigh]

theorem weigh_eq_zero {w : F → Nat} {fs : List F} (h : ∀ f ∈ fs, w f = 0) : weigh w fs = 0 := by
  induction fs with
  | nil => rfl
  | cons f fs ih =>
    obtain ⟨hf, hfs⟩ := List.forall_mem_cons.1 h
    rw [weigh_cons, hf, ih hfs]

theorem le_weigh {w : F → Nat} {f : F} {fs : List F} (h : f ∈ fs) : w f ≤ weigh w fs := by
  induction fs with
  | nil => cases h
  | cons g fs ih =>
    rw [weigh_cons]
    rcases List.mem_cons.1 h with rfl | h
    · exact Nat.le_add_right _ _
    · exact Nat.le_trans (ih h) (Nat.le_add_left _ _)

/-- The frames on all stacks weigh `n`. -/
abbrev Total (s : Threads τ (List F) σ) (w : F → Nat) (n : Nat) : Prop :=
  Threads.Total s (weigh w) n

namespace Total

variable {s : Threads τ (List F) σ} {w : F → Nat} {n n' : Nat} {t : τ} {shared : σ} {f : F}
  {rest new : List F}

omit [DecidableEq τ] in
theorem idle (h : Total s w n) (hidle : ∀ t, s.locals t = []) : n = 0 :=
  h.eq_zero fun t => by rw [hidle t]; rfl

omit [DecidableEq τ] in
theorem init (hidle : ∀ t, s.locals t = []) : Total s w 0 :=
  Threads.Total.zero fun t => by rw [hidle t]; rfl

theorem push (h : Total s w n) : Total (s.set t shared (f :: s.locals t)) w (n + w f) :=
  Threads.Total.set h (by rw [weigh_cons]; omega)

theorem next (h : Total s w n) (ht : s.locals t = f :: rest) (hn : n' + w f = n + weigh w new) :
    Total (s.set t shared (new ++ rest)) w n' :=
  Threads.Total.set h (by rw [ht, weigh_cons, weigh_append]; omega)

theorem le (h : Total s w n) (hf : f ∈ s.locals t) : w f ≤ n :=
  Nat.le_trans (le_weigh hf) (Threads.Total.le h t)

end Total

/-! ## Conservation -/

variable {κ ν ω : Type*}
  {enter : κ → σ → List F → Option (σ × F)} {step : τ → ν → σ → F → Option (σ × List F)}
  {init : Threads τ (List F) σ → Prop}
  {ok : Threads τ (List F) σ → τ → StackAction κ ν → Prop}
  {seeCall : σ → κ → List ω} {seeNext : σ → ν → F → List ω}

/-- **Conservation.** If every call and every step of a frame does as much, or leaves as much to
do, as becomes due with it, then in every run what became due was done, is held by the shared state
or is left to frames. -/
theorem conserved {due done : ω → Bool} {held : σ → Nat} {w : F → Nat}
    (hinit : ∀ s, init s → held s.shared = 0 ∧ ∀ t, s.locals t = [])
    (hcall : ∀ c s fs s' f, enter c s fs = some (s', f) →
      (seeCall s c).countP due + held s = (seeCall s c).countP done + held s' + w f)
    (hnext : ∀ t k s f s' new, step t k s f = some (s', new) →
      (seeNext s k f).countP due + held s + w f =
        (seeNext s k f).countP done + held s' + weigh w new)
    {l : List ω} {s : Threads τ (List F) σ}
    (h : Observed enter step init ok seeCall seeNext l s) :
    ∃ n, Total s w n ∧ l.countP due = l.countP done + held s.shared + n := by
  refine Stacks.observed (I := fun l s => ∃ n, Total s w n ∧
    l.countP due = l.countP done + held s.shared + n) ?_ ?_ ?_ h
  · intro s hs
    obtain ⟨hheld, hidle⟩ := hinit s hs
    refine ⟨0, Total.init hidle, ?_⟩
    rw [hheld]
    rfl
  · intro l s t c shared f _ hI _ hc
    obtain ⟨n, htotal, hn⟩ := hI
    have hone := hcall c s.shared (s.locals t) shared f hc
    refine ⟨n + w f, htotal.push, ?_⟩
    rw [List.countP_append, List.countP_append, Threads.set_shared]
    omega
  · intro l s t k shared f rest new _ hI _ ht hk
    obtain ⟨n, htotal, hn⟩ := hI
    have hone := hnext t k s.shared f shared new hk
    have hle : w f ≤ n := htotal.le (t := t) (mem_locals ht)
    refine ⟨n - w f + weigh w new, htotal.next ht (by omega), ?_⟩
    rw [List.countP_append, List.countP_append, Threads.set_shared]
    omega

end Stacks
