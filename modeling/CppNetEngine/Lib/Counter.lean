import CppNetEngine.Lib.Totals

/-!
# Counters that run behind

A counter of the elements that threads share. A thread takes an element only after it has counted
down from a positive count, and counts up again if the count was not positive; it counts up only
after it has added an element. `Counted` says what the counter is while they do so. A thread that
may take an element finds one (`Counted.pos`), and the counter is right when no thread is in between
(`Counted.atRest`). `Room` is what a bound of the elements needs.
-/

namespace Threads

variable {τ L σ : Type*}

/-- The counter is at `count`, and there are `n` elements. `claims` are the threads that have
counted down and may take an element, `fails` those that have counted down and have not yet counted
up again, `pending` those that have added an element and not counted it. -/
def Counted (s : Threads τ L σ) (claims fails pending : L → Nat) (count : Int) (n : Nat) : Prop :=
  ∃ n₁ n₂ n₃, Total s claims n₁ ∧ Total s fails n₂ ∧ Total s pending n₃ ∧
    (n : Int) = count + n₁ + n₂ + n₃ ∧ 0 ≤ count + n₂

/-- The counter is below `bound` with all that the threads have still to count. -/
def Room (s : Threads τ L σ) (claims fails pending : L → Nat) (count bound : Int) : Prop :=
  ∃ n₁ n₂ n₃, Total s claims n₁ ∧ Total s fails n₂ ∧ Total s pending n₃ ∧
    count + n₁ + n₂ + n₃ < bound

/-- All threads can be asked. -/
theorem room_iff_sum [Fintype τ] {s : Threads τ L σ} {claims fails pending : L → Nat}
    {count bound : Int} : Room s claims fails pending count bound ↔
      count + ∑ t, claims (s.locals t) + ∑ t, fails (s.locals t) + ∑ t, pending (s.locals t) <
        bound := by
  constructor
  · rintro ⟨n₁, n₂, n₃, h₁, h₂, h₃, hlt⟩
    rw [h₁.unique .univ, h₂.unique .univ, h₃.unique .univ] at hlt
    exact_mod_cast hlt
  · intro hlt
    exact ⟨_, _, _, .univ, .univ, .univ, by exact_mod_cast hlt⟩

instance [Fintype τ] {s : Threads τ L σ} {claims fails pending : L → Nat} {count bound : Int} :
    Decidable (Room s claims fails pending count bound) :=
  decidable_of_iff _ room_iff_sum.symm

namespace Counted

variable {s : Threads τ L σ} {claims fails pending : L → Nat} {count count' bound : Int}
  {n n' : Nat} {t : τ} {shared : σ} {l : L}

theorem init (h : ∀ t, claims (s.locals t) = 0 ∧ fails (s.locals t) = 0 ∧
    pending (s.locals t) = 0) : Counted s claims fails pending n n :=
  ⟨0, 0, 0, .zero fun t => (h t).1, .zero fun t => (h t).2.1, .zero fun t => (h t).2.2,
    by omega, by omega⟩

theorem le (h : Counted s claims fails pending count n) : count ≤ n := by
  obtain ⟨n₁, n₂, n₃, -, -, -, hsum, -⟩ := h
  omega

theorem atRest (h : Counted s claims fails pending count n)
    (hrest : ∀ t, claims (s.locals t) = 0 ∧ fails (s.locals t) = 0 ∧ pending (s.locals t) = 0) :
    count = n := by
  obtain ⟨n₁, n₂, n₃, h₁, h₂, h₃, hsum, -⟩ := h
  have hzero₁ := h₁.eq_zero fun t => (hrest t).1
  have hzero₂ := h₂.eq_zero fun t => (hrest t).2.1
  have hzero₃ := h₃.eq_zero fun t => (hrest t).2.2
  omega

theorem room_iff (h : Counted s claims fails pending count n) :
    Room s claims fails pending count bound ↔ (n : Int) < bound := by
  obtain ⟨n₁, n₂, n₃, h₁, h₂, h₃, hsum, -⟩ := h
  constructor
  · rintro ⟨m₁, m₂, m₃, h₁', h₂', h₃', hlt⟩
    rw [h₁'.unique h₁, h₂'.unique h₂, h₃'.unique h₃] at hlt
    omega
  · intro hlt
    exact ⟨n₁, n₂, n₃, h₁, h₂, h₃, by omega⟩

/-- **If nothing is counted**, there are no more elements than threads in between. -/
theorem exists_threads (h : Counted s claims fails pending count n) (hcount : count ≤ 0)
    (hone : ∀ t, claims (s.locals t) + fails (s.locals t) + pending (s.locals t) ≤ 1) :
    ∃ ts : List τ, ts.Nodup ∧ n ≤ ts.length ∧
      ∀ t ∈ ts, 0 < claims (s.locals t) + fails (s.locals t) + pending (s.locals t) := by
  obtain ⟨n₁, n₂, n₃, h₁, h₂, h₃, hsum, -⟩ := h
  obtain ⟨ts, hnodup, hts, hlength⟩ := ((h₁.add h₂).add h₃).exists_threads hone
  exact ⟨ts, hnodup, by omega, hts⟩

variable [DecidableEq τ]

/-- **A thread that may take an element finds one.** -/
theorem pos (h : Counted s claims fails pending count n) (hclaim : 0 < claims (s.locals t)) :
    0 < n := by
  obtain ⟨n₁, n₂, n₃, h₁, -, -, hsum, hneg⟩ := h
  have hle := h₁.le t
  omega

/-- **A step of a thread** that changes the counter, and the elements, as it changes what the thread
has still to count, and does not let the counter fall below zero but for the threads that count up
again. -/
theorem set (h : Counted s claims fails pending count n)
    (hn : (n' : Int) + count + claims (s.locals t) + fails (s.locals t) + pending (s.locals t) =
      n + count' + claims l + fails l + pending l)
    (hpos : 0 ≤ count' ∨ count + fails (s.locals t) ≤ count' + fails l) :
    Counted (s.set t shared l) claims fails pending count' n' := by
  obtain ⟨n₁, n₂, n₃, h₁, h₂, h₃, hsum, hneg⟩ := h
  have hle₁ := h₁.le t
  have hle₂ := h₂.le t
  have hle₃ := h₃.le t
  refine ⟨n₁ - claims (s.locals t) + claims l, n₂ - fails (s.locals t) + fails l,
    n₃ - pending (s.locals t) + pending l, h₁.set ?_, h₂.set ?_, h₃.set ?_, ?_, ?_⟩
  all_goals omega

end Counted

end Threads
