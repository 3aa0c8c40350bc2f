import Mathlib.Data.Multiset.AddSub
import Mathlib.Data.Multiset.Filter

/-!
# Calendars

A calendar is a clock and a multiset of dated entries. A tick hands over the entries due now and
moves the clock on by one. This is what a timer queue is for, without buckets or levels:
`run_pending` says which entries are left after any run, and `run_out` which of them the next
tick hands over, provided no entry is overdue (`Valid`).
-/

/-- A clock and the entries waiting for it. -/
structure Calendar (α : Type*) where
  now : Nat
  pending : Multiset α

namespace Calendar

/-- What can happen to a calendar. -/
inductive Op (α : Type*)
  | insert (a : α)
  | tick

variable {α : Type*} (due : α → Nat)

def insert (c : Calendar α) (a : α) : Calendar α := { c with pending := a ::ₘ c.pending }

/-- The entries the next tick hands over. -/
def out (c : Calendar α) : Multiset α := c.pending.filter (due · = c.now)

def tick (c : Calendar α) : Calendar α :=
  { now := c.now + 1, pending := c.pending.filter (due · ≠ c.now) }

def step (c : Calendar α) : Op α → Calendar α
  | .insert a => insert c a
  | .tick => tick due c

def run (c : Calendar α) (ops : List (Op α)) : Calendar α := ops.foldl (step due) c

/-- No entry is overdue. -/
def Valid (c : Calendar α) : Prop := ∀ a ∈ c.pending, c.now ≤ due a

/-- Every entry inserted on the way is not overdue when it comes. -/
def Timely : Calendar α → List (Op α) → Prop
  | _, [] => True
  | c, .insert a :: ops => c.now ≤ due a ∧ Timely (insert c a) ops
  | c, .tick :: ops => Timely (tick due c) ops

variable {due}

/-- A split of the entries into those due now and those not due now is the tick's. -/
theorem out_eq {c : Calendar α} {o r : Multiset α} (h : c.pending = o + r)
    (ho : ∀ a ∈ o, due a = c.now) (hr : ∀ a ∈ r, due a ≠ c.now) : out due c = o := by
  rw [out, h, Multiset.filter_add, Multiset.filter_eq_self.2 ho, Multiset.filter_eq_nil.2 hr,
    Multiset.add_zero]

theorem tick_eq {c : Calendar α} {o r : Multiset α} (h : c.pending = o + r)
    (ho : ∀ a ∈ o, due a = c.now) (hr : ∀ a ∈ r, due a ≠ c.now) : tick due c = ⟨c.now + 1, r⟩ := by
  rw [tick, h, Multiset.filter_add, Multiset.filter_eq_nil.2 fun a ha => not_not_intro (ho a ha),
    Multiset.filter_eq_self.2 hr, Multiset.zero_add]

theorem Valid.insert {c : Calendar α} (h : Valid due c) {a : α} (ha : c.now ≤ due a) :
    Valid due (insert c a) := by
  intro b hb
  rcases Multiset.mem_cons.1 hb with rfl | hb
  · exact ha
  · exact h b hb

theorem Valid.tick {c : Calendar α} (h : Valid due c) : Valid due (tick due c) := by
  intro a ha
  obtain ⟨hm, hne⟩ := Multiset.mem_filter.1 ha
  have := h a hm
  simp only [Calendar.tick]
  omega

theorem run_now_le (ops : List (Op α)) : ∀ c : Calendar α, c.now ≤ (run due c ops).now := by
  induction ops with
  | nil => exact fun c => Nat.le_refl _
  | cons op ops ih =>
    intro c
    refine Nat.le_trans ?_ (ih (step due c op))
    cases op with
    | insert a => exact Nat.le_refl _
    | tick => exact Nat.le_succ _

/-- **What is left after a run**: of the entries `p` that the run does not insert itself, those
whose date the clock has not passed. -/
theorem run_pending (p : α → Prop) [DecidablePred p] (ops : List (Op α)) :
    ∀ c : Calendar α, Valid due c → Timely due c ops → (∀ a, .insert a ∈ ops → ¬ p a) →
      (run due c ops).pending.filter p =
        (c.pending.filter p).filter ((run due c ops).now ≤ due ·) := by
  induction ops with
  | nil =>
    intro c hv _ _
    refine (Multiset.filter_eq_self.2 fun a ha => ?_).symm
    exact hv a (Multiset.mem_filter.1 ha).1
  | cons op ops ih =>
    intro c hv ht hp
    have hp' : ∀ a, .insert a ∈ ops → ¬ p a := fun a ha => hp a (List.mem_cons_of_mem _ ha)
    cases op with
    | insert a =>
      obtain ⟨hle, ht⟩ := ht
      have hna : ¬ p a := hp a List.mem_cons_self
      have := ih (insert c a) (hv.insert hle) ht hp'
      rw [show (insert c a).pending = a ::ₘ c.pending from rfl,
        Multiset.filter_cons_of_neg _ hna] at this
      exact this
    | tick =>
      have hlt : c.now < (run due (tick due c) ops).now := run_now_le ops (tick due c)
      have := ih (tick due c) hv.tick ht hp'
      change (run due (tick due c) ops).pending.filter p = _
      rw [this, show (tick due c).pending = c.pending.filter (due · ≠ c.now) from rfl,
        Multiset.filter_filter, Multiset.filter_filter, Multiset.filter_filter]
      refine Multiset.filter_congr fun a _ => ?_
      simp only [List.foldl_cons, step, run] at hlt ⊢
      constructor
      · rintro ⟨h, -⟩; exact h
      · intro h; exact ⟨h, by have := h.1; omega⟩

/-- **What the tick after a run hands over**: of the entries `p` the run does not insert itself,
those due at that tick. -/
theorem run_out (p : α → Prop) [DecidablePred p] {c : Calendar α} (hv : Valid due c)
    {ops : List (Op α)} (ht : Timely due c ops) (hp : ∀ a, .insert a ∈ ops → ¬ p a) :
    (out due (run due c ops)).filter p =
      (c.pending.filter p).filter (due · = (run due c ops).now) := by
  rw [out, Multiset.filter_comm, run_pending p ops c hv ht hp, Multiset.filter_filter]
  refine Multiset.filter_congr fun a _ => ?_
  constructor
  · rintro ⟨h, -⟩; exact h
  · intro h; exact ⟨h, h ▸ Nat.le_refl _⟩

end Calendar
