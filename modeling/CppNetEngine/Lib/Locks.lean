import Mathlib.Data.List.Perm.Basic
import Mathlib.Data.List.Nodup
import Mathlib.Logic.Function.Basic

/-!
# Who holds which lock

A table says which thread set each lock, and each thread believes that it holds some of them.
`OwnLocks` says that the beliefs are right. It is kept by a thread that takes a lock that is free,
releases one it holds, or forgets one (`LockStep`), and no lock is held by two threads then
(`OwnLocks.unique`).
-/

variable {τ α : Type*}

/-- Each thread holds each of its locks once, and set it itself. -/
def OwnLocks (lock : α → Option τ) (held : τ → List α) : Prop :=
  ∀ t, (held t).Nodup ∧ ∀ a ∈ held t, lock a = some t

/-- What a step of `t` may do to the table, and to a part of what the thread believes to hold. -/
inductive LockStep [DecidableEq α] (t : τ) (lock lock' : α → Option τ) (part part' : List α) : Prop
  | keep : lock' = lock → part'.Sublist part → LockStep t lock lock' part part'
  | acquire (a : α) : lock a = none → lock' = Function.update lock a (some t) →
      part' = part ++ [a] → LockStep t lock lock' part part'
  | release (a : α) : lock' = Function.update lock a none → part = part' ++ [a] →
      LockStep t lock lock' part part'

namespace OwnLocks

variable {lock lock' : α → Option τ} {held : τ → List α} {t u : τ} {a : α}
  {l part part' rest : List α}

/-- **No lock is held by two threads.** -/
theorem unique (h : OwnLocks lock held) (ht : a ∈ held t) (hu : a ∈ held u) : t = u :=
  Option.some.inj (((h t).2 a ht).symm.trans ((h u).2 a hu))

variable [DecidableEq τ]

/-- A thread that forgets locks. -/
theorem sublist (h : OwnLocks lock held) (hl : l.Sublist (held t)) :
    OwnLocks lock (Function.update held t l) := by
  intro v
  by_cases hv : v = t
  · subst hv
    rw [Function.update_self]
    exact ⟨(h v).1.sublist hl, fun b hb => (h v).2 b (hl.subset hb)⟩
  · rw [Function.update_of_ne hv]
    exact h v

variable [DecidableEq α]

theorem acquire (h : OwnLocks lock held) (ha : lock a = none) (hl : l.Perm (a :: held t)) :
    OwnLocks (Function.update lock a (some t)) (Function.update held t l) := by
  have hnot : ∀ v, a ∉ held v := fun v hv => by
    have := (h v).2 a hv
    rw [ha] at this
    cases this
  have hother : ∀ v, ∀ b ∈ held v, Function.update lock a (some t) b = some v := by
    intro v b hb
    rw [Function.update_of_ne (by rintro rfl; exact hnot v hb)]
    exact (h v).2 b hb
  intro v
  by_cases hv : v = t
  · subst hv
    rw [Function.update_self]
    refine ⟨hl.nodup_iff.2 (List.nodup_cons.2 ⟨hnot v, (h v).1⟩), fun b hb => ?_⟩
    rcases List.mem_cons.1 (hl.mem_iff.1 hb) with rfl | hb
    · exact Function.update_self _ _ _
    · exact hother v b hb
  · rw [Function.update_of_ne hv]
    exact ⟨(h v).1, hother v⟩

theorem release (h : OwnLocks lock held) (hl : (held t).Perm (a :: l)) :
    OwnLocks (Function.update lock a none) (Function.update held t l) := by
  obtain ⟨hnot, hnodup⟩ := List.nodup_cons.1 (hl.nodup_iff.1 (h t).1)
  intro v
  by_cases hv : v = t
  · subst hv
    rw [Function.update_self]
    refine ⟨hnodup, fun b hb => ?_⟩
    rw [Function.update_of_ne (by rintro rfl; exact hnot hb)]
    exact (h v).2 b (hl.mem_iff.2 (List.mem_cons_of_mem _ hb))
  · rw [Function.update_of_ne hv]
    refine ⟨(h v).1, fun b hb => ?_⟩
    have ha : a ∈ held t := hl.mem_iff.2 List.mem_cons_self
    rw [Function.update_of_ne (by rintro rfl; exact hv (h.unique hb ha))]
    exact (h v).2 b hb

/-- **Steps keep the beliefs right.** -/
theorem step (h : OwnLocks lock held) (hheld : held t = part ++ rest)
    (hs : LockStep t lock lock' part part') :
    OwnLocks lock' (Function.update held t (part' ++ rest)) := by
  cases hs with
  | keep hlock hsub =>
    rw [hlock]
    exact h.sublist (hheld ▸ hsub.append_right _)
  | acquire a hfree hlock hnew =>
    rw [hlock, hnew]
    refine h.acquire hfree ?_
    rw [hheld, List.append_assoc]
    exact List.perm_middle
  | release a hlock hold =>
    rw [hlock]
    refine h.release ?_
    rw [hheld, hold, List.append_assoc]
    exact List.perm_middle

omit [DecidableEq τ] in
/-- **Steps leave the locks of other threads.** -/
theorem step_other (h : OwnLocks lock held) (hheld : held t = part ++ rest)
    (hs : LockStep t lock lock' part part') (hu : u ≠ t) (ha : lock a = some u) :
    lock' a = some u := by
  cases hs with
  | keep hlock _ => rw [hlock, ha]
  | acquire b hfree hlock _ =>
    have hab : a ≠ b := by
      rintro rfl
      rw [hfree] at ha
      cases ha
    rw [hlock, Function.update_of_ne hab, ha]
  | release b hlock hold =>
    have hb : lock b = some t := (h t).2 b (by simp [hheld, hold])
    have hab : a ≠ b := by
      rintro rfl
      rw [hb] at ha
      exact hu (Option.some.inj ha).symm
    rw [hlock, Function.update_of_ne hab, ha]

end OwnLocks
