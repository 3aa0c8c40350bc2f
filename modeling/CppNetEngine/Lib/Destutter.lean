import Mathlib.Data.List.Destutter

/-!
# Lists without equal neighbours

`destutter (· ≠ ·)` keeps the first of each group of equal neighbours. It has every sublist without
equal neighbours (`IsChain.sublist_destutter_ne`), so it has no duplicates exactly if no element
occurs again after another one (`nodup_destutter_ne_iff`).
-/

namespace List

variable {α : Type*}

/-- Between two equal elements of a list without equal neighbours there is another one. -/
theorem IsChain.exists_between {a : α} {l : List α} (h : l.IsChain (· ≠ ·)) (hsub : [a, a] <+ l) :
    ∃ b, a ≠ b ∧ [a, b, a] <+ l := by
  induction l with
  | nil => cases hsub
  | cons c l ih =>
    cases hsub with
    | cons _ hsub =>
      obtain ⟨b, hb, hmore⟩ := ih h.tail hsub
      exact ⟨b, hb, hmore.cons c⟩
    | cons_cons _ hsub =>
      cases l with
      | nil => cases hsub
      | cons b l =>
        have hab := (isChain_cons_cons.1 h).1
        have hmem := (mem_cons.1 (singleton_sublist.1 hsub)).resolve_left hab
        exact ⟨b, hab, ((singleton_sublist.2 hmem).cons_cons b).cons_cons a⟩

variable [DecidableEq α]

theorem IsChain.sublist_destutter'_ne {chain : List α} (h : chain.IsChain (· ≠ ·)) (l : List α) :
    ∀ {a : α}, chain <+ a :: l → chain <+ l.destutter' (· ≠ ·) a := by
  induction l generalizing chain with
  | nil => exact fun hsub => hsub
  | cons b l ih =>
    intro a hsub
    by_cases hab : a ≠ b
    · -- the list begins with `a`, or not
      rw [destutter'_cons_pos l hab]
      cases hsub with
      | cons _ hsub => exact (ih h hsub).cons a
      | cons_cons _ hsub => exact (ih h.tail hsub).cons_cons a
    · obtain rfl := not_not.1 hab
      rw [destutter'_cons_neg l hab]
      refine ih h ?_
      cases hsub with
      | cons _ hsub => exact hsub
      | cons_cons _ hsub =>
        cases hsub with
        | cons _ hsub => exact hsub.cons_cons a
        | cons_cons _ hsub => exact absurd rfl (isChain_cons_cons.1 h).1

theorem IsChain.sublist_destutter_ne {chain l : List α} (h : chain.IsChain (· ≠ ·))
    (hsub : chain <+ l) : chain <+ l.destutter (· ≠ ·) := by
  cases l with
  | nil => exact hsub
  | cons a l => exact h.sublist_destutter'_ne l hsub

theorem mem_destutter_ne {a : α} {l : List α} : a ∈ l.destutter (· ≠ ·) ↔ a ∈ l := by
  constructor
  · exact fun h => (destutter_sublist _ l).subset h
  · intro h
    have hsub : [a] <+ l.destutter (· ≠ ·) :=
      (isChain_singleton a).sublist_destutter_ne (singleton_sublist.2 h)
    exact singleton_sublist.1 hsub

/-- There are no duplicates exactly if nothing occurs again after something else. -/
theorem nodup_destutter_ne_iff {l : List α} :
    (l.destutter (· ≠ ·)).Nodup ↔ ∀ a b, a ≠ b → ¬ [a, b, a] <+ l := by
  constructor
  · intro h a b hab hsub
    have hchain : [a, b, a].IsChain (· ≠ ·) := by simp [hab, Ne.symm hab]
    have hnodup := h.sublist (hchain.sublist_destutter_ne hsub)
    simp at hnodup
  · intro h
    rw [nodup_iff_sublist]
    intro a hsub
    obtain ⟨b, hab, hmore⟩ := (isChain_destutter _ l).exists_between hsub
    exact h a b hab (hmore.trans (destutter_sublist _ l))

end List
