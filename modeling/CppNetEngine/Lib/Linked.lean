import Mathlib.Data.List.Nodup
import Mathlib.Logic.Function.Basic

/-!
# Linked lists

`Linked next p l`: from the pointer `p`, the links `next` lead through the cells of `l` to a null
pointer. There is one such list at most (`Linked.unique`), and it only depends on the links of its
cells (`Linked.congr`).
-/

variable {α : Type*}

/-- The cells from a pointer to the end. -/
def Linked (next : α → Option α) : Option α → List α → Prop
  | p, [] => p = none
  | p, a :: l => p = some a ∧ Linked next (next a) l

namespace Linked

variable {next next' : α → Option α} {p : Option α} {a : α} {l l' : List α}

theorem nil : Linked next none [] := rfl

theorem cons (h : Linked next (next a) l) : Linked next (some a) (a :: l) := ⟨rfl, h⟩

theorem eq_nil (h : Linked next none l) : l = [] := by
  cases l with
  | nil => rfl
  | cons a l => cases h.1

theorem of_some (h : Linked next (some a) l) : ∃ l', l = a :: l' ∧ Linked next (next a) l' := by
  cases l with
  | nil => cases h
  | cons b l =>
    obtain ⟨hb, hl⟩ := h
    cases hb
    exact ⟨l, rfl, hl⟩

theorem unique (h : Linked next p l) (h' : Linked next p l') : l = l' := by
  induction l generalizing p l' with
  | nil =>
    cases (h : p = none)
    exact h'.eq_nil.symm
  | cons a l ih =>
    obtain ⟨rfl, hl⟩ := h
    obtain ⟨l'', rfl, hl''⟩ := h'.of_some
    rw [ih hl hl'']

/-- Only the links of the cells matter. -/
theorem congr (h : Linked next p l) (hnext : ∀ b ∈ l, next' b = next b) : Linked next' p l := by
  induction l generalizing p with
  | nil => exact h
  | cons a l ih =>
    obtain ⟨hnext, hrest⟩ := List.forall_mem_cons.1 hnext
    exact ⟨h.1, hnext ▸ ih h.2 hrest⟩

theorem drop_append (h : Linked next p (l ++ a :: l')) : Linked next (some a) (a :: l') := by
  induction l generalizing p with
  | nil => exact ⟨rfl, h.2⟩
  | cons b l ih => exact ih h.2

theorem head (h : Linked next p l) : p = l.head? := by
  cases l with
  | nil => exact h
  | cons a l => exact h.1

theorem next_of_suffix (h : Linked next p l) (hl : a :: l' <:+ l) : next a = l'.head? := by
  obtain ⟨before, rfl⟩ := hl
  exact h.drop_append.2.head

theorem mem_next {b : α} (h : Linked next p l) (ha : a ∈ l) (hnext : next a = some b) : b ∈ l := by
  induction l generalizing p with
  | nil => cases ha
  | cons c l ih =>
    refine List.mem_cons_of_mem c ?_
    rcases List.mem_cons.1 ha with rfl | ha
    · have hrest := h.2
      rw [hnext] at hrest
      obtain ⟨l'', rfl, -⟩ := hrest.of_some
      exact List.mem_cons_self
    · exact ih h.2 ha

theorem mem_of_keep (h : Linked next p l) (h' : Linked next' p l')
    (hnext : ∀ b ∈ l, next b ≠ none → next' b = next b) (ha : a ∈ l) : a ∈ l' := by
  induction l generalizing p l' with
  | nil => cases ha
  | cons c l ih =>
    obtain ⟨rfl, hrest⟩ := h
    obtain ⟨l'', rfl, hrest'⟩ := h'.of_some
    obtain ⟨hc, hnext⟩ := List.forall_mem_cons.1 hnext
    rcases List.mem_cons.1 ha with rfl | ha
    · exact List.mem_cons_self
    · refine List.mem_cons_of_mem c (ih hrest ?_ hnext ha)
      rw [← hc fun hnone => ?_]
      · exact hrest'
      · rw [hnone] at hrest
        rw [hrest.eq_nil] at ha
        cases ha

/-- A cell is linked to the last one. -/
theorem concat [DecidableEq α] {b : α} (h : Linked next p (l ++ [a])) (ha : a ∉ l) (hb : b ∉ l)
    (hab : a ≠ b) (hnext : next b = none) :
    Linked (Function.update next a (some b)) p (l ++ [a, b]) := by
  induction l generalizing p with
  | nil =>
    refine ⟨h.1, ?_⟩
    rw [Function.update_self]
    refine ⟨rfl, ?_⟩
    rw [Function.update_of_ne (Ne.symm hab)]
    exact hnext
  | cons c l ih =>
    obtain ⟨hac, ha⟩ := not_or.1 (fun hmem => ha (List.mem_cons.2 hmem))
    refine ⟨h.1, ?_⟩
    rw [Function.update_of_ne (Ne.symm hac)]
    exact ih h.2 ha fun hmem => hb (List.mem_cons_of_mem _ hmem)

theorem update [DecidableEq α] (h : Linked next p l) (ha : a ∉ l) (q : Option α) :
    Linked (Function.update next a q) p l :=
  h.congr fun b hb => Function.update_of_ne (by rintro rfl; exact ha hb) _ _

end Linked
