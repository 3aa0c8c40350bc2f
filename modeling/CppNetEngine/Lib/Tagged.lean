import Mathlib.Data.List.Infix

/-!
# Tagged stacks

A stack, and a tag that counts what was popped from it; what is pushed is not counted. Whoever reads
the tag, and then the cells from the top on, knows later, if the tag still is the same, that these
cells are still there (`Seen.stable`), and if the first of them is at the top, that nothing is above
them (`Seen.eq_of_top`): that the same cell is at the top again after others were popped and it was
pushed again does not go unnoticed.
-/

namespace TaggedStack

variable {α : Type*}

/-- A step of a stack and its tag. -/
inductive Step : Nat → List α → Nat → List α → Prop
  | refl {tag : Nat} {l : List α} : Step tag l tag l
  | push {tag : Nat} {l : List α} (a : α) : Step tag l tag (a :: l)
  | pop {tag : Nat} {a : α} {l : List α} : Step tag (a :: l) (tag + 1) l

/-- The tag was `n` when it was read, and after that the cells were on the stack. -/
structure Seen (tag : Nat) (l : List α) (n : Nat) (cells : List α) : Prop where
  le : n ≤ tag
  suffix : n = tag → cells <:+ l

namespace Seen

variable {tag tag' n : Nat} {l l' cells : List α} {a : α}

theorem start : Seen tag l tag [] := ⟨Nat.le_refl _, fun _ => List.nil_suffix⟩

theorem read (h : Seen tag l n cells) : Seen tag l n l := ⟨h.le, fun _ => List.suffix_rfl⟩

theorem stable (h : Seen tag l n cells) (hstep : Step tag l tag' l') : Seen tag' l' n cells := by
  cases hstep with
  | refl => exact h
  | push a => exact ⟨h.le, fun heq => (h.suffix heq).trans (List.suffix_cons a l)⟩
  | pop => exact ⟨Nat.le_succ_of_le h.le, fun heq => absurd (heq ▸ h.le) (Nat.not_succ_le_self _)⟩

/-- **No change goes unnoticed**: if the tag is the same and the cell that was read is at the top,
the stack is as it was read. -/
theorem eq_of_top (h : Seen tag (a :: l) tag (a :: cells)) (hnodup : (a :: l).Nodup) :
    l = cells := by
  obtain ⟨before, hbefore⟩ := h.suffix rfl
  cases before with
  | nil => exact (List.cons.inj hbefore).2.symm
  | cons b before =>
    obtain ⟨rfl, hrest⟩ := List.cons.inj hbefore
    have hmem : b ∈ l := hrest ▸ List.mem_append_right before List.mem_cons_self
    exact absurd hmem (List.nodup_cons.1 hnodup).1

end Seen

end TaggedStack
