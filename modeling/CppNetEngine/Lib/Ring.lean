import Mathlib.Data.List.Basic

/-!
# Rings and bounded queues

Memory used as a ring of `m` cells: `Ring.cells` are the cells from a position on, going on at `0`
behind the last, and `Ring.Put` says that values were put there and nothing else was changed.
Values put behind the cells in use are appended to them (`Ring.cells_put`). `BoundedQueue` is what
a ring is used for.
-/

namespace Ring

variable {α : Type*}

/-- `n` cells of memory from `k` on. -/
def line (p : Nat → α) (k n : Nat) : List α := (List.range n).map fun i => p (k + i)

/-- `n` cells of a ring of `m` cells, from `r` on. -/
def cells (m : Nat) (p : Nat → α) (r n : Nat) : List α :=
  (List.range n).map fun i => p ((r + i) % m)

variable {m r w n k : Nat} {p q : Nat → α} {xs : List α}

@[simp] theorem cells_length : (cells m p r n).length = n := by simp [cells]

theorem getElem_cells {i : Nat} (h : i < (cells m p r n).length) :
    (cells m p r n)[i] = p ((r + i) % m) := by
  simp [cells]

@[simp] theorem line_length : (line p k n).length = n := by simp [line]

theorem line_add {l : Nat} : line p k (n + l) = line p k n ++ line p (k + n) l := by
  simp [line, List.range_add, Nat.add_assoc]

theorem line_take : (line p r n).take k = line p r (min k n) := by
  rw [line, ← List.map_take, List.take_range]
  rfl

theorem mod_eq (h : k < 2 * m) : k % m = if k < m then k else k - m := by
  split
  · rename_i hlt
    exact Nat.mod_eq_of_lt hlt
  · rename_i hge
    rw [Nat.mod_eq_sub_mod (Nat.le_of_not_lt hge)]
    exact Nat.mod_eq_of_lt (by omega)

theorem mod_ne (hr : r < m) {i j : Nat} (hij : i < j) (hj : j < m) :
    (r + i) % m ≠ (r + j) % m := by
  rw [mod_eq (by omega), mod_eq (by omega)]
  split <;> split <;> omega

theorem cells_add : cells m p r (n + k) = cells m p r n ++ cells m p ((r + n) % m) k := by
  simp [cells, List.range_add, Nat.add_assoc]

theorem cells_take (h : k ≤ n) : (cells m p r n).take k = cells m p r k := by
  obtain ⟨d, rfl⟩ := Nat.le.dest h
  rw [cells_add, List.take_left' cells_length]

theorem cells_drop (h : k ≤ n) :
    (cells m p r n).drop k = cells m p ((r + k) % m) (n - k) := by
  obtain ⟨d, rfl⟩ := Nat.le.dest h
  rw [cells_add, List.drop_left' cells_length, Nat.add_sub_cancel_left]

theorem cells_of_le (h : r + n ≤ m) : cells m p r n = line p r n := by
  apply List.map_congr_left
  intro i hi
  have hlt := List.mem_range.1 hi
  rw [Nat.mod_eq_of_lt (by omega)]

theorem cells_of_gt (hr : r < m) (h : m ≤ r + n) (hn : n ≤ m) :
    cells m p r n = line p r (m - r) ++ line p 0 (n - (m - r)) := by
  have hsplit : n = (m - r) + (n - (m - r)) := by omega
  have hend : (r + (m - r)) % m = 0 := by
    rw [Nat.add_sub_cancel' (Nat.le_of_lt hr), Nat.mod_self]
  conv_lhs => rw [hsplit, cells_add, hend]
  rw [cells_of_le (by omega), cells_of_le (by omega)]

/-! ## Putting values into a ring -/

/-- `q` is `p` with the values put into the cells from `w` on. -/
structure Put (m w : Nat) (xs : List α) (p q : Nat → α) : Prop where
  new : ∀ i (h : i < xs.length), q ((w + i) % m) = xs[i]
  old : ∀ j < m, (∀ i < xs.length, j ≠ (w + i) % m) → q j = p j

/-- **Values put behind `n` cells** are appended to them. -/
theorem cells_put (hr : r < m) (h : Put m ((r + n) % m) xs p q) (hn : n + xs.length ≤ m) :
    cells m q r (n + xs.length) = cells m p r n ++ xs := by
  rw [cells_add]
  congr 1
  · apply List.map_congr_left
    intro i hi
    have hlt := List.mem_range.1 hi
    refine h.old _ (Nat.mod_lt _ (by omega)) fun j hj => ?_
    rw [Nat.mod_add_mod, Nat.add_assoc]
    exact mod_ne hr (by omega) (by omega)
  · apply List.ext_getElem cells_length
    intro i h1 h2
    rw [getElem_cells]
    exact h.new i h2

end Ring

/-! ## Bounded queues -/

/-- A first-in-first-out queue of at most `capacity` items. -/
structure BoundedQueue (α : Type*) where
  capacity : Nat
  items : List α
  length_le : items.length ≤ capacity

namespace BoundedQueue

variable {α : Type*}

def empty (capacity : Nat) : BoundedQueue α := ⟨capacity, [], Nat.zero_le _⟩

def clear (q : BoundedQueue α) : BoundedQueue α := empty q.capacity

/-- The room that is left. -/
def room (q : BoundedQueue α) : Nat := q.capacity - q.items.length

/-- As many of the values as there is room for are appended. -/
def push (q : BoundedQueue α) (xs : List α) : BoundedQueue α where
  capacity := q.capacity
  items := q.items ++ xs.take q.room
  length_le := by
    have hle := q.length_le
    rw [List.length_append, List.length_take, room]
    omega

@[simp] theorem items_push (q : BoundedQueue α) (xs : List α) :
    (q.push xs).items = q.items ++ xs.take q.room := rfl

/-- Values that there is no room for are not looked at. -/
theorem push_take (q : BoundedQueue α) (xs : List α) : q.push (xs.take q.room) = q.push xs := by
  simp [push, List.take_take]

/-- The first `n` items, or all of them if there are fewer. -/
def front (q : BoundedQueue α) (n : Nat) : List α := q.items.take n

def pop (q : BoundedQueue α) (n : Nat) : BoundedQueue α where
  capacity := q.capacity
  items := q.items.drop n
  length_le := by
    have hle := q.length_le
    rw [List.length_drop]
    omega

end BoundedQueue
