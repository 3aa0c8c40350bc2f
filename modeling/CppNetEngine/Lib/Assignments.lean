import Mathlib.Data.List.Basic

/-!
# Assignments

A table that is filled by `table[key] = value`, as the list of these assignments in their order: the
last one to a key counts (`find`). `find_flatMap_filter` and `find_flatMap_last` are about tables
that are filled part by part, `foldlM_append` about a loop that can fail and fills one.
-/

/-- The assignments to a table, the first one first. -/
abbrev Assignments (κ ν : Type*) := List (κ × ν)

namespace Assignments

variable {κ ν α : Type*}

/-- What each pass of a loop appends is appended by the loop. -/
theorem foldlM_append {f : List α → ν → Option (List α)} {g : ν → List α} {l : List ν}
    (hstep : ∀ x ∈ l, ∀ s s', f s x = some s' → s' = s ++ g x) :
    ∀ {s s' : List α}, l.foldlM f s = some s' → s' = s ++ l.flatMap g := by
  induction l with
  | nil =>
    intro s s' h
    cases h
    exact (List.append_nil s).symm
  | cons x l ih =>
    intro s s' h
    rw [List.foldlM_cons] at h
    obtain ⟨s1, h1, h2⟩ := Option.bind_eq_some_iff.1 h
    have hfirst := hstep x List.mem_cons_self s s1 h1
    have hrest := ih (fun y hy => hstep y (List.mem_cons_of_mem x hy)) h2
    rw [hrest, hfirst, List.flatMap_cons, List.append_assoc]

theorem foldlM_step {σ : Type*} {f : σ → α → Option σ} {l : List α} :
    ∀ {s s' : σ}, l.foldlM f s = some s' → ∀ a ∈ l, ∃ s1 s2, f s1 a = some s2 := by
  induction l with
  | nil => exact fun _ _ ha => absurd ha List.not_mem_nil
  | cons x l ih =>
    intro s s' h a ha
    rw [List.foldlM_cons] at h
    obtain ⟨s1, h1, h2⟩ := Option.bind_eq_some_iff.1 h
    rcases List.mem_cons.1 ha with rfl | ha
    · exact ⟨s, s1, h1⟩
    · exact ih h2 a ha

variable [DecidableEq κ]

/-- The value that was assigned last. -/
def find : Assignments κ ν → κ → Option ν
  | [], _ => none
  | (k, v) :: l, key => (find l key).or (if k = key then some v else none)

theorem find_append (l l' : Assignments κ ν) (key : κ) :
    find (l ++ l') key = (find l' key).or (find l key) := by
  induction l with
  | nil => simp [find]
  | cons a l ih => rw [List.cons_append, find, find, ih, Option.or_assoc]

theorem find_eq_none_iff {l : Assignments κ ν} {key : κ} :
    find l key = none ↔ ∀ v, (key, v) ∉ l := by
  induction l with
  | nil => simp [find]
  | cons a l ih =>
    obtain ⟨k, v⟩ := a
    rw [find, Option.or_eq_none_iff, ih]
    by_cases hk : k = key
    · subst hk
      rw [if_pos rfl]
      exact ⟨fun h => absurd h.2 (Option.some_ne_none v), fun h => absurd List.mem_cons_self (h v)⟩
    · simp [hk, Ne.symm hk]

/-- The last assignment to a key is one after which there is none to it. -/
theorem find_eq_some_iff {l : Assignments κ ν} {key : κ} {v : ν} :
    find l key = some v ↔
      ∃ before after, l = before ++ (key, v) :: after ∧ ∀ v', (key, v') ∉ after := by
  constructor
  · intro h
    induction l with
    | nil => cases h
    | cons a l ih =>
      obtain ⟨k, x⟩ := a
      rw [find] at h
      cases hrest : find l key with
      | some y =>
        rw [hrest] at h
        cases h
        obtain ⟨before, after, rfl, hafter⟩ := ih hrest
        exact ⟨(k, x) :: before, after, rfl, hafter⟩
      | none =>
        rw [hrest, Option.none_or] at h
        split at h
        · rename_i hk
          cases h
          subst hk
          exact ⟨[], l, rfl, find_eq_none_iff.1 hrest⟩
        · cases h
  · rintro ⟨before, after, rfl, hafter⟩
    rw [find_append, find, find_eq_none_iff.2 hafter]
    simp

/-! ## Keys -/

theorem filter_key {f : α → κ} {l : List α} (h : (l.map f).Nodup) (key : κ) :
    l.filter (f · = key) = (l.find? (f · = key)).toList := by
  induction l with
  | nil => rfl
  | cons a l ih =>
    rw [List.map_cons, List.nodup_cons] at h
    by_cases ha : f a = key
    · have hnone : l.filter (f · = key) = [] := by
        rw [List.filter_eq_nil_iff]
        intro b hb heq
        exact h.1 (List.mem_map.2 ⟨b, hb, (of_decide_eq_true heq).trans ha.symm⟩)
      simp only [List.filter_cons, List.find?_cons, ha, decide_true, if_true, hnone]
      rfl
    · simp only [List.filter_cons, List.find?_cons, ha, decide_false, Bool.false_eq_true, if_false,
        ih h.2]

theorem filter_key_mem {f : α → κ} {l : List α} (h : (l.map f).Nodup) {a : α} (ha : a ∈ l) :
    l.filter (f · = f a) = [a] := by
  have hmem : a ∈ l.filter (f · = f a) := List.mem_filter.2 ⟨ha, decide_eq_true rfl⟩
  rw [filter_key h, Option.mem_toList] at hmem
  rw [filter_key h, hmem]
  rfl

/-! ## Tables filled part by part -/

/-- Parts that do not assign to the key can be left out. -/
theorem find_flatMap_filter {g : α → Assignments κ ν} {p : α → Bool} {key : κ} (l : List α)
    (h : ∀ a ∈ l, p a = false → find (g a) key = none) :
    find (l.flatMap g) key = find ((l.filter p).flatMap g) key := by
  induction l with
  | nil => rfl
  | cons a l ih =>
    have hrest := ih fun b hb => h b (List.mem_cons_of_mem a hb)
    rw [List.flatMap_cons, find_append, hrest]
    by_cases hp : p a = true
    · rw [List.filter_cons_of_pos hp, List.flatMap_cons, find_append]
    · rw [List.filter_cons_of_neg hp, h a List.mem_cons_self (Bool.eq_false_iff.2 hp),
        Option.or_none]

theorem find_flatMap_last {g : α → Assignments κ ν} {l : List α} {a : α} {key : κ} {v : ν}
    (hlast : l.getLast? = some a) (h : find (g a) key = some v) :
    find (l.flatMap g) key = some v := by
  obtain ⟨before, rfl⟩ := List.getLast?_eq_some_iff.1 hlast
  rw [List.flatMap_append, find_append, List.flatMap_singleton, h]
  rfl

theorem find_filterMap_eq_some_iff {f : α → Option (κ × ν)} {l : List α} {key : κ} {v : ν} :
    find (l.filterMap f) key = some v ↔ ∃ before a after, l = before ++ a :: after ∧
      f a = some (key, v) ∧ ∀ b ∈ after, ∀ v', f b ≠ some (key, v') := by
  rw [find_eq_some_iff]
  constructor
  · rintro ⟨before, after, heq, hafter⟩
    obtain ⟨l1, l2, rfl, -, h2⟩ := List.filterMap_eq_append_iff.1 heq
    obtain ⟨l3, a, l4, rfl, -, ha, rfl⟩ := List.filterMap_eq_cons_iff.1 h2
    refine ⟨l1 ++ l3, a, l4, (List.append_assoc _ _ _).symm, ha, fun b hb v' hv' => ?_⟩
    exact hafter v' (List.mem_filterMap.2 ⟨b, hb, hv'⟩)
  · rintro ⟨before, a, after, rfl, ha, hafter⟩
    refine ⟨before.filterMap f, after.filterMap f, ?_, fun v' hv' => ?_⟩
    · rw [List.filterMap_append, List.filterMap_cons, ha]
    · obtain ⟨b, hb, hv⟩ := List.mem_filterMap.1 hv'
      exact hafter b hb v' hv

end Assignments
