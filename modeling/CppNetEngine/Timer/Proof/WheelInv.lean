import Mathlib.Algebra.BigOperators.Fin
import Mathlib.Tactic.Abel
import Mathlib.Tactic.SplitIfs
import CppNetEngine.Timer.Wheel
import CppNetEngine.Lib.Calendar

/-!
# The wheel is a calendar

`TimingWheel.Inv`: a node on level 0 expires within 256 ticks, a node on level 1 has its cascade
(the tick `e / 256 * 256`) still to come and within 65536 ticks, a node on level 2 has its cascade
(the tick `e / 65536 * 65536`) still to come and expires within 2^23 ticks; each is in the slot of
its expiry tick. `addNode` keeps it (`addNode_inv`) and so does a cascade (`cascade_inv`); after
the cascades of a tick nothing on levels 1 and 2 is due to be cascaded at it (`Settled`), so the
current slot of level 0 holds exactly the nodes that expire now (`processTick_spec`). Hence the
wheel refines the calendar of its nodes (`abs_addNode`, `abs_tickStep`, `processTick_out`).
-/

namespace CppNetEngine.TimingWheel

variable {α : Type*}

/-! ## Slots and delays as arithmetic -/

@[simp] theorem level0Size_eq : level0Size = 256 := rfl
@[simp] theorem level1Size_eq : level1Size = 256 := rfl
@[simp] theorem level2Size_eq : level2Size = 128 := rfl

@[simp] theorem depth0_val (t : Nat) : (depth0 t).val = t % 256 :=
  Nat.and_two_pow_sub_one_eq_mod t 8

@[simp] theorem depth1_val (t : Nat) : (depth1 t).val = t / 256 % 256 := by
  show (t >>> 8) &&& (2 ^ 8 - 1) = _
  rw [Nat.and_two_pow_sub_one_eq_mod, Nat.shiftRight_eq_div_pow]

@[simp] theorem depth2_val (t : Nat) : (depth2 t).val = t / 65536 % 128 := by
  show (t >>> 16) &&& (2 ^ 7 - 1) = _
  rw [Nat.and_two_pow_sub_one_eq_mod, Nat.shiftRight_eq_div_pow]

theorem getMaxDelayMs_eq (w : TimingWheel α) : getMaxDelayMs w = w.mTickIntervalMs * 2 ^ 23 := by
  simp only [getMaxDelayMs, level0Size_eq, level1Size_eq, level2Size_eq, Nat.mul_assoc]
  rw [show 256 * (256 * 128) = 2 ^ 23 by decide]

theorem delayTicks_le (w : TimingWheel α) (delayMs : Nat) :
    min delayMs (getMaxDelayMs w) / w.mTickIntervalMs ≤ 2 ^ 23 := by
  rw [getMaxDelayMs_eq]
  refine Nat.div_le_of_le_mul ?_
  exact Nat.min_le_right _ _

/-! ## The nodes of a wheel -/

theorem mem_pushBack {β : Type*} {n : Nat} {f : Fin n → List β} {i j : Fin n} {b x : β} :
    x ∈ pushBack f i b j ↔ x ∈ f j ∨ (j = i ∧ x = b) := by
  unfold pushBack
  by_cases h : j = i
  · subst h; simp
  · simp [h]

theorem mem_clear {β : Type*} {n : Nat} {f : Fin n → List β} {i j : Fin n} {x : β} :
    x ∈ Function.update f i [] j ↔ x ∈ f j ∧ j ≠ i := by
  by_cases h : j = i
  · subst h; simp
  · simp [h]

/-- All entries of a level. Irreducible: unfolded, membership would run through all slots. -/
@[irreducible] def level {β : Type*} {n : Nat} (f : Fin n → List β) : Multiset β := ∑ i, (f i : Multiset β)

theorem mem_level {β : Type*} {n : Nat} {f : Fin n → List β} {x : β} :
    x ∈ level f ↔ ∃ i, x ∈ f i := by
  simp [level, Multiset.mem_sum]

theorem level_update {β : Type*} {n : Nat} (f : Fin n → List β) (i : Fin n) (l : List β) :
    level (Function.update f i l) + f i = level f + l := by
  have key : ∀ g : Fin n → List β,
      level g = g i + ∑ j ∈ Finset.univ.erase i, (g j : Multiset β) := by
    intro g
    rw [level, Finset.add_sum_erase Finset.univ (fun j => (g j : Multiset β)) (Finset.mem_univ i)]
  have hrest : ∑ j ∈ Finset.univ.erase i, (Function.update f i l j : Multiset β) =
      ∑ j ∈ Finset.univ.erase i, (f j : Multiset β) :=
    Finset.sum_congr rfl fun j hj => by rw [Function.update_of_ne (Finset.ne_of_mem_erase hj)]
  rw [key (Function.update f i l), key f, hrest, Function.update_self]
  abel

theorem level_clear {β : Type*} {n : Nat} (f : Fin n → List β) (i : Fin n) :
    level (Function.update f i []) + f i = level f := by
  simpa using level_update f i []

theorem level_pushBack {β : Type*} {n : Nat} (f : Fin n → List β) (i : Fin n) (b : β) :
    level (pushBack f i b) = b ::ₘ level f := by
  have h := level_update f i (f i ++ [b])
  rw [← Multiset.coe_add, ← add_assoc, add_right_comm] at h
  rw [pushBack, add_right_cancel h, Multiset.coe_singleton, add_comm, Multiset.singleton_add]

/-- All nodes in the wheel. -/
def pending (w : TimingWheel α) : Multiset (TimingNode α) :=
  level w.mWheel0 + level w.mWheel1 + level w.mWheel2

theorem mem_pending {w : TimingWheel α} {n : TimingNode α} :
    n ∈ pending w ↔
      (∃ i, n ∈ w.mWheel0 i) ∨ (∃ i, n ∈ w.mWheel1 i) ∨ ∃ i, n ∈ w.mWheel2 i := by
  simp only [pending, Multiset.mem_add, mem_level, or_assoc]

/-- The calendar a wheel stands for. -/
def abs (w : TimingWheel α) : Calendar (TimingNode α) := ⟨w.mCurrentTick, pending w⟩

/-! ## The invariant -/

/-- Where the levels keep their nodes (module doc). -/
structure Inv (w : TimingWheel α) : Prop where
  lvl0 : ∀ i, ∀ n ∈ w.mWheel0 i, n.mExpireTick % 256 = i.val ∧
    w.mCurrentTick ≤ n.mExpireTick ∧ n.mExpireTick < w.mCurrentTick + 256
  lvl1 : ∀ i, ∀ n ∈ w.mWheel1 i, n.mExpireTick / 256 % 256 = i.val ∧
    w.mCurrentTick ≤ n.mExpireTick / 256 * 256 ∧ 0 < n.mExpireTick / 256 ∧
    n.mExpireTick / 256 * 256 < w.mCurrentTick + 65536
  lvl2 : ∀ i, ∀ n ∈ w.mWheel2 i, n.mExpireTick / 65536 % 128 = i.val ∧
    w.mCurrentTick ≤ n.mExpireTick / 65536 * 65536 ∧ 0 < n.mExpireTick / 65536 ∧
    n.mExpireTick ≤ w.mCurrentTick + 2 ^ 23

/-- No node is due to be cascaded at the current tick. -/
structure Settled (w : TimingWheel α) : Prop where
  lvl1 : ∀ i, ∀ n ∈ w.mWheel1 i, w.mCurrentTick < n.mExpireTick / 256 * 256
  lvl2 : ∀ i, ∀ n ∈ w.mWheel2 i, w.mCurrentTick < n.mExpireTick / 65536 * 65536

theorem new_inv (tickInterval : Nat) : Inv (new α tickInterval) :=
  ⟨by simp [new], by simp [new], by simp [new]⟩

theorem new_pending (tickInterval : Nat) : pending (new α tickInterval) = 0 := by
  simp [pending, level, new]

theorem Inv.le_expire {w : TimingWheel α} (h : Inv w) {n : TimingNode α} (hn : n ∈ pending w) :
    w.mCurrentTick ≤ n.mExpireTick := by
  rcases mem_pending.1 hn with ⟨i, hi⟩ | ⟨i, hi⟩ | ⟨i, hi⟩
  · exact (h.lvl0 i n hi).2.1
  · have := (h.lvl1 i n hi).2.1; omega
  · have := (h.lvl2 i n hi).2.1; omega

theorem Inv.valid {w : TimingWheel α} (h : Inv w) : (abs w).Valid TimingNode.mExpireTick :=
  fun _ hn => h.le_expire hn

/-! ## `addNode` and the cascades -/

@[simp] theorem addNode_tick (w : TimingWheel α) (n : TimingNode α) :
    (addNode w n).mCurrentTick = w.mCurrentTick := by
  simp only [addNode]; split_ifs <;> rfl

@[simp] theorem addNode_interval (w : TimingWheel α) (n : TimingNode α) :
    (addNode w n).mTickIntervalMs = w.mTickIntervalMs := by
  simp only [addNode]; split_ifs <;> rfl

theorem addNode_pending (w : TimingWheel α) (n : TimingNode α) :
    pending (addNode w n) = n ::ₘ pending w := by
  simp only [addNode]
  split_ifs <;> simp only [pending, level_pushBack, Multiset.cons_add, Multiset.add_cons]

/-- What `addNode` does, for a node that is neither overdue nor more than 2^23 ticks away. -/
theorem addNode_cases {w : TimingWheel α} {n : TimingNode α} (h1 : w.mCurrentTick ≤ n.mExpireTick)
    (h2 : n.mExpireTick ≤ w.mCurrentTick + 2 ^ 23) :
    (n.mExpireTick < w.mCurrentTick + 256 ∧
      addNode w n = { w with mWheel0 := pushBack w.mWheel0 (depth0 n.mExpireTick) n }) ∨
    (w.mCurrentTick + 256 ≤ n.mExpireTick ∧ n.mExpireTick < w.mCurrentTick + 65536 ∧
      addNode w n = { w with mWheel1 := pushBack w.mWheel1 (depth1 n.mExpireTick) n }) ∨
    (w.mCurrentTick + 65536 ≤ n.mExpireTick ∧
      addNode w n = { w with mWheel2 := pushBack w.mWheel2 (depth2 n.mExpireTick) n }) := by
  have hd : subU64 n.mExpireTick w.mCurrentTick = n.mExpireTick - w.mCurrentTick :=
    subU64_of_le h1 (by omega)
  have hs : 256 <<< level1Bits = 65536 := rfl
  simp only [addNode, hd, level0Size_eq, hs]
  split_ifs with ha hb
  · exact .inl ⟨by omega, rfl⟩
  · exact .inr (.inl ⟨by omega, by omega, rfl⟩)
  · exact .inr (.inr ⟨by omega, rfl⟩)

theorem addNode_inv {w : TimingWheel α} (h : Inv w) {n : TimingNode α}
    (h1 : w.mCurrentTick ≤ n.mExpireTick) (h2 : n.mExpireTick ≤ w.mCurrentTick + 2 ^ 23) :
    Inv (addNode w n) := by
  obtain ⟨hlt, he⟩ | ⟨hge, hlt, he⟩ | ⟨hge, he⟩ := addNode_cases h1 h2
  all_goals rw [he]
  · refine ⟨fun i m hm => ?_, h.lvl1, h.lvl2⟩
    rcases mem_pushBack.1 hm with hm | ⟨rfl, rfl⟩
    · exact h.lvl0 i m hm
    · exact ⟨by simp, h1, hlt⟩
  · refine ⟨h.lvl0, fun i m hm => ?_, h.lvl2⟩
    rcases mem_pushBack.1 hm with hm | ⟨rfl, rfl⟩
    · exact h.lvl1 i m hm
    · exact ⟨by simp, by dsimp only; omega, by omega, by dsimp only; omega⟩
  · refine ⟨h.lvl0, h.lvl1, fun i m hm => ?_⟩
    rcases mem_pushBack.1 hm with hm | ⟨rfl, rfl⟩
    · exact h.lvl2 i m hm
    · exact ⟨by simp, by dsimp only; omega, by omega, h2⟩

/-- `addNode` puts nothing on levels 1 and 2 that is due to be cascaded now. -/
theorem addNode_settled1 {w : TimingWheel α} {n : TimingNode α}
    (h : ∀ i, ∀ m ∈ w.mWheel1 i, w.mCurrentTick < m.mExpireTick / 256 * 256)
    (h1 : w.mCurrentTick ≤ n.mExpireTick) (h2 : n.mExpireTick ≤ w.mCurrentTick + 2 ^ 23) :
    ∀ i, ∀ m ∈ (addNode w n).mWheel1 i, w.mCurrentTick < m.mExpireTick / 256 * 256 := by
  obtain ⟨-, he⟩ | ⟨hge, -, he⟩ | ⟨-, he⟩ := addNode_cases h1 h2
  all_goals rw [he]
  · exact h
  · intro i m hm
    rcases mem_pushBack.1 hm with hm | ⟨rfl, rfl⟩
    · exact h i m hm
    · omega
  · exact h

theorem addNode_settled2 {w : TimingWheel α} {n : TimingNode α}
    (h : ∀ i, ∀ m ∈ w.mWheel2 i, w.mCurrentTick < m.mExpireTick / 65536 * 65536)
    (h1 : w.mCurrentTick ≤ n.mExpireTick) (h2 : n.mExpireTick ≤ w.mCurrentTick + 2 ^ 23) :
    ∀ i, ∀ m ∈ (addNode w n).mWheel2 i, w.mCurrentTick < m.mExpireTick / 65536 * 65536 := by
  obtain ⟨-, he⟩ | ⟨-, -, he⟩ | ⟨hge, he⟩ := addNode_cases h1 h2
  all_goals rw [he]
  · exact h
  · exact h
  · intro i m hm
    rcases mem_pushBack.1 hm with hm | ⟨rfl, rfl⟩
    · exact h i m hm
    · omega

theorem cascade_tick (l : List (TimingNode α)) :
    ∀ w : TimingWheel α, (cascade w l).mCurrentTick = w.mCurrentTick ∧
      (cascade w l).mTickIntervalMs = w.mTickIntervalMs := by
  induction l with
  | nil => exact fun w => ⟨rfl, rfl⟩
  | cons n l ih =>
    intro w
    have h := ih (addNode w n)
    rw [addNode_tick, addNode_interval] at h
    exact h

theorem cascade_pending (l : List (TimingNode α)) :
    ∀ w : TimingWheel α, pending (cascade w l) = pending w + l := by
  induction l with
  | nil => intro w; simp [cascade]
  | cons n l ih =>
    intro w
    have h := ih (addNode w n)
    rw [addNode_pending, Multiset.cons_add] at h
    rw [← Multiset.cons_coe, Multiset.add_cons]
    exact h

/-- A cascade of nodes that are neither overdue nor too far away keeps the invariant, and leaves
levels 1 and 2 without nodes due to be cascaded if they had none. -/
theorem cascade_inv (l : List (TimingNode α)) :
    ∀ w : TimingWheel α, Inv w →
      (∀ n ∈ l, w.mCurrentTick ≤ n.mExpireTick ∧ n.mExpireTick ≤ w.mCurrentTick + 2 ^ 23) →
      Inv (cascade w l) ∧
      ((∀ i, ∀ m ∈ w.mWheel1 i, w.mCurrentTick < m.mExpireTick / 256 * 256) →
        ∀ i, ∀ m ∈ (cascade w l).mWheel1 i, w.mCurrentTick < m.mExpireTick / 256 * 256) ∧
      ((∀ i, ∀ m ∈ w.mWheel2 i, w.mCurrentTick < m.mExpireTick / 65536 * 65536) →
        ∀ i, ∀ m ∈ (cascade w l).mWheel2 i, w.mCurrentTick < m.mExpireTick / 65536 * 65536) := by
  induction l with
  | nil => exact fun w h _ => ⟨h, id, id⟩
  | cons n l ih =>
    intro w h hl
    obtain ⟨h1, h2⟩ := hl n List.mem_cons_self
    obtain ⟨hi, hs1, hs2⟩ := ih (addNode w n) (addNode_inv h h1 h2)
      (fun m hm => by rw [addNode_tick]; exact hl m (List.mem_cons_of_mem _ hm))
    rw [addNode_tick] at hs1 hs2
    exact ⟨hi, fun hs => hs1 (addNode_settled1 hs h1 h2),
      fun hs => hs2 (addNode_settled2 hs h1 h2)⟩

/-! ## `processTick` -/

/-- The nodes on level 1 in the slot of a block boundary `c` are those of the block of `c`. -/
theorem cascade1_spec {w : TimingWheel α} (h : Inv w) (hc : w.mCurrentTick % 256 = 0) :
    Inv (cascade1 w (depth1 w.mCurrentTick)) ∧
    (cascade1 w (depth1 w.mCurrentTick)).mCurrentTick = w.mCurrentTick ∧
    pending (cascade1 w (depth1 w.mCurrentTick)) = pending w ∧
    ∀ i, ∀ m ∈ (cascade1 w (depth1 w.mCurrentTick)).mWheel1 i,
      w.mCurrentTick < m.mExpireTick / 256 * 256 := by
  set d := depth1 w.mCurrentTick with hd
  have hdv : d.val = w.mCurrentTick / 256 % 256 := by rw [hd, depth1_val]
  set w0 : TimingWheel α := { w with mWheel1 := Function.update w.mWheel1 d [] } with hw0
  have hinv0 : Inv w0 := ⟨h.lvl0, fun i n hn => h.lvl1 i n (mem_clear.1 hn).1, h.lvl2⟩
  have hbucket : ∀ n ∈ w.mWheel1 d, w0.mCurrentTick ≤ n.mExpireTick ∧
      n.mExpireTick ≤ w0.mCurrentTick + 2 ^ 23 := by
    intro n hn
    obtain ⟨ha, hb, -, hlt⟩ := h.lvl1 d n hn
    show w.mCurrentTick ≤ _ ∧ _ ≤ w.mCurrentTick + _
    omega
  have hrest : ∀ i, ∀ m ∈ w0.mWheel1 i, w0.mCurrentTick < m.mExpireTick / 256 * 256 := by
    intro i m hm
    obtain ⟨hm, hne⟩ := mem_clear.1 hm
    obtain ⟨ha, hb, -, -⟩ := h.lvl1 i m hm
    have hne' : i.val ≠ d.val := fun he => hne (Fin.ext he)
    show w.mCurrentTick < _
    omega
  obtain ⟨hi, hs1, -⟩ := cascade_inv (w.mWheel1 d) w0 hinv0 hbucket
  refine ⟨hi, (cascade_tick _ w0).1, ?_, hs1 hrest⟩
  rw [cascade1, cascade_pending, ← hw0]
  simp only [pending, hw0]
  rw [← level_clear w.mWheel1 d]
  abel

/-- The nodes on level 2 in the slot of a block boundary `c` are those of the block of `c`, and
those that expire 2^23 ticks later. -/
theorem cascade2_spec {w : TimingWheel α} (h : Inv w) (hc : w.mCurrentTick % 65536 = 0)
    (hs : ∀ i, ∀ m ∈ w.mWheel1 i, w.mCurrentTick < m.mExpireTick / 256 * 256) :
    Inv (cascade2 w (depth2 w.mCurrentTick)) ∧
    (cascade2 w (depth2 w.mCurrentTick)).mCurrentTick = w.mCurrentTick ∧
    pending (cascade2 w (depth2 w.mCurrentTick)) = pending w ∧
    Settled (cascade2 w (depth2 w.mCurrentTick)) := by
  set d := depth2 w.mCurrentTick with hd
  have hdv : d.val = w.mCurrentTick / 65536 % 128 := by rw [hd, depth2_val]
  set w0 : TimingWheel α := { w with mWheel2 := Function.update w.mWheel2 d [] } with hw0
  have hinv0 : Inv w0 := ⟨h.lvl0, h.lvl1, fun i n hn => h.lvl2 i n (mem_clear.1 hn).1⟩
  have hbucket : ∀ n ∈ w.mWheel2 d, w0.mCurrentTick ≤ n.mExpireTick ∧
      n.mExpireTick ≤ w0.mCurrentTick + 2 ^ 23 := by
    intro n hn
    obtain ⟨ha, hb, -, hlt⟩ := h.lvl2 d n hn
    exact ⟨by show w.mCurrentTick ≤ _; omega, hlt⟩
  have hrest : ∀ i, ∀ m ∈ w0.mWheel2 i, w0.mCurrentTick < m.mExpireTick / 65536 * 65536 := by
    intro i m hm
    obtain ⟨hm, hne⟩ := mem_clear.1 hm
    obtain ⟨ha, hb, -, -⟩ := h.lvl2 i m hm
    have hne' : i.val ≠ d.val := fun he => hne (Fin.ext he)
    show w.mCurrentTick < _
    omega
  obtain ⟨hi, hs1, hs2⟩ := cascade_inv (w.mWheel2 d) w0 hinv0 hbucket
  have ht : (cascade2 w d).mCurrentTick = w.mCurrentTick := (cascade_tick _ w0).1
  refine ⟨hi, ht, ?_, ⟨by rw [ht]; exact hs1 hs, by rw [ht]; exact hs2 hrest⟩⟩
  rw [cascade2, cascade_pending, ← hw0]
  simp only [pending, hw0]
  rw [← level_clear w.mWheel2 d]
  abel

theorem cascadeTick_spec {w : TimingWheel α} (h : Inv w) :
    Inv (cascadeTick w) ∧ (cascadeTick w).mCurrentTick = w.mCurrentTick ∧
    pending (cascadeTick w) = pending w ∧ Settled (cascadeTick w) := by
  unfold cascadeTick
  simp only [depth0_val, depth1_val]
  split_ifs with hc hc'
  · obtain ⟨hi, ht, hp, hs⟩ := cascade1_spec h hc.1
    have h2 := cascade2_spec hi (by rw [ht]; omega) (by rw [ht]; exact hs)
    rw [ht, hp] at h2
    exact h2
  · obtain ⟨hi, ht, hp, hs⟩ := cascade1_spec h hc.1
    refine ⟨hi, ht, hp, ⟨by rw [ht]; exact hs, fun i m hm => ?_⟩⟩
    have := hi.lvl2 i m hm
    rw [ht] at this ⊢
    omega
  · -- no cascade at this tick: it is not a block boundary, or it is tick 0
    refine ⟨h, rfl, rfl, ⟨fun i m hm => ?_, fun i m hm => ?_⟩⟩
    · have := h.lvl1 i m hm; omega
    · have := h.lvl2 i m hm; omega

/-- **What `processTick` does**: it hands over the nodes that expire now and keeps the others. -/
theorem processTick_spec {w : TimingWheel α} (h : Inv w) :
    (∀ n ∈ (processTick w).2, n.mExpireTick = w.mCurrentTick) ∧
    (∀ n ∈ pending (processTick w).1, n.mExpireTick ≠ w.mCurrentTick) ∧
    pending w = (processTick w).2 + pending (processTick w).1 := by
  obtain ⟨hi, ht, hp, hs⟩ := cascadeTick_spec h
  set w' := cascadeTick w with hw'
  have hslot := depth0_val w.mCurrentTick
  refine ⟨fun n hn => ?_, fun n hn => ?_, ?_⟩
  · have := hi.lvl0 _ n hn
    rw [hslot, ht] at this
    omega
  · rcases mem_pending.1 hn with ⟨i, hm⟩ | ⟨i, hm⟩ | ⟨i, hm⟩
    · obtain ⟨hm, hne⟩ := mem_clear.1 hm
      have := (hi.lvl0 i n hm).1
      have hne' : i.val ≠ (depth0 w.mCurrentTick).val := fun he => hne (Fin.ext he)
      rw [hslot] at hne'
      intro he
      rw [he] at this
      exact hne' this.symm
    · have := hs.lvl1 i n hm
      rw [ht] at this
      omega
    · have := hs.lvl2 i n hm
      rw [ht] at this
      omega
  · rw [← hp]
    simp only [processTick, pending, ← hw']
    rw [← level_clear w'.mWheel0 (depth0 w.mCurrentTick)]
    abel

theorem processTick_tick {w : TimingWheel α} (h : Inv w) :
    (processTick w).1.mCurrentTick = w.mCurrentTick := (cascadeTick_spec h).2.1

theorem tickStep_inv {w : TimingWheel α} (h : Inv w) : Inv (tickStep w) := by
  obtain ⟨hi, ht, -, hs⟩ := cascadeTick_spec h
  obtain ⟨-, hne, -⟩ := processTick_spec h
  have htick : (tickStep w).mCurrentTick = w.mCurrentTick + 1 := by
    rw [← processTick_tick h]; rfl
  refine ⟨fun i n hn => ?_, fun i n hn => ?_, fun i n hn => ?_⟩
  all_goals rw [htick]
  · have h0 := hi.lvl0 i n (mem_clear.1 hn).1
    have hn' := hne n (mem_pending.2 (.inl ⟨i, hn⟩))
    rw [ht] at h0
    omega
  · have h1 := hi.lvl1 i n hn
    have hs1 := hs.lvl1 i n hn
    rw [ht] at h1 hs1
    omega
  · have h2 := hi.lvl2 i n hn
    have hs2 := hs.lvl2 i n hn
    rw [ht] at h2 hs2
    omega

/-! ## Refinement -/

theorem abs_addNode (w : TimingWheel α) (n : TimingNode α) :
    abs (addNode w n) = (abs w).insert n := by
  simp only [abs, Calendar.insert, addNode_tick, addNode_pending]

/-- A tick step of the wheel is a tick of its calendar ... -/
theorem abs_tickStep {w : TimingWheel α} (h : Inv w) :
    abs (tickStep w) = (abs w).tick TimingNode.mExpireTick := by
  obtain ⟨ho, hr, hp⟩ := processTick_spec h
  rw [Calendar.tick_eq (show (abs w).pending = _ from hp) ho hr]
  show Calendar.mk ((processTick w).1.mCurrentTick + 1) _ = Calendar.mk (w.mCurrentTick + 1) _
  rw [processTick_tick h]
  rfl

/-- ... and hands over what the calendar hands over. -/
theorem processTick_out {w : TimingWheel α} (h : Inv w) :
    ((processTick w).2 : Multiset (TimingNode α)) = (abs w).out TimingNode.mExpireTick := by
  obtain ⟨ho, hr, hp⟩ := processTick_spec h
  exact (Calendar.out_eq (show (abs w).pending = _ from hp) ho hr).symm

end CppNetEngine.TimingWheel
