import CppNetEngine.Queue.Proof.Fifo
import CppNetEngine.Queue.Proof.Frame

/-!
# The bound of a lock-free queue

`TryEnqueue` compares `mCount` with `mMaxCount` before it has a node, and counts after it has linked
it. What is linked to a queue is what `mCount` says and what the calls in progress have still to
count, so the bound holds throughout a run exactly when every compare-and-swap that links a node
finds room for it (`always_bounded_iff`).
-/

namespace CppNetEngine.LockFreeQueue

variable {τ κ α : Type*} [DecidableEq κ]

/-- Neither `Count()` nor what is linked exceeds `mMaxCount`. -/
structure Bounded (m : Memory κ α) (q : κ) : Prop where
  count : (m.queue q).mCount ≤ (m.queue q).mMaxCount
  linked : ∃ values, Reaches m q values ∧ (values.length : Int) ≤ (m.queue q).mMaxCount

/-- `mCount` is less than `mMaxCount`, also if the calls in progress are counted that make it too
small: those of `TryDequeue` that have counted down, and not yet taken a node or counted up again,
and those of `TryEnqueue` that have linked a node, and not yet counted it. -/
def HasRoom (s : State τ κ α) (q : κ) : Prop :=
  Threads.Room s (Pc.claims q) (Pc.fails q) (Pc.pending q) (s.shared.queue q).mCount
    (s.shared.queue q).mMaxCount

/-- Bounds are not negative, and the compare-and-swap of `TryEnqueue` succeeds only where the queue
has room. -/
def RoomGuard (s : State τ κ α) (t : τ) : Action κ α → Prop
  | .construct _ maxCount _ => 0 ≤ maxCount
  | .next _ => ∀ link ∈ (s.locals t).links, s.shared.pNextNode link.2 = none → HasRoom s link.1
  | .enqueue _ _ | .dequeue _ _ => True

instance [Fintype τ] (s : State τ κ α) (q : κ) : Decidable (HasRoom s q) :=
  inferInstanceAs (Decidable (Threads.Room _ _ _ _ _ _))

instance [Fintype τ] (s : State τ κ α) (t : τ) : ∀ a, Decidable (RoomGuard s t a)
  | .construct _ maxCount _ => inferInstanceAs (Decidable (0 ≤ maxCount))
  | .next _ => Option.decidableForallMem _
  | .enqueue _ _ | .dequeue _ _ => inferInstanceAs (Decidable True)

/-! ## What a step links and takes -/

section Seen

variable {m m' : Memory κ α} {pc pc' : Pc κ α} {q q' : κ} {k : Outside}

theorem linkedTo_append (l l' : List (Event κ α)) :
    linkedTo q (l ++ l') = linkedTo q l ++ linkedTo q l' := List.filterMap_append

theorem takenFrom_append (l l' : List (Event κ α)) :
    takenFrom q (l ++ l') = takenFrom q l ++ takenFrom q l' := List.filterMap_append

@[simp] theorem linkedTo_linked (data : α) : linkedTo q [.linked q data] = [data] := by
  simp [linkedTo]

theorem linkedTo_other (hq : q' ≠ q) (data : α) : linkedTo q [.linked q' data] = [] := by
  simp [linkedTo, hq]

@[simp] theorem linkedTo_taken (data : α) : linkedTo q [.taken q' data] = [] := rfl

@[simp] theorem takenFrom_linked (data : α) : takenFrom q [.linked q' data] = [] := rfl

@[simp] theorem takenFrom_taken (data : α) : takenFrom q [.taken q data] = [data] := by
  simp [takenFrom]

theorem takenFrom_other (hq : q' ≠ q) (data : α) : takenFrom q [.taken q' data] = [] := by
  simp [takenFrom, hq]

/-- A step links to the queue of its compare-and-swap, one node, or to none. -/
theorem linkedTo_seen : linkedTo q (seen m pc) = [] ∨ ∃ b data, pc.links = some (q, b) ∧
    m.pNextNode b = none ∧ seen m pc = [.linked q data] := by
  cases pc with
  | idle => exact .inl rfl
  | enqueue q' data step =>
    cases step with
    | swap a pNode =>
      cases pNode with
      | none => exact .inl rfl
      | some b =>
        by_cases hlast : m.pNextNode b = none
        · by_cases hq : q' = q
          · subst hq
            exact .inr ⟨b, data, rfl, hlast, if_pos hlast⟩
          · left
            rw [seen, if_pos hlast, linkedTo_other hq]
        · left
          rw [seen, if_neg hlast]
          rfl
    | loadCount | newObject | setData | setNext | readTail | readNext | readTailAgain | retry
    | moveTail | fetchAdd => exact .inl rfl
  | dequeue q' outData e d step =>
    left
    cases step with
    | swap =>
      rw [seen]
      split <;> rfl
    | fetchSub | fetchAdd | compare | compareTail | compareHead | moveTail | readCount | readNode
    | readNext | readData | deleteObject => rfl

omit [DecidableEq κ] in
theorem seen_links {b : Nat} (hlinks : pc.links = some (q, b)) (hlast : m.pNextNode b = none) :
    ∃ data, seen m pc = [.linked q data] := by
  cases pc with
  | enqueue q' data step =>
    cases step with
    | swap a pNode =>
      obtain ⟨b', rfl, heq⟩ := Option.map_eq_some_iff.1 hlinks
      cases heq
      exact ⟨data, if_pos hlast⟩
    | _ => cases hlinks
  | _ => cases hlinks

end Seen

/-! ## The bound -/

variable [DecidableEq τ] {l l' : List (Event κ α)} {s s' : State τ κ α} {g g' : κ → List Nat}
  {t : τ} {q : κ} {m : Memory κ α} {pc : Pc κ α}

omit [DecidableEq τ] in
/-- As many nodes come to a queue as are linked and not taken. -/
theorem Inv.length_step (h : Inv l s g) (h' : Inv (l ++ l') s' g') (q : κ) :
    (g' q).tail.length + (takenFrom q l').length =
      (g q).tail.length + (linkedTo q l').length := by
  have hold := congrArg List.length (h.order q)
  have hnew := congrArg List.length (h'.order q)
  rw [linkedTo_append, takenFrom_append] at hnew
  simp only [List.length_append, List.length_map] at hold hnew
  omega

omit [DecidableEq τ] in
theorem Inv.bounded_iff (h : Inv l s g) (q : κ) :
    Bounded s.shared q ↔ ((g q).tail.length : Int) ≤ (s.shared.queue q).mMaxCount := by
  constructor
  · rintro ⟨-, values, ⟨nodes, hnodes, rfl⟩, hle⟩
    rw [(h.memory.queue q).linked.unique hnodes, ← List.length_map s.shared.data]
    exact hle
  · intro hle
    have hcount : (s.shared.queue q).mCount ≤ (g q).tail.length := Threads.Counted.le (h.count q)
    refine ⟨by omega, _, h.reaches q, ?_⟩
    rw [List.length_map]
    exact hle

omit [DecidableEq τ] in
/-- There is room where fewer nodes than `mMaxCount` are linked. -/
theorem Inv.hasRoom_iff (h : Inv l s g) (q : κ) :
    HasRoom s q ↔ ((g q).tail.length : Int) < (s.shared.queue q).mMaxCount :=
  Threads.Counted.room_iff (h.count q)

/-- The invariant, with the bound. -/
def BoundInv (s : State τ κ α) : Prop :=
  ∃ l g, Inv l s g ∧ ∀ q, ((g q).tail.length : Int) ≤ (s.shared.queue q).mMaxCount

omit [DecidableEq τ] in
theorem Inv.nil_of_fresh (h : Inv l s g) (hq : (s.shared.queue q).mHead.pNode = none) :
    g q = [] := by
  have hlinked := (h.memory.queue q).linked
  rw [hq] at hlinked
  exact hlinked.eq_nil

omit [DecidableEq τ] in
theorem act_maxCount {a : Action κ α} (hs : act a s.shared (s.locals t) = some (m, pc))
    (ha : ∀ maxCount a', a ≠ .construct q maxCount a') :
    (m.queue q).mMaxCount = (s.shared.queue q).mMaxCount := by
  cases a with
  | next k => exact step_maxCount hs
  | construct q' maxCount a' =>
    have hne : q ≠ q' := fun heq => ha maxCount a' (by rw [heq])
    cases hpc : s.locals t <;> rw [hpc] at hs <;> cases hs
    rw [construct_other hne]
  | enqueue | dequeue =>
    cases hpc : s.locals t <;> rw [hpc] at hs <;> cases hs
    rfl

/-- **A step that finds room keeps the bound.** -/
theorem BoundInv.kept (h : BoundInv s) {a : Action κ α} (hguard : CallsGuard s t a)
    (hlink : LinkGuard s t) (hroom : RoomGuard s t a)
    (hs : act a s.shared (s.locals t) = some (m, pc)) : BoundInv (s.set t m pc) := by
  obtain ⟨l, g, hI, hle⟩ := h
  obtain ⟨g', hI'⟩ := hI.act hguard hlink hs
  refine ⟨_, g', hI', fun q => ?_⟩
  have hlength := hI.length_step hI' q
  have hq := hle q
  rw [Threads.set_shared]
  cases a with
  | next k =>
    rw [act_maxCount hs nofun]
    rcases (linkedTo_seen : linkedTo q (seen s.shared (s.locals t)) = [] ∨ _) with
      hnil | ⟨b, data, hlinks, hlast, hseen⟩
    · rw [show linkedTo q (watched s (.thread t (.next k))) = [] from hnil] at hlength
      rw [List.length_nil] at hlength
      omega
    · have hlt := (hI.hasRoom_iff q).1 (hroom (q, b) hlinks hlast)
      rw [show watched s (.thread t (.next k)) = [.linked q data] from hseen, linkedTo_linked,
        takenFrom_linked, List.length_singleton, List.length_nil] at hlength
      omega
  | construct q' maxCount a' =>
    have hsame : (g' q).tail.length = (g q).tail.length := hlength
    rw [hsame]
    by_cases heq : q = q'
    · subst heq
      rw [hI.nil_of_fresh hguard.1]
      cases hpc : s.locals t <;> rw [hpc] at hs <;> cases hs
      rw [construct_self]
      exact hroom
    · rw [act_maxCount hs (by rintro _ _ hc; cases hc; exact heq rfl)]
      exact hq
  | enqueue | dequeue =>
    have hsame : (g' q).tail.length = (g q).tail.length := hlength
    rw [act_maxCount hs nofun, hsame]
    exact hq

/-- **A step that finds no room ends the bound.** -/
theorem BoundInv.ended (h : BoundInv s) {a : Action κ α} (hguard : CallsGuard s t a)
    (hlink : LinkGuard s t) (hroom : ¬ RoomGuard s t a)
    (hs : act a s.shared (s.locals t) = some (m, pc)) : ∃ q, ¬ Bounded m q := by
  obtain ⟨l, g, hI, hle⟩ := h
  obtain ⟨g', hI'⟩ := hI.act hguard hlink hs
  cases a with
  | next k =>
    have hfound : ∃ link ∈ (s.locals t).links, s.shared.pNextNode link.2 = none ∧
        ¬ HasRoom s link.1 := by
      by_contra hnone
      refine hroom fun link hmem hlast => ?_
      by_contra hno
      exact hnone ⟨link, hmem, hlast, hno⟩
    obtain ⟨⟨q, b⟩, hlinks, hlast, hno⟩ := hfound
    obtain ⟨data, hseen⟩ := seen_links hlinks hlast
    have hlength := hI.length_step hI' q
    rw [show watched s (.thread t (.next k)) = [.linked q data] from hseen, linkedTo_linked,
      takenFrom_linked, List.length_singleton, List.length_nil, Nat.add_zero] at hlength
    refine ⟨q, fun hbounded => hno ((hI.hasRoom_iff q).2 ?_)⟩
    have hle' := (hI'.bounded_iff q).1 hbounded
    rw [Threads.set_shared, act_maxCount hs nofun, hlength] at hle'
    omega
  | construct q maxCount a' =>
    refine ⟨q, fun hbounded => hroom ?_⟩
    have hcount := hbounded.count
    cases hpc : s.locals t <;> rw [hpc] at hs <;> cases hs
    rw [construct_self] at hcount
    exact hcount
  | enqueue | dequeue => exact absurd trivial hroom

/-- **The bound of a queue holds throughout a run** that links its nodes at tails exactly when
every node that is linked finds room. -/
theorem always_bounded_iff {as : List (ThreadAction τ (Action κ α) Empty)}
    (hinit : (machine τ κ α).init s)
    (hallowed : (machine τ κ α).Allowed
      (Threads.Guard (fun s t a => CallsGuard s t a ∧ LinkGuard s t) fun _ _ => True) s as)
    (he : (machine τ κ α).exec s as = some s') :
    (machine τ κ α).Always (fun s => ∀ q, Bounded s.shared q) s as ↔
      (machine τ κ α).Allowed (Threads.Guard RoomGuard fun _ _ => True) s as := by
  refine Machine.always_iff_of_allowed (I := BoundInv) ?_ ?_ ?_ as ?_ hallowed he
  · rintro s ⟨l, g, hI, hle⟩ q
    exact (hI.bounded_iff q).2 (hle q)
  · intro s a s' hI hguard hroom hs
    obtain ⟨t, b, m, pc, rfl, hact, rfl⟩ | ⟨e, -⟩ := Threads.step_cases hs
    · exact hI.kept hguard.1 hguard.2 hroom hact
    · exact e.elim
  · intro s a s' hI hguard hroom hs hbounded
    obtain ⟨t, b, m, pc, rfl, hact, rfl⟩ | ⟨e, -⟩ := Threads.step_cases hs
    · obtain ⟨q, hno⟩ := hI.ended hguard.1 hguard.2 hroom hact
      exact hno (hbounded q)
    · exact e.elim
  · refine ⟨[], fun _ => [], .init hinit.1 hinit.2, fun q => ?_⟩
    rw [hinit.1.queue q]
    exact Int.le_refl _

end CppNetEngine.LockFreeQueue
