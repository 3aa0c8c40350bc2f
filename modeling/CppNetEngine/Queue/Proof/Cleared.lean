import CppNetEngine.Queue.Proof.Alone
import CppNetEngine.Queue.Proof.Frame
import Mathlib.Data.Fintype.EquivFin

/-!
# A queue that is cleared

Calls of `TryEnqueue` and `TryDequeue` do to a queue what they do to a list (`Holds.runOp_eq`), and the
destructor deletes what is left. `Clear` leaves the head at a node that it has deleted, and its count
as it was: whichever calls come after it, one of them, or the destructor, deletes that node again,
if `NewObject` does not give it (`Stale.runOp`). So it is the calls without `Clear` that match the
list (`matchesFifo_iff`).
-/

namespace CppNetEngine.LockFreeQueue

variable {κ α : Type*} [DecidableEq κ] {m m' : Memory κ α} {g : κ → List Nat} {q : κ}
  {k : Outside} {pc pc' : Pc κ α} {fuel d : Nat} {maxCount : Int} {op : Op α} {r : Done κ α}

/-! ## Without `Clear` -/

section Matching

variable {content : κ → List α}

omit [DecidableEq κ] in
theorem Holds.reports (h : Holds m g content) : Reports m q (content q) := by
  refine ⟨h.count q, ?_⟩
  rw [Memory.isEmpty, h.count]
  cases content q with
  | nil => rfl
  | cons x l => exact decide_eq_false (Int.natCast_ne_zero.2 (Nat.succ_ne_zero _))

omit [DecidableEq κ] in
/-- The destructor deletes the nodes of the queue. -/
theorem Holds.clear_once (h : Holds m g content) (hc : Constructed m q)
    (hfuel : (content q).length + 1 ≤ fuel) :
    ∃ r, clear fuel m q = some r ∧ r.DeletesOnce m :=
  ⟨_, clear_eq h.alone.memory (h.length hc ▸ hfuel), (h.alone.memory.queue q).nodup,
    h.alone.memory.allocated q⟩

/-- **A call does to the queue what it does to the list.** -/
theorem Holds.runOp_eq (h : Holds m g content) (hc : Constructed m q)
    (hmax : (m.queue q).mMaxCount = maxCount) (hfuel : 13 ≤ fuel) (hop : op ≠ .clear)
    (ha : k.address ∉ m.allocated) :
    ∃ r g', runOp k fuel m q op = some (r, (boundedFifo maxCount (content q) op).1) ∧
      r.DeletesOnce m ∧
      Holds r.memory g'
        (Function.update content q (boundedFifo maxCount (content q) op).2) ∧
      Constructed r.memory q ∧ (r.memory.queue q).mMaxCount = maxCount := by
  obtain ⟨fuel, rfl⟩ := Nat.exists_eq_add_of_le' hfuel
  have hsame : Holds m g (Function.update content q (content q)) := by
    rw [Function.update_eq_self]
    exact h
  cases op with
  | clear => exact absurd rfl hop
  | tryEnqueue data =>
    by_cases hroom : ((content q).length : Int) < maxCount
    · obtain ⟨b, hrun, hholds⟩ := h.tryEnqueue fuel data hc (hmax.symm ▸ hroom) ha
      rw [boundedFifo, if_pos hroom]
      refine ⟨_, _, congrArg (Option.map _) hrun, ⟨List.nodup_nil, nofun⟩, hholds, ?_, ?_⟩
      · unfold Constructed
        rw [enqueueNode_mHead]
        exact hc
      · exact enqueueNode_mMaxCount.trans hmax
    · have hrun := h.tryEnqueue_full k (fuel + 12) data (hmax.symm ▸ Int.not_lt.1 hroom)
      rw [boundedFifo, if_neg hroom]
      exact ⟨_, _, congrArg (Option.map _) hrun, ⟨List.nodup_nil, nofun⟩, hsame, hc, hmax⟩
  | tryDequeue outData =>
    cases hl : content q with
    | nil =>
      have hrun := h.tryDequeue_empty k (fuel + 11) outData hl
      rw [hl] at hsame
      exact ⟨_, _, congrArg (Option.map _) hrun, ⟨List.nodup_nil, nofun⟩, hsame, hc, hmax⟩
    | cons x l =>
      obtain ⟨p, n, hrun, hholds, hp, -⟩ := h.tryDequeue k (fuel + 4) outData hc hl
      refine ⟨_, _, congrArg (Option.map _) hrun, ⟨List.nodup_singleton p, ?_⟩, hholds, ?_, ?_⟩
      · exact List.forall_mem_singleton.2 hp
      · unfold Constructed
        rw [dequeueNode_mHead]
        exact nofun
      · exact dequeueNode_mMaxCount.trans hmax

theorem boundedFifo_length (maxCount : Int) (op : Op α) (l : List α) :
    (boundedFifo maxCount l op).2.length ≤ l.length + 1 := by
  cases op with
  | tryEnqueue data =>
    rw [boundedFifo]
    split
    · rw [List.length_append, List.length_singleton]
    · exact Nat.le_succ _
  | tryDequeue =>
    rw [boundedFifo, List.length_tail]
    omega
  | clear => exact Nat.zero_le _

end Matching

/-! ## After `Clear` -/

/-- The node at the head has been deleted. -/
structure Stale (m : Memory κ α) (q : κ) (d : Nat) : Prop where
  head : (m.queue q).mHead.pNode = some d
  gone : d ∉ m.allocated

omit [DecidableEq κ] in
theorem Stale.congr (h : Stale m q d) (hhead : (m'.queue q).mHead = (m.queue q).mHead)
    (hgone : d ∈ m'.allocated → d ∈ m.allocated) : Stale m' q d := by
  refine ⟨?_, fun hd => h.gone (hgone hd)⟩
  rw [hhead]
  exact h.head

omit [DecidableEq κ] in
theorem Holds.clear_stale {content : κ → List α} (h : Holds m g content) (hc : Constructed m q)
    (hfuel : (content q).length + 1 ≤ fuel) (hr : clear fuel m q = some r) :
    ∃ d, Stale r.memory q d := by
  obtain ⟨p, rest, hg, hp⟩ := (h.alone.memory.queue q).cons_of_constructed hc
  cases hr.symm.trans (clear_eq h.alone.memory (h.length hc ▸ hfuel))
  refine ⟨p, hp, fun hin => (Finset.mem_sdiff.1 hin).2 ?_⟩
  rw [hg]
  exact List.mem_toFinset.2 List.mem_cons_self

/-- The thread is in a call on the queue, and if it has moved the head, it is about to delete the
node that was there. -/
def StaleOk (m : Memory κ α) (q : κ) (d : Nat) : Pc κ α → Prop
  | .idle => Stale m q d
  | .enqueue q' _ _ => q' = q ∧ Stale m q d
  | .dequeue q' _ expected _ step =>
    match step with
    | .deleteObject => expected.pNode = some d
    | _ => q' = q ∧ Stale m q d

omit [DecidableEq κ] in
theorem staleOk_dequeue {q' : κ} {outData : α} {e e' : Node16} {step : DequeueStep}
    (hstep : step ≠ .deleteObject) :
    StaleOk m q d (.dequeue q' outData e e' step) ↔ q' = q ∧ Stale m q d := by
  cases step with
  | deleteObject => exact absurd rfl hstep
  | _ => exact Iff.rfl

theorem StaleOk.step (h : StaleOk m q d pc) (hs : step k m pc = some (m', pc'))
    (hk : k.address ≠ d) : StaleOk m' q d pc' ∨ d ∈ pc.deletes := by
  cases pc with
  | idle => cases hs
  | enqueue q' data step =>
    obtain ⟨rfl, hstale⟩ := h
    have hframe := enqueueStep_frame hs
    have hstale' : Stale m' q' d := by
      refine hstale.congr (hframe.heads.head q') fun hd => ?_
      exact (Finset.mem_insert.1 (hframe.allocated hd)).resolve_left hk.symm
    refine .inl ?_
    obtain rfl | ⟨step', rfl⟩ := hframe.pc
    · exact hstale'
    · exact ⟨rfl, hstale'⟩
  | dequeue q' outData e e' step =>
    by_cases hstep : step = .deleteObject
    · subst hstep
      refine .inr ?_
      rw [Pc.deletes, show e.pNode = some d from h]
      exact List.mem_singleton_self d
    · obtain ⟨rfl, hstale⟩ := (staleOk_dequeue hstep).1 h
      refine .inl ?_
      cases dequeueStep_frame hs with
      | stays hheads hallocated hpc =>
        have hstale' := hstale.congr (hheads.head q') fun hd => hallocated hd
        obtain rfl | ⟨_, _, _, _, rfl, hne⟩ := hpc
        · exact hstale'
        · exact (staleOk_dequeue hne).2 ⟨rfl, hstale'⟩
      | takes _ heq _ hpc =>
        rw [hpc]
        exact heq ▸ hstale.head

/-- **A call deletes the node at the head again**, or leaves the head there. -/
theorem StaleOk.finish (h : StaleOk m q d pc) (hk : k.address ≠ d)
    (hr : finish k fuel m pc = some r) : d ∈ r.deleted ∨ Stale r.memory q d := by
  induction fuel generalizing m pc r with
  | zero =>
    cases pc with
    | idle =>
      cases hr
      exact .inr h
    | enqueue | dequeue => cases hr
  | succ fuel ih =>
    by_cases hpc : pc = .idle
    · subst hpc
      cases hr
      exact .inr h
    · rw [LockFreeQueue.finish] at hr
      · obtain ⟨⟨m', pc'⟩, hs, hrest⟩ := Option.bind_eq_some_iff.1 hr
        obtain ⟨r', hr', rfl⟩ := Option.map_eq_some_iff.1 hrest
        rcases h.step hs hk with h' | hd
        · exact (ih h' hr').imp_left (List.mem_append_right _)
        · exact .inl (List.mem_append_left _ hd)
      · exact hpc

omit [DecidableEq κ] in
theorem Stale.clear (h : Stale m q d) (hr : clear fuel m q = some r) : d ∈ r.deleted := by
  rw [LockFreeQueue.clear, h.head] at hr
  cases fuel with
  | zero => cases hr
  | succ fuel =>
    obtain ⟨r', -, rfl⟩ := Option.map_eq_some_iff.1 hr
    exact List.mem_cons_self

theorem Stale.runOp {answer : Answer α} (h : Stale m q d) (hk : k.address ≠ d)
    (hr : runOp k fuel m q op = some (r, answer)) : d ∈ r.deleted ∨ Stale r.memory q d := by
  cases op with
  | tryEnqueue data =>
    obtain ⟨r', hr', heq⟩ := Option.map_eq_some_iff.1 hr
    cases heq
    exact (show StaleOk m q d (.enqueue q data .loadCount) from ⟨rfl, h⟩).finish hk hr'
  | tryDequeue outData =>
    obtain ⟨r', hr', heq⟩ := Option.map_eq_some_iff.1 hr
    cases heq
    exact (show StaleOk m q d (.dequeue q outData ⟨none, 0⟩ ⟨none, 0⟩ .fetchSub) from
      ⟨rfl, h⟩).finish hk hr'
  | clear =>
    obtain ⟨r', hr', heq⟩ := Option.map_eq_some_iff.1 hr
    cases heq
    exact .inl (h.clear hr')

theorem exists_outside (s : Finset Nat) : ∃ k : Outside, k.address ∉ s := by
  obtain ⟨a, ha⟩ := Infinite.exists_notMem_finset s
  exact ⟨⟨a, false⟩, ha⟩

theorem Stale.not_matchesFifo {ops : List (Op α)} {l : List α} (h : Stale m q d) :
    ¬ MatchesFifo fuel q maxCount m l ops := by
  induction ops generalizing m l with
  | nil =>
    rintro ⟨-, r, hr, -, hallocated⟩
    exact h.gone (hallocated d (h.clear hr))
  | cons op ops ih =>
    rintro ⟨-, hops⟩
    obtain ⟨k, hk⟩ := exists_outside (insert d m.allocated)
    obtain ⟨hkd, hka⟩ := not_or.1 fun hor => hk (Finset.mem_insert.2 hor)
    obtain ⟨r, hr, ⟨-, hallocated⟩, hrest⟩ := hops k hka
    rcases h.runOp hkd hr with hd | hstale
    · exact h.gone (hallocated d hd)
    · exact ih hstale hrest

/-! ## Runs -/

/-- **Without `Clear` the calls match the list**, and with it they do not. -/
theorem Holds.matches_iff {content : κ → List α} {ops : List (Op α)}
    (h : Holds m g content) (hc : Constructed m q) (hmax : (m.queue q).mMaxCount = maxCount)
    (hfuel : (content q).length + ops.length + 13 ≤ fuel) :
    MatchesFifo fuel q maxCount m (content q) ops ↔ .clear ∉ ops := by
  induction ops generalizing m g content with
  | nil =>
    have hnodes : (content q).length + 1 ≤ fuel := by omega
    obtain ⟨r, hr, honce⟩ := h.clear_once hc hnodes
    exact ⟨fun _ => List.not_mem_nil, fun _ => ⟨h.reports, r, hr, honce⟩⟩
  | cons op ops ih =>
    rw [List.length_cons] at hfuel
    have hsteps : 13 ≤ fuel := by omega
    by_cases hop : op = .clear
    · subst hop
      refine ⟨fun ⟨_, hops⟩ => ?_, fun hno => absurd List.mem_cons_self hno⟩
      -- the head is left at a node that was deleted
      obtain ⟨k, hk⟩ := exists_outside m.allocated
      obtain ⟨r, hr, -, hrest⟩ := hops k hk
      obtain ⟨r', hr', heq⟩ := Option.map_eq_some_iff.1 hr
      cases heq
      obtain ⟨d, hstale⟩ := h.clear_stale hc (by omega) hr'
      exact absurd hrest hstale.not_matchesFifo
    · have hstep : ∀ k : Outside, k.address ∉ m.allocated →
          ∃ r, runOp k fuel m q op = some (r, (boundedFifo maxCount (content q) op).1) ∧
            r.DeletesOnce m ∧
            (MatchesFifo fuel q maxCount r.memory (boundedFifo maxCount (content q) op).2 ops ↔
              .clear ∉ ops) := by
        intro k hk
        obtain ⟨r, g', hr, honce, hholds, hc', hmax'⟩ := h.runOp_eq hc hmax hsteps hop hk
        have hrest := ih hholds hc' hmax'
        rw [Function.update_self] at hrest
        refine ⟨r, hr, honce, hrest ?_⟩
        have hlength := boundedFifo_length maxCount op (content q)
        omega
      have hmem : .clear ∉ op :: ops ↔ .clear ∉ ops :=
        not_congr ⟨fun hin => (List.mem_cons.1 hin).resolve_left (Ne.symm hop),
          List.mem_cons_of_mem _⟩
      rw [hmem]
      constructor
      · rintro ⟨-, hops⟩
        obtain ⟨k, hk⟩ := exists_outside m.allocated
        obtain ⟨r, hr, -, hiff⟩ := hstep k hk
        obtain ⟨r', hr', -, hrest⟩ := hops k hk
        cases hr.symm.trans hr'
        exact hiff.1 hrest
      · intro hno
        refine ⟨h.reports, fun k hk => ?_⟩
        obtain ⟨r, hr, honce, hiff⟩ := hstep k hk
        exact ⟨r, hr, honce, hiff.2 hno⟩

/-- **When a queue is a bounded FIFO queue for one thread**, from its construction to its
destruction: exactly if `Clear` is not called before that. -/
theorem matchesFifo_iff {a : Nat} {ops : List (Op α)}
    (hm : ∀ q, m.queue q = ⟨0, 0, ⟨none, 0⟩, ⟨none, 0⟩⟩) (ha : a ∉ m.allocated)
    (hfuel : ops.length + 13 ≤ fuel) :
    MatchesFifo fuel q maxCount (m.construct q maxCount a) [] ops ↔ .clear ∉ ops := by
  have hholds : Holds m (fun _ => []) fun _ => [] := ⟨.init hm, fun _ => rfl⟩
  have hq : ¬ Constructed m q := by
    unfold Constructed
    rw [hm]
    exact fun hne => hne rfl
  refine (hholds.construct hq ha).matches_iff ?_ ?_ ?_
  · unfold Constructed
    rw [construct_self]
    exact nofun
  · rw [construct_self]
  · rw [List.length_nil, Nat.zero_add]
    exact hfuel

/-! ## A queue of two elements -/

/-- A queue that is not constructed. -/
def unconstructed : Memory Unit Nat :=
  ⟨fun _ => ⟨0, 0, ⟨none, 0⟩, ⟨none, 0⟩⟩, fun _ => 0, fun _ => none, ∅⟩

theorem matchesFifo_iff_full : MatchesFifo 17 () 2 (unconstructed.construct () 2 0) []
    [.tryEnqueue 5, .tryEnqueue 6, .tryEnqueue 7, .tryDequeue 0] :=
  (matchesFifo_iff (fun _ => rfl) (by decide) (by decide)).2 (by decide)

/-- **A queue that is cleared** still counts the element that it had. -/
theorem not_matchesFifo : ¬ MatchesFifo 15 () 2 (unconstructed.construct () 2 0) []
    [.tryEnqueue 5, .clear] := by
  rintro ⟨-, hops⟩
  obtain ⟨r, hr, -, -, hops⟩ := hops ⟨1, false⟩ (by decide)
  obtain ⟨k, hk⟩ := exists_outside r.memory.allocated
  obtain ⟨r', hr', -, ⟨hcount, -⟩, -⟩ := hops k hk
  obtain ⟨r'', hclear, heq⟩ := Option.map_eq_some_iff.1 hr'
  cases heq
  have hone : (runOp ⟨1, false⟩ 15 (unconstructed.construct () 2 0) () (.tryEnqueue 5)).bind
      (fun r => (clear 15 r.1.memory ()).map fun r => r.memory.count ()) = some 1 := by
    decide +kernel
  rw [hr, Option.bind_some, hclear, Option.map_some, hcount] at hone
  cases hone

end CppNetEngine.LockFreeQueue
