import CppNetEngine.Service.WaitQueue

/-!
# Wait tickets

The two counters of a wait queue count those who got a ticket and those who left the queue, as long
as they do not wrap (`Ticketed.Ok`). So they measure where in the queue a ticket is, and what
`DequeueWaitQueue` returns is who is there with the smallest ticket (`measures`).
-/

namespace CppNetEngine.Ticketed

variable {ι : Type}

/-- `mWaitTicket` does not wrap. -/
def NoWrap (s : Ticketed ι) : Act ι → Prop
  | .enterWaitQueue _ => s.issued.length + 1 < 2 ^ 64
  | _ => True

/-- The tickets of a wait queue are positions. -/
structure Measures (maxWaitSize : Int) (s : Ticketed ι) : Prop where
  entries : s.queued.map Prod.fst = s.queue.mEnterWaitQueue
  length_eq : (s.queue.mWaitTicket - s.queue.mEnterTicket).toNat = s.queue.mEnterWaitQueue.length
  length_le : (s.queue.mEnterWaitQueue.length : Int) ≤ max maxWaitSize 0
  /-- They are given out in order. -/
  tickets : s.issued.map (·.2.toNat) = List.range s.issued.length
  /-- The session that was returned is there, and nobody there had a smaller ticket. -/
  smallest : ∀ called w, s.dequeuing = .returned called (some w) →
    s.live w ∧ ∃ k, (w, k) ∈ called ∧ ∀ e ∈ called, s.live e.1 → k ≤ e.2
  null_iff : ∀ called answer, s.dequeuing = .returned called answer →
    (answer = none ↔ ∀ e ∈ called, s.live e.1 = false)
  waitCount_queued : ∀ ahead w k behind, s.queued = ahead ++ (w, k) :: behind →
    (s.queue.getWaitCount k).toNat = ahead.length
  waitCount_gone : ∀ e ∈ s.gone, s.queue.getWaitCount e.2 = 0

/-! ## The invariant -/

/-- What the loop has found: those it passed are no longer there. -/
def Found (live : ι → Bool) (gone queued : List (ι × UInt64)) : Dequeuing ι → Prop
  | .idle => True
  | .running called =>
    ∃ dead, called = dead ++ queued ∧ dead <:+ gone ∧ ∀ e ∈ dead, live e.1 = false
  | .returned called none => called <:+ gone ∧ ∀ e ∈ called, live e.1 = false
  | .returned called (some w) => live w ∧ ∃ dead k, called = dead ++ (w, k) :: queued ∧
    dead ++ [(w, k)] <:+ gone ∧ ∀ e ∈ dead, live e.1 = false

/-- The counters count. -/
structure Ok (maxWaitSize : Int) (s : Ticketed ι) : Prop where
  entries : s.queued.map Prod.fst = s.queue.mEnterWaitQueue
  waitTicket : s.queue.mWaitTicket.toNat = s.issued.length
  enterTicket : s.queue.mEnterTicket.toNat = s.gone.length
  limit : s.queue.mMaxWaitSize = maxWaitSize
  length_le : (s.queue.mEnterWaitQueue.length : Int) ≤ max maxWaitSize 0
  tickets : s.issued.map (·.2.toNat) = List.range s.issued.length
  found : Found s.live s.gone s.queued s.dequeuing

variable {maxWaitSize : Int} {s s' : Ticketed ι}

theorem toNat_succ {x : UInt64} (h : x.toNat + 1 < 2 ^ 64) : (x + 1).toNat = x.toNat + 1 := by
  rw [UInt64.toNat_add]
  exact Nat.mod_eq_of_lt h

theorem Ok.new (live : ι → Bool) : Ok maxWaitSize (new maxWaitSize live) :=
  ⟨rfl, rfl, rfl, rfl, Int.le_max_right _ _, rfl, trivial⟩

/-! ## Positions -/

theorem Ok.ticket_eq (h : Ok maxWaitSize s) {ahead behind : List (ι × UInt64)} {e : ι × UInt64}
    (hissued : s.issued = ahead ++ e :: behind) : e.2.toNat = ahead.length := by
  have hget := congrArg (·[ahead.length]?) h.tickets
  simpa [hissued] using hget

theorem Ok.ticket_lt (h : Ok maxWaitSize s) :
    s.issued.Pairwise (fun e e' => e.2.toNat < e'.2.toNat) := by
  have hsorted : (s.issued.map (·.2.toNat)).Pairwise (· < ·) := by
    rw [h.tickets]
    exact List.pairwise_lt_range
  exact List.pairwise_map.1 hsorted

theorem Ok.waitCount (h : Ok maxWaitSize s) {ahead behind : List (ι × UInt64)} {e : ι × UInt64}
    (hissued : s.issued = ahead ++ e :: behind) :
    (s.queue.getWaitCount e.2).toNat = ahead.length - s.gone.length := by
  have hticket := h.ticket_eq hissued
  have henter := h.enterTicket
  unfold WaitQueueManager.getWaitCount
  split
  · rename_i hlt
    rw [UInt64.toNat_sub_of_le _ _ (UInt64.le_of_lt hlt), hticket, henter]
  · rename_i hle
    rw [UInt64.lt_iff_toNat_lt] at hle
    show 0 = _
    omega

theorem Ok.smallest (h : Ok maxWaitSize s) {called : List (ι × UInt64)} {w : ι}
    (hret : s.dequeuing = .returned called (some w)) :
    s.live w ∧ ∃ k, (w, k) ∈ called ∧ ∀ e ∈ called, s.live e.1 → k ≤ e.2 := by
  have hfound := h.found
  rw [hret] at hfound
  obtain ⟨hlive, dead, k, rfl, ⟨front, hgone⟩, hdead⟩ := hfound
  refine ⟨hlive, k, List.mem_append_right _ List.mem_cons_self, fun e he hthere => ?_⟩
  rcases List.mem_append.1 he with he | he
  · rw [hdead e he] at hthere
    cases hthere
  · rcases List.mem_cons.1 he with rfl | he
    · exact UInt64.le_refl _
    · have hissued : s.issued = (front ++ dead) ++ (w, k) :: s.queued := by
        unfold issued
        rw [← hgone]
        simp
      have hlt := h.ticket_lt
      rw [hissued] at hlt
      have := (List.pairwise_cons.1 (List.pairwise_append.1 hlt).2.1).1 e he
      exact UInt64.le_iff_toNat_le.2 (Nat.le_of_lt this)

theorem Ok.null_iff (h : Ok maxWaitSize s) {called : List (ι × UInt64)} {answer : Option ι}
    (hret : s.dequeuing = .returned called answer) :
    answer = none ↔ ∀ e ∈ called, s.live e.1 = false := by
  cases answer with
  | none =>
    have hfound := h.found
    rw [hret] at hfound
    exact ⟨fun _ => hfound.2, fun _ => rfl⟩
  | some w =>
    obtain ⟨hlive, k, hmem, -⟩ := h.smallest hret
    refine ⟨fun hnone => absurd hnone (Option.some_ne_none w), fun hdead => ?_⟩
    rw [hdead _ hmem] at hlive
    cases hlive

theorem Ok.positions (h : Ok maxWaitSize s) : Measures maxWaitSize s := by
  refine ⟨h.entries, ?_, h.length_le, h.tickets, fun _ _ => h.smallest, fun _ _ => h.null_iff,
    ?_, ?_⟩
  · have hle : s.queue.mEnterTicket ≤ s.queue.mWaitTicket := by
      rw [UInt64.le_iff_toNat_le, h.enterTicket, h.waitTicket]
      exact List.length_append ▸ Nat.le_add_right _ _
    rw [UInt64.toNat_sub_of_le _ _ hle, h.waitTicket, h.enterTicket, ← h.entries, List.length_map]
    unfold issued
    rw [List.length_append, Nat.add_sub_cancel_left]
  · intro ahead w k behind hqueued
    have hissued : s.issued = (s.gone ++ ahead) ++ (w, k) :: behind := by
      unfold issued
      rw [hqueued, List.append_assoc]
    rw [h.waitCount hissued, List.length_append, Nat.add_sub_cancel_left]
  · intro e he
    obtain ⟨ahead, behind, hgone⟩ := List.append_of_mem he
    have hissued : s.issued = ahead ++ e :: (behind ++ s.queued) := by
      unfold issued
      rw [hgone]
      simp
    apply UInt64.toNat_inj.1
    rw [h.waitCount hissued, hgone, List.length_append]
    exact Nat.sub_eq_zero_of_le (Nat.le_add_right _ _)

/-! ## Steps -/

theorem Ok.enter (h : Ok maxWaitSize s) (w : ι) (hwrap : s.issued.length + 1 < 2 ^ 64) :
    Ok maxWaitSize
      { s with
        queue := (s.queue.enterWaitQueue w).1
        queued := s.queued ++ (s.queue.enterWaitQueue w).2.toList.map (w, ·)
        dequeuing := .idle } := by
  unfold WaitQueueManager.enterWaitQueue
  have hmax := h.limit
  by_cases hfull : s.queue.mMaxWaitSize ≤ s.queue.mEnterWaitQueue.length
  · rw [if_pos hfull]
    simp only [Option.toList_none, List.map_nil, List.append_nil]
    exact { h with found := trivial }
  · rw [if_neg hfull]
    simp only [Option.toList_some, List.map_cons, List.map_nil]
    have hissued : s.gone ++ (s.queued ++ [(w, s.queue.mWaitTicket)]) =
        s.issued ++ [(w, s.queue.mWaitTicket)] := (List.append_assoc _ _ _).symm
    refine ⟨?_, ?_, h.enterTicket, hmax, ?_, ?_, trivial⟩
    · rw [List.map_append, h.entries]
      rfl
    · show (s.queue.mWaitTicket + 1).toNat = (s.gone ++ (s.queued ++ _)).length
      rw [hissued, List.length_append, toNat_succ (by rw [h.waitTicket]; exact hwrap), h.waitTicket]
      rfl
    · rw [List.length_append, List.length_singleton]
      omega
    · show (s.gone ++ (s.queued ++ _)).map _ = List.range (s.gone ++ (s.queued ++ _)).length
      rw [hissued, List.map_append, List.length_append, List.length_singleton, List.range_succ,
        h.tickets, List.map_singleton, h.waitTicket]

/-- An iteration drops a session that is gone, or returns. -/
theorem Found.iterate {live : ι → Bool} {gone queued called : List (ι × UInt64)}
    (h : Found live gone queued (.running called)) :
    (queued = [] → Found live gone [] (.returned called none)) ∧
    ∀ e rest, queued = e :: rest → Found live (gone ++ [e]) rest
      (if live e.1 then .returned called (some e.1) else .running called) := by
  obtain ⟨dead, rfl, hgone, hdead⟩ := h
  constructor
  · rintro rfl
    rw [List.append_nil]
    exact ⟨hgone, hdead⟩
  · rintro e rest rfl
    have hsuffix : dead ++ [e] <:+ gone ++ [e] := by
      obtain ⟨front, rfl⟩ := hgone
      exact ⟨front, by rw [List.append_assoc]⟩
    by_cases hlive : live e.1
    · rw [if_pos hlive]
      exact ⟨hlive, dead, e.2, rfl, hsuffix, hdead⟩
    · rw [if_neg hlive]
      refine ⟨dead ++ [e], by simp, hsuffix, fun x hx => ?_⟩
      rcases List.mem_append.1 hx with hx | hx
      · exact hdead x hx
      · rw [List.mem_singleton.1 hx]
        exact Bool.eq_false_iff.2 hlive

theorem Ok.iterate_nil (h : Ok maxWaitSize s) {called : List (ι × UInt64)}
    (hrun : s.dequeuing = .running called) (hqueued : s.queued = []) :
    Ok maxWaitSize { s with dequeuing := .returned called none } := by
  have hfound := h.found
  rw [hrun] at hfound
  refine { h with found := ?_ }
  show Found s.live s.gone s.queued _
  rw [hqueued]
  exact hfound.iterate.1 hqueued

theorem Ok.iterate_cons (h : Ok maxWaitSize s) {called : List (ι × UInt64)}
    (hrun : s.dequeuing = .running called) {e : ι × UInt64} {rest : List (ι × UInt64)}
    (hqueued : s.queued = e :: rest) :
    Ok maxWaitSize
      { s with
        queue := { s.queue with
          mEnterTicket := s.queue.mEnterTicket + 1
          mEnterWaitQueue := rest.map Prod.fst }
        gone := s.gone ++ [e]
        queued := rest
        dequeuing := if s.live e.1 then .returned called (some e.1) else .running called } := by
  have hfound := h.found
  rw [hrun] at hfound
  have hissued : (s.gone ++ [e]) ++ rest = s.issued := by
    unfold issued
    rw [hqueued, List.append_assoc]
    rfl
  have hlt : s.gone.length + 1 ≤ s.queue.mWaitTicket.toNat := by
    rw [h.waitTicket, ← hissued, List.length_append, List.length_append]
    exact Nat.le_add_right _ _
  have hwrap := s.queue.mWaitTicket.toNat_lt
  have henter := h.enterTicket
  refine ⟨rfl, ?_, ?_, h.limit, ?_, ?_, hfound.iterate.2 e rest hqueued⟩
  · show s.queue.mWaitTicket.toNat = ((s.gone ++ [e]) ++ rest).length
    rw [hissued]
    exact h.waitTicket
  · show (s.queue.mEnterTicket + 1).toNat = (s.gone ++ [e]).length
    rw [toNat_succ (by omega), henter, List.length_append, List.length_singleton]
  · have hle := h.length_le
    rw [← h.entries, hqueued, List.map_cons, List.length_cons] at hle
    exact Int.le_trans (Int.ofNat_le.2 (Nat.le_succ _)) hle
  · show ((s.gone ++ [e]) ++ rest).map _ = List.range ((s.gone ++ [e]) ++ rest).length
    rw [hissued]
    exact h.tickets

theorem Ok.iterate (h : Ok maxWaitSize s) (hs : s.iterate = some s') : Ok maxWaitSize s' := by
  unfold Ticketed.iterate at hs
  cases hrun : s.dequeuing with
  | idle | returned => simp [hrun] at hs
  | running called =>
    have hentries := h.entries
    cases hqueued : s.queued with
    | nil =>
      rw [hqueued] at hentries
      simp only [hrun, WaitQueueManager.dequeueNext, ← hentries, hqueued, List.map_nil] at hs
      cases hs
      have hnext := h.iterate_nil hrun hqueued
      rw [hqueued] at hnext
      simpa using hnext
    | cons e rest =>
      rw [hqueued] at hentries
      simp only [hrun, WaitQueueManager.dequeueNext, ← hentries, hqueued, List.map_cons] at hs
      cases hs
      have hnext := h.iterate_cons hrun hqueued
      by_cases hlive : s.live e.1
      · simpa [hlive] using hnext
      · simpa [hlive] using hnext

variable [DecidableEq ι]

theorem Ok.expire (h : Ok maxWaitSize s) (w : ι) : Ok maxWaitSize (s.expire w) := by
  refine { h with found := ?_ }
  have hfound := h.found
  unfold Ticketed.expire
  cases hd : s.dequeuing with
  | running called =>
    rw [hd] at hfound
    obtain ⟨dead, hcalled, hgone, hdead⟩ := hfound
    refine ⟨dead, hcalled, hgone, fun e he => ?_⟩
    by_cases hw : e.1 = w
    · rw [hw]
      exact Function.update_self ..
    · exact (Function.update_of_ne hw ..).trans (hdead e he)
  | idle | returned => trivial

theorem Ok.step (h : Ok maxWaitSize s) {a : Act ι} (hok : NoWrap s a) (hs : s.step a = some s') :
    Ok maxWaitSize s' := by
  cases a with
  | enterWaitQueue w =>
    change s.enter w = some s' at hs
    unfold Ticketed.enter at hs
    split at hs
    · cases hs
    · cases hs
    · cases hs
      exact h.enter w hok
  | dequeueWaitQueue =>
    change s.dequeue = some s' at hs
    unfold dequeue at hs
    split at hs
    · cases hs
    · cases hs
      exact { h with found := ⟨[], rfl, List.nil_suffix, fun _ he => absurd he List.not_mem_nil⟩ }
  | iterate => exact h.iterate hs
  | expire w =>
    cases hs
    exact h.expire w

/-- **Wait tickets measure queue positions**, in every state that is reached without a wrap of the
tickets, whatever the size of the queue and whoever expires when; a service answers what its wait
queue measures. -/
theorem measures (maxWaitSize : Int) {s : Ticketed ι}
    (h : (machine maxWaitSize).ReachableIf NoWrap s) :
    Measures maxWaitSize s ∧ ∀ v : Service ι, v.mpWaitQueueManager = some s.queue →
      ∀ myTicket, v.getWaitCount myTicket = some (s.queue.getWaitCount myTicket) := by
  refine ⟨Ok.positions (h.invariant (I := Ok maxWaitSize) ?_ ?_), fun v hv _ => ?_⟩
  · rintro _ ⟨live, rfl⟩
    exact Ok.new live
  · exact fun _ _ _ _ hI hok hs => hI.step hok hs
  · unfold Service.getWaitCount
    rw [hv]
    rfl

/-- Three enter, the first expires, and the second is dequeued: the third is the next. -/
def oneDequeued : List (Act Nat) :=
  [.enterWaitQueue 7, .enterWaitQueue 8, .enterWaitQueue 9, .expire 7, .dequeueWaitQueue,
    .iterate, .iterate]

/-- What is there then. -/
def afterOne : Ticketed Nat :=
  { queue := ⟨3, 3, 2, [9]⟩
    live := Function.update (fun _ => true) 7 false
    gone := [(7, 0), (8, 1)]
    queued := [(9, 2)]
    dequeuing := .returned [(7, 0), (8, 1), (9, 2)] (some 8) }

theorem measures_oneDequeued : Measures 3 afterOne := by
  have hrun : (machine 3).exec (new 3 fun _ => true) oneDequeued = some afterOne := rfl
  refine (measures 3 (.exec oneDequeued (.init ⟨_, rfl⟩) ?_ hrun)).1
  exact ⟨(by decide : 0 + 1 < 2 ^ 64), (by decide : 1 + 1 < 2 ^ 64), (by decide : 2 + 1 < 2 ^ 64),
    trivial, trivial, trivial, trivial, trivial⟩

end CppNetEngine.Ticketed
