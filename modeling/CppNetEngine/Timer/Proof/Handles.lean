import CppNetEngine.Lib.Totals
import CppNetEngine.Timer.Handles
import CppNetEngine.Timer.Proof.Drift

/-!
# Every timer is in one place

Whatever the interleaving of `Tick`, `AddTiming` and `Cancel`, a timer is in one place at a time: in
the wheel until its tick, in the execute list of one thread, called, or given up because `Execute`
found it cancelled. So no callback is called twice, and none is lost (`timers_placed`). The
invariant counts, for each handle, in how many places it is (`Inv.counts`).
-/

namespace CppNetEngine.HandledWheel

open TimingWheel (pending)

variable {τ α : Type}

/-! ## Places -/

/-- The nodes that a thread has still to execute. -/
def Pc.nodes : Pc α → List (TimingNode α)
  | .ticking (.loop _ _ _ executeList) => executeList
  | .ticking (.store _ executeList) => executeList
  | .ticking (.execute _ executeList) => executeList
  | .ticking _ => []
  | .cancel _ => []
  | .callback _ node rest => node :: rest

/-- The thread has loaded the flag of the handle, and is about to call the callback. -/
def Pc.Calls (f : Nat) : Pc α → Prop
  | .callback _ node _ => node.mpCancelFlag = f
  | _ => False

instance (f : Nat) : ∀ pc : Pc α, Decidable (pc.Calls f)
  | .callback _ node _ => inferInstanceAs (Decidable (node.mpCancelFlag = f))
  | .ticking _ | .cancel _ => inferInstanceAs (Decidable False)

/-- The handles of nodes. -/
def handlesOf (nodes : List (TimingNode α)) : List Nat := nodes.map TimingNode.mpCancelFlag

/-- The handles of the nodes in the wheel. -/
def waiting (s : HandledWheel α) : Multiset Nat := (pending s.wheel).map TimingNode.mpCancelFlag

/-- In how many places a handle is, those in the lists of threads left aside. -/
def places (s : HandledWheel α) (f : Nat) : Nat :=
  s.waiting.count f + (s.called.map Prod.fst).count f + s.skipped.count f

/-- In how many places a handle should be. -/
def given (s : HandledWheel α) (f : Nat) : Nat := if f < s.handles then 1 else 0

/-- The node was made for the timer, which has a delay. -/
def Timing.Of (timing : Timing α) (node : TimingNode α) : Prop :=
  timing.pCallback = node.mpCallback ∧ timing.expireTick = node.mExpireTick ∧ timing.delayMs ≠ 0

/-- The timer that a node was made for. -/
def MadeFor (s : HandledWheel α) (node : TimingNode α) : Prop :=
  ∃ timing, s.made[node.mpCancelFlag]? = some timing ∧ Timing.Of timing node

/-- The timer of the handle has a delay, and its tick has been processed. -/
def Passed (s : HandledWheel α) (f : Nat) : Prop :=
  ∃ timing, s.made[f]? = some timing ∧ timing.delayMs ≠ 0 ∧
    timing.expireTick < s.wheel.mCurrentTick

theorem act_next (s : HandledWheel α) (pc : Pc α) : act .next s pc = s.next pc := by
  cases pc with
  | cancel | callback => rfl
  | ticking pc => cases pc <;> rfl

theorem act_cases {s s' : HandledWheel α} {a : Act α} {pc pc' : Pc α}
    (h : act a s pc = some (s', pc')) : s.next pc = some (s', pc') ∨
      s' = s ∧ pc.nodes = [] ∧ pc'.nodes = [] ∧ ∀ f, ¬ pc'.Calls f := by
  cases pc with
  | cancel | callback =>
    cases a with
    | next => exact .inl h
    | addTiming | tick | cancel => cases h
  | ticking pc =>
    cases a with
    | next => exact .inl ((act_next s _).symm.trans h)
    | addTiming pCallback delayMs =>
      cases pc <;> cases h
      exact .inr ⟨rfl, rfl, rfl, fun _ => id⟩
    | tick =>
      cases pc <;> cases h
      exact .inr ⟨rfl, rfl, rfl, fun _ => id⟩
    | cancel handle =>
      cases pc <;> try cases h
      rw [act] at h
      split at h <;> cases h
      exact .inr ⟨rfl, rfl, rfl, fun _ => id⟩

/-! ## The invariant -/

structure Inv (s : Threads τ (Pc α) (HandledWheel α)) : Prop where
  wheel : TimingWheel.Inv s.shared.wheel
  handles : s.shared.made.length = s.shared.handles
  /-- Every handle that was made is in one place, and no other is in any. -/
  counts : ∀ f, ∃ n, s.Total (fun pc => (handlesOf pc.nodes).count f) n ∧
    s.shared.places f + n = s.shared.given f
  pending : ∀ node ∈ pending s.shared.wheel, s.shared.MadeFor node
  /-- Threads have nodes of ticks that were processed. -/
  held : ∀ t, ∀ node ∈ (s.locals t).nodes,
    s.shared.MadeFor node ∧ node.mExpireTick < s.shared.wheel.mCurrentTick
  called : ∀ c ∈ s.shared.called, ∃ timing, s.shared.made[c.1]? = some timing ∧
    timing.pCallback = c.2 ∧
    (timing.delayMs = 0 ∨ timing.expireTick < s.shared.wheel.mCurrentTick)
  skipped : ∀ f ∈ s.shared.skipped, s.shared.cancelled f = true ∧ s.shared.Passed f

theorem getElem?_of_prefix {made made' : List (Timing α)} {timing : Timing α} {f : Nat}
    (hmade : made <+: made') (hget : made[f]? = some timing) : made'[f]? = some timing := by
  obtain ⟨rest, rfl⟩ := hmade
  rw [List.getElem?_append_left (List.getElem?_eq_some_iff.1 hget).1]
  exact hget

theorem MadeFor.mono {s s' : HandledWheel α} {node : TimingNode α} (h : s.MadeFor node)
    (hmade : s.made <+: s'.made) : s'.MadeFor node := by
  obtain ⟨timing, hget, hof⟩ := h
  exact ⟨timing, getElem?_of_prefix hmade hget, hof⟩

theorem Passed.mono {s s' : HandledWheel α} {f : Nat} (h : s.Passed f) (hmade : s.made <+: s'.made)
    (htick : s.wheel.mCurrentTick ≤ s'.wheel.mCurrentTick) : s'.Passed f := by
  obtain ⟨timing, hget, hdelay, hpassed⟩ := h
  exact ⟨timing, getElem?_of_prefix hmade hget, hdelay, Nat.lt_of_lt_of_le hpassed htick⟩

theorem new_inv {tickInterval t0 : Nat} {s : Threads τ (Pc α) (HandledWheel α)}
    (hshared : s.shared = new α tickInterval t0) (hidle : ∀ t, s.locals t = .ticking .idle) :
    Inv s := by
  have hpending : TimingWheel.pending s.shared.wheel = 0 := by
    rw [hshared]
    exact TimingWheel.new_pending tickInterval
  refine ⟨?_, ?_, fun f => ⟨0, .zero fun t => ?_, ?_⟩, ?_, fun t => ?_, ?_, ?_⟩
  · rw [hshared]
    exact TimingWheel.new_inv tickInterval
  · rw [hshared]
    rfl
  · rw [hidle t]
    rfl
  · rw [places, waiting, hpending, hshared]
    rfl
  · rw [hpending]
    exact fun _ h => absurd h (Multiset.notMem_zero _)
  · rw [hidle t]
    exact fun _ h => absurd h List.not_mem_nil
  · rw [hshared]
    exact fun _ h => absurd h List.not_mem_nil
  · rw [hshared]
    exact fun _ h => absurd h List.not_mem_nil

section Steps

variable [DecidableEq τ] {s : Threads τ (Pc α) (HandledWheel α)} {t : τ}
  {shared : HandledWheel α} {l : Pc α}

/-- **The invariant after a step**: what it moves it moves from one place to another, and the nodes
that the thread has then were made and are due. -/
theorem Inv.set (h : Inv s) (hwheel : TimingWheel.Inv shared.wheel)
    (htick : s.shared.wheel.mCurrentTick ≤ shared.wheel.mCurrentTick)
    (hmade : s.shared.made <+: shared.made) (hhandles : shared.made.length = shared.handles)
    (hcounts : ∀ f, shared.places f + (handlesOf l.nodes).count f + s.shared.given f =
      s.shared.places f + (handlesOf (s.locals t).nodes).count f + shared.given f)
    (hpending : ∀ node ∈ TimingWheel.pending shared.wheel, shared.MadeFor node)
    (hheld : ∀ node ∈ l.nodes, shared.MadeFor node ∧
      node.mExpireTick < shared.wheel.mCurrentTick)
    (hcalled : ∀ c ∈ shared.called, c ∈ s.shared.called ∨ ∃ timing,
      shared.made[c.1]? = some timing ∧ timing.pCallback = c.2 ∧
      (timing.delayMs = 0 ∨ timing.expireTick < shared.wheel.mCurrentTick))
    (hskipped : ∀ f ∈ shared.skipped,
      shared.cancelled f = true ∧ (f ∈ s.shared.skipped ∨ shared.Passed f)) :
    Inv (s.set t shared l) := by
  refine ⟨hwheel, hhandles, fun f => ?_, hpending, fun u => ?_, fun c hc => ?_, fun f hf => ?_⟩
  · obtain ⟨n, htotal, hn⟩ := h.counts f
    have hle := htotal.le t
    have hf := hcounts f
    refine ⟨n - (handlesOf (s.locals t).nodes).count f + (handlesOf l.nodes).count f,
      htotal.set (by omega), ?_⟩
    rw [Threads.set_shared]
    omega
  · by_cases hu : u = t
    · subst hu
      rw [Threads.set_self]
      exact hheld
    · rw [Threads.set_other _ _ _ _ hu]
      intro node hnode
      obtain ⟨hold, hdue⟩ := h.held u node hnode
      exact ⟨hold.mono hmade, Nat.lt_of_lt_of_le hdue htick⟩
  · rcases hcalled c hc with hold | hnew
    · obtain ⟨timing, hget, hcallback, hdue⟩ := h.called c hold
      exact ⟨timing, getElem?_of_prefix hmade hget, hcallback,
        hdue.imp_right fun hlt => Nat.lt_of_lt_of_le hlt htick⟩
    · exact hnew
  · obtain ⟨hset, hpassed⟩ := hskipped f hf
    exact ⟨hset, hpassed.elim (fun hold => (h.skipped f hold).2.mono hmade htick) id⟩

/-- A step that leaves all timers where they are. -/
theorem Inv.keep (h : Inv s) (htimers : shared.ticking.timers = s.shared.ticking.timers)
    (hmade : shared.made = s.shared.made) (hcalled : shared.called = s.shared.called)
    (hskipped : shared.skipped = s.shared.skipped)
    (hcancelled : ∀ f, s.shared.cancelled f = true → shared.cancelled f = true)
    (hnodes : l.nodes = (s.locals t).nodes) : Inv (s.set t shared l) := by
  have hwheel : shared.wheel = s.shared.wheel := congrArg Timers.wheel htimers
  have hhandles : shared.handles = s.shared.handles := congrArg Timers.flags htimers
  have hmadeFor : ∀ node, s.shared.MadeFor node → shared.MadeFor node :=
    fun node hnode => hnode.mono (hmade ▸ List.prefix_refl _)
  refine h.set (hwheel ▸ h.wheel) (hwheel ▸ Nat.le_refl _) (hmade ▸ List.prefix_refl _) ?_
    (fun f => ?_) (fun node hnode => ?_) (fun node hnode => ?_) (fun c hc => .inl (hcalled ▸ hc))
    (fun f hf => ⟨hcancelled f (h.skipped f (hskipped ▸ hf)).1, .inl (hskipped ▸ hf)⟩)
  · rw [hmade, hhandles]
    exact h.handles
  · rw [places, places, waiting, waiting, given, given, hwheel, hcalled, hskipped, hhandles, hnodes]
  · exact hmadeFor node (h.pending node (hwheel ▸ hnode))
  · obtain ⟨hmade, hdue⟩ := h.held t node (hnodes ▸ hnode)
    exact ⟨hmadeFor node hmade, hwheel ▸ hdue⟩

/-- What `AddTiming` does under the lock, or at once. -/
structure Adds (s : HandledWheel α) (pCallback : α) (delayMs : Nat) (s' : HandledWheel α) :
    Prop where
  wheel : s'.wheel = (s.wheel.addTiming s.handles pCallback delayMs).1
  handles : s'.handles = s.handles + 1
  made : s'.made = s.made ++
    [⟨pCallback, delayMs, (s.wheel.timingNode s.handles pCallback delayMs).mExpireTick⟩]
  called : s'.called = s.called ++
    (s.wheel.addTiming s.handles pCallback delayMs).2.toList.map (s.handles, ·)
  skipped : s'.skipped = s.skipped
  cancelled : s'.cancelled = s.cancelled

omit [DecidableEq τ] in
theorem Adds.given {s s' : HandledWheel α} {pCallback : α} {delayMs : Nat}
    (h : Adds s pCallback delayMs s') (f : Nat) :
    s'.given f = s.given f + [s.handles].count f := by
  rw [HandledWheel.given, HandledWheel.given, h.handles]
  by_cases hf : f = s.handles
  · subst hf
    simp
  · have hlt : f < s.handles + 1 ↔ f < s.handles := by omega
    rw [List.count_eq_zero_of_not_mem (by simpa using hf)]
    simp only [hlt, Nat.add_zero]

theorem Inv.addTiming (h : Inv s) {pCallback : α} {delayMs : Nat}
    (hadds : Adds s.shared pCallback delayMs shared) (hold : (s.locals t).nodes = [])
    (hnew : l.nodes = []) : Inv (s.set t shared l) := by
  have hwheel : TimingWheel.Inv shared.wheel := by
    rw [hadds.wheel]
    exact Timers.step_inv h.wheel (.addTiming pCallback delayMs)
  have hprefix : s.shared.made <+: shared.made := by
    rw [hadds.made]
    exact List.prefix_append _ _
  have hget : shared.made[s.shared.handles]? = some ⟨pCallback, delayMs,
      (s.shared.wheel.timingNode s.shared.handles pCallback delayMs).mExpireTick⟩ := by
    rw [hadds.made, ← h.handles]
    exact List.getElem?_concat_length
  have hlength : shared.made.length = shared.handles := by
    rw [hadds.made, hadds.handles, ← h.handles]
    exact List.length_append
  have hpending : ∀ node ∈ TimingWheel.pending s.shared.wheel, shared.MadeFor node :=
    fun node hnode => (h.pending node hnode).mono hprefix
  have hskipped : ∀ f ∈ shared.skipped,
      shared.cancelled f = true ∧ (f ∈ s.shared.skipped ∨ shared.Passed f) := by
    rw [hadds.skipped, hadds.cancelled]
    exact fun f hf => ⟨(h.skipped f hf).1, .inl hf⟩
  have heq := hadds.wheel
  have hcalled := hadds.called
  rw [TimingWheel.addTiming] at heq hcalled
  by_cases hdelay : delayMs = 0
  · -- the callback is called at once
    rw [if_pos hdelay] at heq hcalled
    change shared.called = s.shared.called ++ [(s.shared.handles, pCallback)] at hcalled
    refine h.set hwheel (heq ▸ Nat.le_refl _) hprefix hlength (fun f => ?_) (heq ▸ hpending)
      (fun node hnode => ?_) (fun c hc => ?_) hskipped
    · rw [hadds.given, places, places, waiting, waiting, heq, hcalled, hadds.skipped, hold, hnew,
        List.map_append, List.count_append]
      simp only [List.map_cons, List.map_nil]
      omega
    · rw [hnew] at hnode
      cases hnode
    · rw [hcalled] at hc
      rcases List.mem_append.1 hc with hc | hc
      · exact .inl hc
      · rw [List.mem_singleton.1 hc]
        exact .inr ⟨_, hget, rfl, .inl hdelay⟩
  · rw [if_neg hdelay] at heq hcalled
    change shared.called = s.shared.called ++ [] at hcalled
    rw [List.append_nil] at hcalled
    have hnode : TimingWheel.pending shared.wheel =
        s.shared.wheel.timingNode s.shared.handles pCallback delayMs ::ₘ
          TimingWheel.pending s.shared.wheel := by
      rw [heq]
      exact TimingWheel.addNode_pending _ _
    refine h.set hwheel ?_ hprefix hlength (fun f => ?_) (fun node hmem => ?_)
      (fun node hmem => ?_) (fun c hc => .inl (hcalled ▸ hc)) hskipped
    · rw [heq, TimingWheel.addNode_tick]
    · rw [hadds.given, places, places, waiting, waiting, hnode, hcalled, hadds.skipped, hold, hnew,
        Multiset.map_cons, ← Multiset.singleton_add, Multiset.count_add, ← Multiset.coe_singleton,
        Multiset.coe_count]
      -- the node has the new handle
      change [s.shared.handles].count f + _ + _ + _ + _ + _ = _
      omega
    · rw [hnode] at hmem
      rcases Multiset.mem_cons.1 hmem with rfl | hmem
      · exact ⟨_, hget, rfl, rfl, hdelay⟩
      · exact hpending node hmem
    · rw [hnew] at hmem
      cases hmem

theorem Inv.processTick (h : Inv s) {now i n : Nat} {executeList : List (TimingNode α)}
    (hpc : s.locals t = .ticking (.loop now i n executeList)) (i' : Nat) :
    Inv (s.set t { s.shared with ticking := s.shared.ticking.processTick }
      (.ticking (.loop now i' n (executeList ++ s.shared.wheel.processTick.2)))) := by
  obtain ⟨hout, -, hsplit⟩ := TimingWheel.processTick_spec h.wheel
  have hcurrent : s.shared.wheel.tickStep.mCurrentTick = s.shared.wheel.mCurrentTick + 1 :=
    TickingWheel.tickStep_current _
  refine h.set (TimingWheel.tickStep_inv h.wheel) ?_ (List.prefix_refl _) h.handles (fun f => ?_)
    (fun node hnode => ?_) (fun node hnode => ?_) (fun c hc => .inl hc)
    (fun f hf => ⟨(h.skipped f hf).1, .inl hf⟩)
  · show s.shared.wheel.mCurrentTick ≤ s.shared.wheel.tickStep.mCurrentTick
    omega
  · have hmap : s.shared.waiting =
        (handlesOf s.shared.wheel.processTick.2 : Multiset Nat) +
          (TimingWheel.pending s.shared.wheel.tickStep).map TimingNode.mpCancelFlag := by
      rw [waiting, hsplit, Multiset.map_add]
      rfl
    have hnodes : handlesOf (executeList ++ s.shared.wheel.processTick.2) =
        handlesOf executeList ++ handlesOf s.shared.wheel.processTick.2 := List.map_append
    rw [places, places, hmap, Multiset.count_add, Multiset.coe_count, hpc]
    change Multiset.count f ((TimingWheel.pending s.shared.wheel.tickStep).map _) +
      (s.shared.called.map Prod.fst).count f + s.shared.skipped.count f +
      (handlesOf (executeList ++ s.shared.wheel.processTick.2)).count f + s.shared.given f =
      _ + (handlesOf executeList).count f + s.shared.given f
    rw [hnodes, List.count_append]
    omega
  · refine h.pending node ?_
    rw [hsplit]
    exact Multiset.mem_add.2 (.inr hnode)
  · show _ ∧ node.mExpireTick < s.shared.wheel.tickStep.mCurrentTick
    rcases List.mem_append.1 hnode with hnode | hnode
    · obtain ⟨hmade, hdue⟩ := h.held t node (by rw [hpc]; exact hnode)
      exact ⟨hmade, by omega⟩
    · have hdue := hout node hnode
      refine ⟨h.pending node ?_, by omega⟩
      rw [hsplit]
      exact Multiset.mem_add.2 (.inl hnode)

/-- `Execute` of the first node in the list of a thread finds it cancelled, or calls it. -/
theorem Inv.execute (h : Inv s) {node : TimingNode α} {rest : List (TimingNode α)}
    (hold : (s.locals t).nodes = node :: rest) (hnew : l.nodes = rest)
    (htimers : shared.ticking.timers = s.shared.ticking.timers)
    (hmade : shared.made = s.shared.made) (hcancelled : shared.cancelled = s.shared.cancelled)
    (hdone : shared.called = s.shared.called ++ [(node.mpCancelFlag, node.mpCallback)] ∧
        shared.skipped = s.shared.skipped ∨
      shared.called = s.shared.called ∧
        shared.skipped = s.shared.skipped ++ [node.mpCancelFlag] ∧
        s.shared.cancelled node.mpCancelFlag = true) : Inv (s.set t shared l) := by
  have hwheel : shared.wheel = s.shared.wheel := congrArg Timers.wheel htimers
  have hhandles : shared.handles = s.shared.handles := congrArg Timers.flags htimers
  have hmadeFor : ∀ n, s.shared.MadeFor n → shared.MadeFor n :=
    fun n hn => hn.mono (hmade ▸ List.prefix_refl _)
  have hheld := h.held t
  rw [hold] at hheld
  obtain ⟨⟨timing, hget, hof⟩, hdue⟩ := hheld node List.mem_cons_self
  refine h.set (hwheel ▸ h.wheel) (hwheel ▸ Nat.le_refl _) (hmade ▸ List.prefix_refl _) ?_
    (fun f => ?_) (fun n hn => ?_) (fun n hn => ?_) (fun c hc => ?_) (fun f hf => ?_)
  · rw [hmade, hhandles]
    exact h.handles
  · have hcons : (handlesOf (node :: rest)).count f =
        (handlesOf rest).count f + [node.mpCancelFlag].count f := by
      rw [handlesOf, List.map_cons, ← List.singleton_append, List.count_append, Nat.add_comm]
      rfl
    rw [places, places, waiting, waiting, given, given, hwheel, hhandles, hold, hnew, hcons]
    rcases hdone with ⟨hcalled, hskipped⟩ | ⟨hcalled, hskipped, -⟩
    · rw [hcalled, hskipped, List.map_append, List.count_append]
      simp only [List.map_cons, List.map_nil]
      omega
    · rw [hcalled, hskipped, List.count_append]
      omega
  · exact hmadeFor n (h.pending n (hwheel ▸ hn))
  · obtain ⟨hmade, hdue⟩ := hheld n (List.mem_cons_of_mem _ (hnew ▸ hn))
    exact ⟨hmadeFor n hmade, hwheel ▸ hdue⟩
  · rcases hdone with ⟨hcalled, -⟩ | ⟨hcalled, -, -⟩
    · rw [hcalled] at hc
      rcases List.mem_append.1 hc with hc | hc
      · exact .inl hc
      · rw [List.mem_singleton.1 hc]
        refine .inr ⟨timing, hmade ▸ hget, hof.1, .inr ?_⟩
        rw [hof.2.1, hwheel]
        exact hdue
    · exact .inl (hcalled ▸ hc)
  · rw [hcancelled]
    rcases hdone with ⟨-, hskipped⟩ | ⟨-, hskipped, hset⟩
    · exact ⟨(h.skipped f (hskipped ▸ hf)).1, .inl (hskipped ▸ hf)⟩
    · rw [hskipped] at hf
      rcases List.mem_append.1 hf with hf | hf
      · exact ⟨(h.skipped f hf).1, .inl hf⟩
      · rw [List.mem_singleton.1 hf]
        refine ⟨hset, .inr ⟨timing, hmade ▸ hget, hof.2.2, ?_⟩⟩
        rw [hof.2.1, hwheel]
        exact hdue

theorem Inv.advance (h : Inv s) {now n : Nat} (hpc : s.locals t = .ticking (.advance now n))
    (ns : Nat) : Inv (s.set t { s.shared with ticking := s.shared.ticking.advance ns }
      (.ticking (.loop now 0 n []))) :=
  h.keep rfl rfl rfl rfl (fun _ hf => hf) (by rw [hpc]; rfl)

theorem Inv.next (h : Inv s) (hnext : s.shared.next (s.locals t) = some (shared, l)) :
    Inv (s.set t shared l) := by
  cases hpc : s.locals t with
  | cancel handle =>
    rw [hpc] at hnext
    cases hnext
    refine h.keep rfl rfl rfl rfl (fun f hf => ?_) (by rw [hpc]; rfl)
    show Function.update s.shared.cancelled handle true f = true
    by_cases hfh : f = handle
    · rw [hfh, Function.update_self]
    · rw [Function.update_of_ne hfh]
      exact hf
  | callback now node rest =>
    rw [hpc] at hnext
    cases hnext
    exact h.execute (by rw [hpc]; rfl) rfl rfl rfl rfl (.inl ⟨rfl, rfl⟩)
  | ticking pc =>
    rw [hpc] at hnext
    cases pc with
    | idle => cases hnext
    | addTiming pCallback delayMs =>
      cases hnext
      exact h.addTiming ⟨rfl, rfl, rfl, rfl, rfl, rfl⟩ (by rw [hpc]; rfl) rfl
    | exchange =>
      cases hnext
      exact h.keep rfl rfl rfl rfl (fun _ hf => hf) (by rw [hpc]; dsimp only; split <;> rfl)
    | readClock =>
      cases hnext
      exact h.keep rfl rfl rfl rfl (fun _ hf => hf) (by rw [hpc]; rfl)
    | elapsed now =>
      cases hnext
      exact h.keep rfl rfl rfl rfl (fun _ hf => hf) (by rw [hpc]; dsimp only; split <;> rfl)
    | turnBack now =>
      cases hnext
      exact h.keep rfl rfl rfl rfl (fun _ hf => hf) (by rw [hpc]; rfl)
    | advance now tickCount =>
      cases hnext
      exact h.advance hpc _
    | loop now i tickCount executeList =>
      simp only [HandledWheel.next, tickingNext, TickingWheel.next] at hnext
      split at hnext
      · cases hnext
        exact h.processTick hpc _
      · cases hnext
        exact h.keep rfl rfl rfl rfl (fun _ hf => hf) (by rw [hpc]; rfl)
    | store now executeList =>
      cases hnext
      exact h.keep rfl rfl rfl rfl (fun _ hf => hf) (by rw [hpc]; rfl)
    | execute now executeList =>
      cases executeList with
      | nil =>
        cases hnext
        exact h.keep rfl rfl rfl rfl (fun _ hf => hf) (by rw [hpc]; rfl)
      | cons node rest =>
        rw [HandledWheel.next] at hnext
        split at hnext
        · rename_i hset
          cases hnext
          exact h.execute (by rw [hpc]; rfl) rfl rfl rfl rfl (.inr ⟨rfl, rfl, hset⟩)
        · cases hnext
          exact h.keep rfl rfl rfl rfl (fun _ hf => hf) (by rw [hpc]; rfl)

theorem Inv.act (h : Inv s) {a : Act α}
    (hs : act a s.shared (s.locals t) = some (shared, l)) : Inv (s.set t shared l) := by
  rcases act_cases hs with hnext | ⟨rfl, hold, hnew, -⟩
  · exact h.next hnext
  · exact h.keep rfl rfl rfl rfl (fun _ hf => hf) (hnew.trans hold.symm)

end Steps

section Runs

variable [DecidableEq τ] {tickInterval t0 : Nat} {s : Threads τ (Pc α) (HandledWheel α)}

omit [DecidableEq τ] in
theorem Inv.pass (h : Inv s) (ns : Nat) : Inv { s with shared := s.shared.pass ns } :=
  ⟨h.wheel, h.handles, h.counts, h.pending, h.held, h.called, h.skipped⟩

theorem reachable_inv (h : (machine τ α tickInterval t0).Reachable s) : Inv s := by
  have h' := h.mono fun s a _ => Threads.guard_true s a
  refine Threads.invariant (I := Inv) (fun s hs => new_inv hs.1 hs.2) ?_ ?_ h'
  · exact fun s t a shared l hI _ hact => hI.act hact
  · intro s ns shared hI _ hpass
    cases hpass
    exact hI.pass ns

end Runs

/-! ## One place at a time -/

/-- Where a timer can be. -/
inductive Place (τ : Type)
  | wheel
  /-- In the execute list of the thread. -/
  | list (t : τ)
  | called
  | skipped

/-- The timer of the handle is there. -/
def IsAt (s : Threads τ (Pc α) (HandledWheel α)) (f : Nat) : Place τ → Prop
  | .wheel => f ∈ s.shared.waiting
  | .list t => f ∈ handlesOf (s.locals t).nodes
  | .called => f ∈ s.shared.called.map Prod.fst
  | .skipped => f ∈ s.shared.skipped

section

variable {s : Threads τ (Pc α) (HandledWheel α)} {f : Nat}

theorem Inv.lt_handles (h : Inv s) {timing : Timing α}
    (hget : s.shared.made[f]? = some timing) : f < s.shared.handles := by
  rw [← h.handles]
  exact (List.getElem?_eq_some_iff.1 hget).1

theorem Inv.called_of_mem (h : Inv s) {timing : Timing α} {pCallback : α}
    (hget : s.shared.made[f]? = some timing) (hmem : (f, pCallback) ∈ s.shared.called) :
    pCallback = timing.pCallback ∧
      (timing.delayMs = 0 ∨ timing.expireTick < s.shared.wheel.mCurrentTick) := by
  obtain ⟨timing', hget', hcallback, hdue⟩ := h.called _ hmem
  cases hget.symm.trans hget'
  exact ⟨hcallback.symm, hdue⟩

/-- A timer in the wheel has a delay, and its tick is still to be processed. -/
theorem Inv.waiting_le (h : Inv s) {timing : Timing α} (hget : s.shared.made[f]? = some timing)
    (hmem : f ∈ s.shared.waiting) :
    timing.delayMs ≠ 0 ∧ s.shared.wheel.mCurrentTick ≤ timing.expireTick := by
  obtain ⟨node, hnode, rfl⟩ := Multiset.mem_map.1 hmem
  obtain ⟨timing', hget', hof⟩ := h.pending node hnode
  cases hget.symm.trans hget'
  refine ⟨hof.2.2, ?_⟩
  rw [hof.2.1]
  exact h.wheel.le_expire hnode

/-- The tick of a timer in an execute list has been processed. -/
theorem Inv.list_lt (h : Inv s) {timing : Timing α} {t : τ}
    (hget : s.shared.made[f]? = some timing) (hmem : f ∈ handlesOf (s.locals t).nodes) :
    timing.delayMs ≠ 0 ∧ timing.expireTick < s.shared.wheel.mCurrentTick := by
  obtain ⟨node, hnode, rfl⟩ := List.mem_map.1 hmem
  obtain ⟨⟨timing', hget', hof⟩, hdue⟩ := h.held t node hnode
  cases hget.symm.trans hget'
  refine ⟨hof.2.2, ?_⟩
  rw [hof.2.1]
  exact hdue

theorem Inv.skipped_of_mem (h : Inv s) {timing : Timing α}
    (hget : s.shared.made[f]? = some timing) (hmem : f ∈ s.shared.skipped) :
    s.shared.cancelled f = true ∧ timing.delayMs ≠ 0 ∧
      timing.expireTick < s.shared.wheel.mCurrentTick := by
  obtain ⟨hset, timing', hget', hpassed⟩ := h.skipped f hmem
  cases hget.symm.trans hget'
  exact ⟨hset, hpassed⟩

theorem Inv.nodup_called (h : Inv s) : (s.shared.called.map Prod.fst).Nodup := by
  rw [List.nodup_iff_count_le_one]
  intro f
  obtain ⟨n, -, hn⟩ := h.counts f
  have hle : s.shared.given f ≤ 1 := by
    unfold given
    split <;> omega
  rw [places] at hn
  omega

end

section Places

variable [DecidableEq τ] {tickInterval t0 : Nat} {s : Threads τ (Pc α) (HandledWheel α)} {f : Nat}

theorem Inv.place (h : Inv s) (hf : f < s.shared.handles) : ∃! p, IsAt s f p := by
  obtain ⟨n, htotal, hn⟩ := h.counts f
  rw [given, if_pos hf, places] at hn
  have hwheel : IsAt s f .wheel ↔ 0 < s.shared.waiting.count f := Multiset.count_pos.symm
  have hcalled : IsAt s f .called ↔ 0 < (s.shared.called.map Prod.fst).count f :=
    List.count_pos_iff.symm
  have hskipped : IsAt s f .skipped ↔ 0 < s.shared.skipped.count f := List.count_pos_iff.symm
  have hlist : ∀ t, IsAt s f (.list t) ↔ 0 < (handlesOf (s.locals t).nodes).count f :=
    fun t => List.count_pos_iff.symm
  -- two threads would have it twice
  have hsame : ∀ {t u}, IsAt s f (.list t) → IsAt s f (.list u) → t = u := by
    intro t u ht hu
    by_contra htu
    have hnodup : [t, u].Nodup := by simpa using htu
    have htwo := htotal.length_le hnodup (by
      simp only [List.mem_cons, List.not_mem_nil, or_false, forall_eq_or_imp, forall_eq]
      exact ⟨(hlist t).1 ht, (hlist u).1 hu⟩)
    rw [List.length_cons, List.length_singleton] at htwo
    omega
  let share : Place τ → Nat
    | .wheel => s.shared.waiting.count f
    | .list _ => n
    | .called => (s.shared.called.map Prod.fst).count f
    | .skipped => s.shared.skipped.count f
  have hshare : ∀ {p}, IsAt s f p → 0 < share p := by
    intro p hp
    cases p with
    | wheel => exact hwheel.1 hp
    | list t => exact Nat.lt_of_lt_of_le ((hlist t).1 hp) (htotal.le t)
    | called => exact hcalled.1 hp
    | skipped => exact hskipped.1 hp
  have hunique : ∀ p q, IsAt s f p → IsAt s f q → p = q := by
    intro p q hp hq
    have hp' := hshare hp
    have hq' := hshare hq
    cases p <;> cases q <;> dsimp only [share] at hp' hq' <;>
      first | rfl | rw [hsame hp hq] | omega
  have hexists : ∃ p, IsAt s f p := by
    by_cases h1 : 0 < s.shared.waiting.count f
    · exact ⟨.wheel, hwheel.2 h1⟩
    · by_cases h2 : 0 < (s.shared.called.map Prod.fst).count f
      · exact ⟨.called, hcalled.2 h2⟩
      · by_cases h3 : 0 < s.shared.skipped.count f
        · exact ⟨.skipped, hskipped.2 h3⟩
        · obtain ⟨t, ht⟩ := htotal.exists_pos (by omega)
          exact ⟨.list t, (hlist t).2 ht⟩
  obtain ⟨p, hp⟩ := hexists
  exact ⟨p, hp, fun q hq => hunique q p hq hp⟩

/-- Where no thread has nodes to execute, a timer without a delay, or whose tick has been processed,
was called or given up. -/
theorem Inv.called_or_skipped (h : Inv s) {timing : Timing α}
    (hget : s.shared.made[f]? = some timing) (hnone : ∀ t, (s.locals t).nodes = [])
    (hdue : timing.delayMs = 0 ∨ timing.expireTick < s.shared.wheel.mCurrentTick) :
    (f, timing.pCallback) ∈ s.shared.called ∨ f ∈ s.shared.skipped := by
  obtain ⟨p, hp, -⟩ := h.place (h.lt_handles hget)
  cases p with
  | wheel =>
    obtain ⟨hdelay, hle⟩ := h.waiting_le hget hp
    exact absurd (hdue.resolve_left hdelay) (Nat.not_lt.2 hle)
  | list t =>
    change f ∈ handlesOf (s.locals t).nodes at hp
    rw [hnone t] at hp
    cases hp
  | called =>
    obtain ⟨⟨f', pCallback⟩, hmem, rfl⟩ := List.mem_map.1 hp
    obtain ⟨rfl, -⟩ := h.called_of_mem hget hmem
    exact .inl hmem
  | skipped => exact .inr hp

/-- **Every timer is in one place.** No callback is called twice. Every timer made is in the wheel,
in the execute list of one thread, called or given up, and in one of these only. In the wheel it
waits for its tick; in a list its tick has been processed; what is called is its callback, at once
if there was no delay and otherwise after its tick; what is given up was cancelled, and its tick has
been processed too. When no thread has nodes to execute, every timer whose tick has been processed
was called or given up. -/
theorem timers_placed (h : (machine τ α tickInterval t0).Reachable s) :
    (s.shared.called.map Prod.fst).Nodup ∧
    ∀ f timing, s.shared.made[f]? = some timing →
      (∃! p, IsAt s f p) ∧
      (IsAt s f .wheel →
        timing.delayMs ≠ 0 ∧ s.shared.wheel.mCurrentTick ≤ timing.expireTick) ∧
      (∀ t, IsAt s f (.list t) →
        timing.delayMs ≠ 0 ∧ timing.expireTick < s.shared.wheel.mCurrentTick) ∧
      (∀ pCallback, (f, pCallback) ∈ s.shared.called → pCallback = timing.pCallback ∧
        (timing.delayMs = 0 ∨ timing.expireTick < s.shared.wheel.mCurrentTick)) ∧
      (f ∈ s.shared.skipped → s.shared.cancelled f = true ∧
        timing.delayMs ≠ 0 ∧ timing.expireTick < s.shared.wheel.mCurrentTick) ∧
      ((∀ t, (s.locals t).nodes = []) → timing.expireTick < s.shared.wheel.mCurrentTick →
        (f, timing.pCallback) ∈ s.shared.called ∨ f ∈ s.shared.skipped) := by
  have hI := reachable_inv h
  refine ⟨hI.nodup_called, fun f timing hget => ?_⟩
  exact ⟨hI.place (hI.lt_handles hget), fun hmem => hI.waiting_le hget hmem,
    fun _ hmem => hI.list_lt hget hmem, fun _ hmem => hI.called_of_mem hget hmem,
    fun hmem => hI.skipped_of_mem hget hmem,
    fun hnone hdue => hI.called_or_skipped hget hnone (.inr hdue)⟩

end Places

/-! ## How often a callback is called -/

section Due

variable [DecidableEq α] {s : Threads τ (Pc α) (HandledWheel α)} {pCallback : α} {f : Nat}

/-- The timers of a callback that have no delay, or whose tick has been processed. -/
def due (s : HandledWheel α) (pCallback : α) : List Nat :=
  (List.range s.made.length).filter fun f => (s.made[f]?).any fun timing =>
    timing.pCallback = pCallback ∧
      (timing.delayMs = 0 ∨ timing.expireTick < s.wheel.mCurrentTick)

/-- How often a callback was called. -/
def timesCalled (s : HandledWheel α) (pCallback : α) : Nat :=
  s.called.countP fun c => c.2 = pCallback

/-- The handles with which a callback was called. -/
def calledFor (s : HandledWheel α) (pCallback : α) : List Nat :=
  (s.called.filter fun c => c.2 = pCallback).map Prod.fst

theorem mem_due {s : HandledWheel α} : f ∈ s.due pCallback ↔ ∃ timing,
    s.made[f]? = some timing ∧ timing.pCallback = pCallback ∧
      (timing.delayMs = 0 ∨ timing.expireTick < s.wheel.mCurrentTick) := by
  rw [due, List.mem_filter, Option.any_eq_true]
  simp only [decide_eq_true_eq]
  refine ⟨And.right, fun h => ⟨List.mem_range.2 ?_, h⟩⟩
  obtain ⟨timing, hget, -⟩ := h
  exact (List.getElem?_eq_some_iff.1 hget).1

theorem mem_calledFor {s : HandledWheel α} :
    f ∈ s.calledFor pCallback ↔ (f, pCallback) ∈ s.called := by
  simp [calledFor]

theorem length_calledFor (s : HandledWheel α) (pCallback : α) :
    (s.calledFor pCallback).length = s.timesCalled pCallback := by
  rw [calledFor, List.length_map, ← List.countP_eq_length_filter, timesCalled]

theorem Inv.nodup_calledFor (h : Inv s) : (s.shared.calledFor pCallback).Nodup :=
  h.nodup_called.sublist (List.filter_sublist.map Prod.fst)

theorem Inv.due_of_called (h : Inv s) (hmem : (f, pCallback) ∈ s.shared.called) :
    f ∈ s.shared.due pCallback := by
  obtain ⟨timing, hget, hcallback, hdue⟩ := h.called _ hmem
  exact mem_due.2 ⟨timing, hget, hcallback, hdue⟩

/-- **A callback is called once at most for each of its timers that is due.** -/
theorem Inv.timesCalled_le (h : Inv s) (pCallback : α) :
    s.shared.timesCalled pCallback ≤ (s.shared.due pCallback).length := by
  rw [← length_calledFor]
  exact (h.nodup_calledFor.subperm fun f hf => h.due_of_called (mem_calledFor.1 hf)).length_le

/-- **Where no thread has nodes to execute, it was called for all of them** but those that `Execute`
found cancelled. -/
theorem Inv.timesCalled_eq [DecidableEq τ] (h : Inv s) (hnone : ∀ t, (s.locals t).nodes = [])
    (pCallback : α) : s.shared.timesCalled pCallback =
      ((s.shared.due pCallback).filter fun f => f ∉ s.shared.skipped).length := by
  rw [← length_calledFor]
  refine ((List.perm_ext_iff_of_nodup h.nodup_calledFor
    ((List.nodup_range.filter _).filter _)).2 fun f => ?_).length_eq
  rw [mem_calledFor, List.mem_filter, decide_eq_true_eq]
  constructor
  · intro hmem
    refine ⟨h.due_of_called hmem, fun hskip => ?_⟩
    obtain ⟨timing, hget, -⟩ := h.called _ hmem
    have hcalled : IsAt s f .called := List.mem_map.2 ⟨_, hmem, rfl⟩
    have hskipped : IsAt s f .skipped := hskip
    exact nomatch (h.place (h.lt_handles hget)).unique hcalled hskipped
  · rintro ⟨hdue, hskip⟩
    obtain ⟨timing, hget, rfl, htick⟩ := mem_due.1 hdue
    exact (h.called_or_skipped hget hnone htick).resolve_right hskip

end Due

/-- A wheel with an interval of 16 ms, made at 0, before any call. -/
def idleWheel : Threads Bool (Pc Nat) (HandledWheel Nat) := ⟨new Nat 16 0, fun _ => .ticking .idle⟩

/-- Two timers of 16 ms, of which one thread cancels the first while the other ticks after 40 ms, up
to the loads of the flags. -/
def cancelFirst : List (ThreadAction Bool (Act Nat) Nat) :=
  [.thread true (.addTiming 7 16), .thread true .next, .thread true (.addTiming 8 16),
    .thread true .next, .thread true (.cancel 0), .env 40000000, .thread false .tick] ++
  List.replicate 8 (.thread false .next) ++ [.thread true .next] ++
  List.replicate 2 (.thread false .next)

/-- Each of the two is in one place in the end: the first was given up, the second called, both
after their tick. -/
theorem timers_placed_cancelFirst : ∃ s : Threads Bool (Pc Nat) (HandledWheel Nat),
    (machine Bool Nat 16 0).exec idleWheel
      (cancelFirst ++ List.replicate 2 (.thread false .next)) = some s ∧
    s.shared.called = [(1, 8)] ∧ s.shared.skipped = [0] ∧
    (∃! p, IsAt s 0 p) ∧ (∃! p, IsAt s 1 p) ∧ 1 < s.shared.wheel.mCurrentTick := by
  obtain ⟨s, hs, hafter⟩ := (Option.any_eq_true (fun s => decide
    (s.shared.made = [⟨7, 16, 1⟩, ⟨8, 16, 1⟩] ∧ s.shared.called = [(1, 8)] ∧
      s.shared.skipped = [0])) ((machine Bool Nat 16 0).exec idleWheel
        (cancelFirst ++ List.replicate 2 (.thread false .next)))).1 (by decide +kernel)
  obtain ⟨hmade, hcalled, hskipped⟩ := of_decide_eq_true hafter
  have hplaced := (timers_placed (Machine.Reachable.exec _ (.init ⟨rfl, fun _ => rfl⟩) hs)).2
  rw [hmade] at hplaced
  obtain ⟨hfirst, -, -, -, hgivenUp, -⟩ := hplaced 0 _ rfl
  have hpassed := (hgivenUp (hskipped ▸ List.mem_singleton_self 0)).2.2
  exact ⟨s, hs, hcalled, hskipped, hfirst, (hplaced 1 _ rfl).1, hpassed⟩

end CppNetEngine.HandledWheel
