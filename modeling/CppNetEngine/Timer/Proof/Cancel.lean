import CppNetEngine.Timer.Proof.Handles

/-!
# Cancelling a timer

From a state on in which a timer is cancelled, its callback is never called, unless a thread has
loaded its cancel flag before and is about to call it (`cancel_stops_iff`).
-/

namespace CppNetEngine.HandledWheel

variable {τ α : Type}

/-- The handle was made and cancelled, and its callback not called before. -/
structure Cancelled (s : HandledWheel α) (f : Nat) : Prop where
  made : f < s.handles
  set : s.cancelled f = true
  notCalled : f ∉ s.called.map Prod.fst

theorem advance_flags (s : TickingWheel α) (ns : Nat) :
    s.timers.flags ≤ (s.advance ns).timers.flags := Nat.le_refl _

theorem next_flags {s s' : TickingWheel α} {pc pc' : TickingWheel.Pc α}
    (h : s.next pc = some (s', pc')) : s.timers.flags ≤ s'.timers.flags := by
  cases pc with
  | idle => cases h
  | addTiming pCallback delayMs =>
    cases h
    exact Nat.le_succ _
  | exchange | readClock | elapsed | turnBack | store =>
    cases h
    exact Nat.le_refl _
  | advance now tickCount =>
    cases h
    exact advance_flags s _
  | loop now i tickCount executeList =>
    rw [TickingWheel.next] at h
    split at h <;> cases h <;> exact Nat.le_refl _
  | execute now executeList =>
    cases executeList <;> cases h <;> exact Nat.le_refl _

/-- A step of `AddTiming` or `Tick` itself calls nothing. -/
theorem Cancelled.tickingNext {s s' : HandledWheel α} {f : Nat} (h : s.Cancelled f)
    {pc : TickingWheel.Pc α} {pc' : Pc α} (hnext : s.tickingNext pc = some (s', pc')) :
    s'.Cancelled f ∧ ¬ pc'.Calls f := by
  obtain ⟨⟨ticking, next⟩, hticking, heq⟩ := Option.map_eq_some_iff.1 hnext
  cases heq
  exact ⟨⟨Nat.lt_of_lt_of_le h.made (next_flags hticking), h.set, h.notCalled⟩, id⟩

/-- Other callbacks are called. -/
theorem Cancelled.call {s s' : HandledWheel α} {f : Nat} (h : s.Cancelled f)
    {new : List (Nat × α)} (hnew : ∀ c ∈ new, c.1 ≠ f) (hcalled : s'.called = s.called ++ new)
    (hhandles : s'.handles = s.handles) (hcancelled : s'.cancelled = s.cancelled) :
    s'.Cancelled f := by
  refine ⟨hhandles ▸ h.made, hcancelled ▸ h.set, ?_⟩
  rw [hcalled, List.map_append, List.mem_append, not_or]
  refine ⟨h.notCalled, fun hmem => ?_⟩
  obtain ⟨c, hc, hcf⟩ := List.mem_map.1 hmem
  exact hnew c hc hcf

/-- **A step after which the callback still has not been called.** -/
theorem Cancelled.next {s s' : HandledWheel α} {f : Nat} (h : s.Cancelled f) {pc pc' : Pc α}
    (hcalls : ¬ pc.Calls f) (hnext : s.next pc = some (s', pc')) :
    s'.Cancelled f ∧ ¬ pc'.Calls f := by
  cases pc with
  | cancel handle =>
    cases hnext
    refine ⟨⟨h.made, ?_, h.notCalled⟩, id⟩
    show Function.update s.cancelled handle true f = true
    by_cases hfh : f = handle
    · rw [hfh, Function.update_self]
    · rw [Function.update_of_ne hfh]
      exact h.set
  | callback now node rest =>
    have hcall : Cancelled
        { s with called := s.called ++ [(node.mpCancelFlag, node.mpCallback)] } f := by
      refine h.call (fun c hc => ?_) rfl rfl rfl
      rw [List.mem_singleton.1 hc]
      exact hcalls
    exact hcall.tickingNext hnext
  | ticking pc =>
    cases pc with
    | addTiming pCallback delayMs =>
      have hadd : Cancelled (s.addTiming pCallback delayMs) f := by
        refine h.call (fun c hc => ?_) rfl rfl rfl
        -- a new handle is not that one
        rintro rfl
        obtain ⟨cb, -, rfl⟩ := List.mem_map.1 hc
        exact Nat.lt_irrefl _ h.made
      exact hadd.tickingNext hnext
    | execute now executeList =>
      cases executeList with
      | nil => exact h.tickingNext hnext
      | cons node rest =>
        rw [HandledWheel.next] at hnext
        split at hnext
        · have hskip : Cancelled { s with skipped := s.skipped ++ [node.mpCancelFlag] } f :=
            ⟨h.made, h.set, h.notCalled⟩
          exact hskip.tickingNext hnext
        · rename_i hnot
          cases hnext
          refine ⟨h, fun hf => hnot ?_⟩
          rw [show node.mpCancelFlag = f from hf]
          exact h.set
    | idle | exchange | readClock | elapsed | turnBack | advance | loop | store =>
      exact h.tickingNext hnext

variable [DecidableEq τ] {tickInterval t0 : Nat} {s s' : Threads τ (Pc α) (HandledWheel α)}
  {f : Nat}

/-- The timer is cancelled, and no thread is about to call its callback. -/
structure Stopped (f : Nat) (s : Threads τ (Pc α) (HandledWheel α)) : Prop where
  cancelled : s.shared.Cancelled f
  idle : ∀ t, ¬ (s.locals t).Calls f

theorem Stopped.step (h : Stopped f s) {a : ThreadAction τ (Act α) Nat}
    (hs : (machine τ α tickInterval t0).step s a = some s') : Stopped f s' := by
  obtain ⟨t, b, shared, l, rfl, hact, rfl⟩ | ⟨ns, shared, rfl, hpass, rfl⟩ :=
    Threads.step_cases hs
  · have hshared : shared.Cancelled f ∧ ¬ l.Calls f := by
      rcases act_cases hact with hnext | ⟨rfl, -, -, hcalls⟩
      · exact h.cancelled.next (h.idle t) hnext
      · exact ⟨h.cancelled, hcalls f⟩
    refine ⟨hshared.1, fun u => ?_⟩
    by_cases hu : u = t
    · subst hu
      rw [Threads.set_self]
      exact hshared.2
    · rw [Threads.set_other _ _ _ _ hu]
      exact h.idle u
  · cases hpass
    exact ⟨⟨h.cancelled.made, h.cancelled.set, h.cancelled.notCalled⟩, h.idle⟩

/-- **When `Cancel` is in time**: from a state on in which a timer is cancelled and has not been
called, it is never called exactly if no thread has loaded its flag before. -/
theorem cancel_stops_iff (h : s.shared.Cancelled f) :
    (∀ as s', (machine τ α tickInterval t0).exec s as = some s' →
      f ∉ s'.shared.called.map Prod.fst) ↔ ∀ t, ¬ (s.locals t).Calls f := by
  constructor
  · intro hnever t ht
    cases hpc : s.locals t with
    | ticking | cancel =>
      rw [hpc] at ht
      exact ht
    | callback now node rest =>
      rw [hpc] at ht
      -- the thread goes on
      have hstep : (machine τ α tickInterval t0).exec s [.thread t .next] = some (s.set t
          { s.shared with
            ticking := { s.shared.ticking with
              executed := s.shared.ticking.executed ++ [⟨now, node⟩] }
            called := s.shared.called ++ [(node.mpCancelFlag, node.mpCallback)] }
          (.ticking (.execute now rest))) := by
        simp only [Machine.exec, machine, Threads.machine, hpc]
        rfl
      refine hnever _ _ hstep (List.mem_map.2 ⟨(node.mpCancelFlag, node.mpCallback), ?_, ht⟩)
      exact List.mem_append_right _ (List.mem_singleton_self _)
  · intro hidle as s' he
    have hstopped : Stopped f s' :=
      Machine.exec_invariant (fun _ _ _ hI hs => hI.step hs) as ⟨h, hidle⟩ he
    exact hstopped.cancelled.notCalled

/-- The first is cancelled in time: it is never called. -/
theorem cancel_stops_iff_cancelFirst : ∃ s : Threads Bool (Pc Nat) (HandledWheel Nat),
    (machine Bool Nat 16 0).exec idleWheel (cancelFirst.take 16) = some s ∧
    ∀ as s', (machine Bool Nat 16 0).exec s as = some s' →
      0 ∉ s'.shared.called.map Prod.fst := by
  obtain ⟨s, hs, hafter⟩ := (Option.any_eq_true
    (fun s : Threads Bool (Pc Nat) (HandledWheel Nat) => decide
      (0 < s.shared.handles ∧ s.shared.cancelled 0 = true ∧ 0 ∉ s.shared.called.map Prod.fst ∧
      ¬ (s.locals false).Calls 0 ∧ ¬ (s.locals true).Calls 0))
        ((machine Bool Nat 16 0).exec idleWheel (cancelFirst.take 16))).1 (by decide +kernel)
  obtain ⟨hmade, hset, hcalled, hfalse, htrue⟩ := of_decide_eq_true hafter
  exact ⟨s, hs, (cancel_stops_iff ⟨hmade, hset, hcalled⟩).2 (Bool.forall_bool.2 ⟨hfalse, htrue⟩)⟩

end CppNetEngine.HandledWheel
