import CppNetEngine.Actor.Delayed
import CppNetEngine.Actor.Proof.Order
import CppNetEngine.Lib.Parts
import CppNetEngine.Timer.Proof.Handles

/-!
# Delayed jobs run once

The threads of `Delayed.lean` are, for the actors, threads that post and dispatch, where a callback
of a timer is one more post; and for the timers threads that tick, add and cancel
(`DelayedSeen.jobs`, `handledWheel_reachable`). So what holds of either holds of both together. In
between are the posts that callbacks make: what was posted and called is what was pushed, refused,
or is still to be pushed (`DelayedSeen.pushes`). `delayed_conserved`: no job runs more often than it
was posted and its timers became due, and in a state at rest every one of these runs is accounted
for.
-/

namespace CppNetEngine

namespace HandledWheel

variable {α : Type} {s s' : HandledWheel α} {pc pc' : Pc α}

theorem callbacks_cases (s : HandledWheel α) (pc : Pc α) :
    s.callbacks pc = [] ∨ ∃ pCallback, s.callbacks pc = [pCallback] := by
  cases pc with
  | cancel => exact .inl rfl
  | callback now node rest => exact .inr ⟨_, rfl⟩
  | ticking pc =>
    cases pc with
    | addTiming pCallback delayMs =>
      simp only [callbacks]
      cases (s.wheel.addTiming s.handles pCallback delayMs).2 with
      | none => exact .inl rfl
      | some c => exact .inr ⟨c, rfl⟩
    | _ => exact .inl rfl

/-- **What a step calls**, and that a thread that goes on is in no call that a job makes. -/
theorem next_called (h : s.next pc = some (s', pc')) :
    s'.called.map Prod.snd = s.called.map Prod.snd ++ s.callbacks pc ∧ pc'.isOfJob = false := by
  cases pc with
  | cancel handle =>
    cases h
    exact ⟨(List.append_nil _).symm, rfl⟩
  | callback now node rest =>
    cases h
    exact ⟨List.map_append, rfl⟩
  | ticking pc =>
    cases pc with
    | idle => cases h
    | addTiming pCallback delayMs =>
      cases h
      refine ⟨?_, rfl⟩
      simp [HandledWheel.addTiming, callbacks]
    | exchange | elapsed =>
      cases h
      refine ⟨(List.append_nil _).symm, ?_⟩
      dsimp only
      split <;> rfl
    | readClock | turnBack | advance | store =>
      cases h
      exact ⟨(List.append_nil _).symm, rfl⟩
    | loop now i tickCount executeList =>
      simp only [next, tickingNext, TickingWheel.next] at h
      split at h <;> cases h <;> exact ⟨(List.append_nil _).symm, rfl⟩
    | execute now executeList =>
      cases executeList with
      | nil =>
        cases h
        exact ⟨(List.append_nil _).symm, rfl⟩
      | cons node rest =>
        rw [next] at h
        split at h <;> cases h <;> exact ⟨(List.append_nil _).symm, rfl⟩

theorem next_timesCalled [DecidableEq α] (h : s.next pc = some (s', pc')) (pCallback : α) :
    s'.timesCalled pCallback =
      s.timesCalled pCallback + (s.callbacks pc).countP fun c => c = pCallback := by
  have htimes : ∀ w : HandledWheel α,
      w.timesCalled pCallback = (w.called.map Prod.snd).countP fun c => c = pCallback := by
    intro w
    rw [List.countP_map]
    rfl
  rw [htimes, htimes, (next_called h).1, List.countP_append]

end HandledWheel

namespace ActorScheduler

variable {τ α J : Type}

/-- Threads of plain actors with timers. -/
abbrev DelayedState (τ α J : Type) := Threads τ (Local α Empty J) (Shared τ α Empty J)

/-- What is seen of the jobs of a run. -/
inductive DelayedEvent (α J : Type)
  /-- `Post` is called, not by a callback. -/
  | posted (a : α) (pJob : J)
  /-- `Post`: the queue is full. -/
  | refused (a : α) (pJob : J)
  | job (e : JobEvent α J)

deriving instance DecidableEq for JobEvent, DelayedEvent

/-- What was seen of the queues. -/
def DelayedEvent.job? : DelayedEvent α J → Option (JobEvent α J)
  | .job e => some e
  | _ => none

/-- A `PushJob` that fails. -/
def seeRefused (m : ActorMemory τ α Empty J) : Frame α Empty J → List (DelayedEvent α J)
  | .pushJob (.actor a) pJob =>
    if defaultMaxCount ≤ (m.mJobQueue (.actor a)).length then [.refused a pJob] else []
  | _ => []

/-- What is seen of a statement. -/
def seeFrame (m : ActorMemory τ α Empty J) (f : Frame α Empty J) : List (DelayedEvent α J) :=
  (seeJob m f).map .job ++ seeRefused m f

def seeDelayed (s : DelayedState τ α J) :
    ThreadAction τ (DelayedAct α Empty J) Nat → List (DelayedEvent α J)
  | .thread _ (.call (.post (.actor a) pJob)) => [.posted a pJob]
  | .thread t .next =>
    match (s.locals t).frames with
    | [] => []
    | f :: _ => if (s.locals t).timing.isOfJob then [] else seeFrame s.shared.actors f
  | _ => []

/-- The states of all runs, with what is seen of the jobs. -/
abbrev DelayedSeen [DecidableEq τ] [DecidableEq α] (cfg : ActorConfig α Empty)
    (tickInterval t0 : Nat) : List (DelayedEvent α J) → DelayedState τ α J → Prop :=
  (delayedMachine cfg tickInterval t0).Observed (Threads.Guard (fun _ _ _ => True) fun _ _ => True)
    seeDelayed

/-! ## Steps -/

section Steps

variable [DecidableEq α] {cfg : ActorConfig α Empty} {t : τ} {a : DelayedAct α Empty J}
  {s s' : Shared τ α Empty J} {l l' : Local α Empty J}

/-- **What an action does.** -/
inductive DelayedStep (cfg : ActorConfig α Empty) (t : τ) (s : Shared τ α Empty J)
    (l : Local α Empty J) :
    DelayedAct α Empty J → Shared τ α Empty J → Local α Empty J → Prop
  /-- `Post` or `Dispatch` is called. -/
  | call {c : Call α Empty J} {m : ActorMemory τ α Empty J} {f : Frame α Empty J} :
      l.timing.isOfJob = false → enter c s.actors l.frames = some (m, f) →
      DelayedStep cfg t s l (.call c) { s with actors := m } { l with frames := f :: l.frames }
  /-- A step of the innermost frame. -/
  | frame {f : Frame α Empty J} {rest new : List (Frame α Empty J)}
      {m : ActorMemory τ α Empty J} : l.timing.isOfJob = false → l.frames = f :: rest →
      step cfg t s.actors f = some (m, new) →
      DelayedStep cfg t s l .next { s with actors := m } { l with frames := new ++ rest }
  /-- A step in a call of the timers. -/
  | timing {w : HandledWheel (Capture α Empty J)} {pc : HandledWheel.Pc (Capture α Empty J)} :
      (l.frames ≠ [] → l.timing.isOfJob = true) → s.mTimingWheel.next l.timing = some (w, pc) →
      DelayedStep cfg t s l .next { s with mTimingWheel := w }
        { frames :=
            (s.mTimingWheel.callbacks l.timing).map (fun c => .pushJob c.1 c.2) ++ l.frames
          timing := pc }
  /-- A function of the timers is called. -/
  | enter {a : DelayedAct α Empty J} {b : HandledWheel.Act (Capture α Empty J)}
      {pc : HandledWheel.Pc (Capture α Empty J)} : canCall l.frames = true →
      HandledWheel.act b s.mTimingWheel l.timing = some (s.mTimingWheel, pc) →
      (∀ c, a ≠ .call c) → a ≠ .next → DelayedStep cfg t s l a s { l with timing := pc }

omit [DecidableEq α] in
theorem callTiming_cases {b : HandledWheel.Act (Capture α Empty J)} (hb : b ≠ .next)
    (h : callTiming b s l = some (s', l')) : s' = s ∧ ∃ pc,
      HandledWheel.act b s.mTimingWheel l.timing = some (s.mTimingWheel, pc) ∧
      l' = { l with timing := pc } := by
  obtain ⟨⟨w, pc⟩, hact, he⟩ := Option.map_eq_some_iff.1 h
  cases he
  have hw : w = s.mTimingWheel := by
    unfold HandledWheel.act at hact
    split at hact
    · cases hact
      rfl
    · cases hact
      rfl
    · split at hact <;> cases hact
      rfl
    · exact absurd rfl hb
    · cases hact
  subst hw
  exact ⟨rfl, pc, hact, rfl⟩

theorem actDelayed_step (h : actDelayed cfg t a s l = some (s', l')) :
    DelayedStep cfg t s l a s' l' := by
  have henter : ∀ {b : HandledWheel.Act (Capture α Empty J)}, canCall l.frames = true →
      callTiming b s l = some (s', l') → b ≠ .next → (∀ c, a ≠ .call c) → a ≠ .next →
      DelayedStep cfg t s l a s' l' := by
    intro b hcan h hb hcall hnext
    obtain ⟨rfl, pc, hact, rfl⟩ := callTiming_cases hb h
    exact .enter hcan hact hcall hnext
  cases a with
  | call c =>
    simp only [actDelayed] at h
    split at h
    · rename_i hidle
      obtain ⟨⟨m, f⟩, hc, he⟩ := Option.map_eq_some_iff.1 h
      cases he
      exact .call (by rw [hidle]; rfl) hc
    · cases h
  | postDelay x pJob delayMs | cancel handle =>
    simp only [actDelayed] at h
    split at h
    · rename_i hcan
      exact henter hcan h nofun nofun nofun
    · cases h
  | tick =>
    simp only [actDelayed] at h
    split at h
    · rename_i hframes
      exact henter (by rw [hframes]; rfl) h nofun nofun nofun
    · cases h
  | next =>
    have htiming : (l.frames ≠ [] → l.timing.isOfJob = true) → nextTiming s l = some (s', l') →
        DelayedStep cfg t s l .next s' l' := by
      intro hjob hnext
      obtain ⟨⟨w, pc⟩, hw, he⟩ := Option.map_eq_some_iff.1 hnext
      cases he
      exact .timing hjob hw
    simp only [actDelayed, nextDelayed] at h
    split at h
    · rename_i hframes
      exact htiming (fun hne => absurd hframes hne) h
    · rename_i f rest hframes
      split at h
      · rename_i hjob
        exact htiming (fun _ => hjob) h
      · rename_i hjob
        obtain ⟨⟨m, new⟩, hm, he⟩ := Option.map_eq_some_iff.1 h
        cases he
        exact .frame (Bool.eq_false_iff.2 hjob) hframes hm

theorem enter_post {frames : List (Frame α Empty J)} (hcan : canCall frames = true)
    (m : ActorMemory τ α Empty J) (x : ActorRef α Empty) (pJob : J) :
    enter (.post x pJob) m frames = some (m, .pushJob x pJob) := by
  cases frames with
  | nil => rfl
  | cons f rest =>
    cases f with
    | running => rfl
    | _ => cases hcan

end Steps

/-! ## What is seen of steps -/

section See

variable {s : DelayedState τ α J} {t : τ} {a : DelayedAct α Empty J}

theorem filterMap_seeFrame (m : ActorMemory τ α Empty J) (f : Frame α Empty J) :
    (seeFrame m f).filterMap DelayedEvent.job? = seeJob m f := by
  have hrefused : (seeRefused m f).filterMap DelayedEvent.job? = [] := by
    unfold seeRefused
    split
    · split <;> rfl
    · rfl
  rw [seeFrame, List.filterMap_append, hrefused, List.append_nil, List.filterMap_map]
  exact List.filterMap_some

theorem see_call (c : Call α Empty J) :
    (seeDelayed s (.thread t (.call c))).filterMap DelayedEvent.job? = [] := by
  cases c with
  | post x pJob =>
    obtain ⟨b, rfl⟩ := x.plain
    rfl
  | dispatch x => rfl

theorem see_frame {f : Frame α Empty J} {rest : List (Frame α Empty J)}
    (hnot : (s.locals t).timing.isOfJob = false) (hframes : (s.locals t).frames = f :: rest) :
    seeDelayed s (.thread t .next) = seeFrame s.shared.actors f := by
  simp only [seeDelayed, hframes, hnot, Bool.false_eq_true, if_false]

theorem see_timing (hjob : (s.locals t).frames ≠ [] → (s.locals t).timing.isOfJob = true) :
    seeDelayed s (.thread t .next) = [] := by
  cases hframes : (s.locals t).frames with
  | nil => simp only [seeDelayed, hframes]
  | cons f rest =>
    have hof := hjob (by rw [hframes]; exact List.cons_ne_nil f rest)
    simp only [seeDelayed, hframes, hof, if_true]

theorem see_enter (hcall : ∀ c, a ≠ .call c) (hnext : a ≠ .next) :
    seeDelayed s (.thread t a) = [] := by
  cases a with
  | call c => exact absurd rfl (hcall c)
  | next => exact absurd rfl hnext
  | postDelay | cancel | tick => rfl

end See

/-! ## The actors and the timers -/

section Parts

variable [DecidableEq τ] [DecidableEq α] {cfg : ActorConfig α Empty} {tickInterval t0 : Nat}
  {s : DelayedState τ α J} {l : List (DelayedEvent α J)}

/-- A thread in a call that jobs make is in a job, or in no other call. -/
theorem canCall_of_isOfJob (h : (delayedMachine (τ := τ) (J := J) cfg tickInterval t0).ReachableIf
    (Threads.Guard (fun _ _ _ => True) fun _ _ => True) s) :
    ∀ t, (s.locals t).timing.isOfJob = true → canCall (s.locals t).frames = true := by
  refine Threads.invariant (I := fun s => ∀ t, (s.locals t).timing.isOfJob = true →
    canCall (s.locals t).frames = true) ?_ ?_ ?_ h
  · intro s hs t _
    rw [hs.2 t]
    rfl
  · intro s t a shared l hI _ hact u hjob
    by_cases hu : u = t
    · subst hu
      rw [Threads.set_self] at hjob ⊢
      cases actDelayed_step hact with
      | call hnot | frame hnot =>
        rw [hnot] at hjob
        cases hjob
      | timing _ hnext =>
        rw [(HandledWheel.next_called hnext).2] at hjob
        cases hjob
      | enter hcan => exact hcan
    · rw [Threads.set_other _ _ _ _ hu] at hjob ⊢
      exact hI u hjob
  · intro s ns shared hI _ hpass
    cases hpass
    exact hI

/-- **For the actors** these are threads that post and dispatch. -/
theorem DelayedSeen.jobs (h : DelayedSeen cfg tickInterval t0 l s) :
    JobsSeen cfg (l.filterMap DelayedEvent.job?) (s.part Shared.actors Local.frames) := by
  refine Threads.observed_part ?_ ?_ ?_ h
  · rintro s ⟨hshared, hlocals⟩
    refine ⟨?_, fun t => ?_⟩
    · rw [Threads.part_shared, hshared]
    · rw [Threads.part_locals, hlocals t]
  · intro s t a shared loc hr _ hact
    cases actDelayed_step hact with
    | @call c m f hnot hcall =>
      refine .inr ⟨.call c, trivial, ?_, ?_⟩
      · exact congrArg (Option.map fun r => (r.1, r.2 :: (s.locals t).frames)) hcall
      · exact (see_call _).symm
    | frame hnot hframes hstep =>
      refine .inr ⟨.next (), trivial, ?_, ?_⟩
      · rw [hframes]
        exact congrArg (Option.map fun r => (r.1, r.2 ++ _)) hstep
      · rw [see_frame hnot hframes, filterMap_seeFrame]
        simp only [Stacks.see, Threads.part_locals, hframes, Threads.part_shared]
    | timing hjob hnext =>
      rw [see_timing hjob]
      obtain hnone | ⟨c, hone⟩ := s.shared.mTimingWheel.callbacks_cases (s.locals t).timing
      · rw [hnone]
        exact .inl ⟨rfl, rfl, rfl⟩
      · -- the callback posts
        rw [hone]
        have hcan : canCall (s.locals t).frames = true := by
          by_cases hframes : (s.locals t).frames = []
          · rw [hframes]
            rfl
          · exact canCall_of_isOfJob hr t (hjob hframes)
        refine .inr ⟨.call (.post c.1 c.2), trivial, ?_, rfl⟩
        exact congrArg (Option.map fun r => (r.1, r.2 :: (s.locals t).frames))
          (enter_post hcan s.shared.actors c.1 c.2)
    | enter hcan hb hcall hnext =>
      rw [see_enter hcall hnext]
      exact .inl ⟨rfl, rfl, rfl⟩
  · intro s ns shared _ hpass
    cases hpass
    exact .inl ⟨rfl, rfl⟩

/-- **For the timers** they are threads that tick, add and cancel. -/
theorem handledWheel_reachable (h : DelayedSeen cfg tickInterval t0 l s) :
    (HandledWheel.machine τ (Capture α Empty J) tickInterval t0).Reachable
      (s.part Shared.mTimingWheel Local.timing) := by
  suffices hpart : (HandledWheel.machine τ (Capture α Empty J) tickInterval t0).ReachableIf
      (Threads.Guard (fun _ _ _ => True) fun _ _ => True)
      (s.part Shared.mTimingWheel Local.timing) from hpart.mono fun _ _ _ => trivial
  refine Threads.reachable_part ?_ ?_ ?_ h.reachableIf
  · rintro s ⟨hshared, hlocals⟩
    refine ⟨?_, fun t => ?_⟩
    · rw [Threads.part_shared, hshared]
    · rw [Threads.part_locals, hlocals t]
  · intro s t a shared loc hr _ hact
    cases actDelayed_step hact with
    | call | frame => exact .inl ⟨rfl, rfl⟩
    | timing hjob hnext => exact .inr ⟨.next, trivial, (HandledWheel.act_next _ _).trans hnext⟩
    | enter hcan hb => exact .inr ⟨_, trivial, hb⟩
  · intro s ns shared _ hpass
    cases hpass
    exact .inr ⟨ns, trivial, rfl⟩

end Parts

/-! ## What becomes of posts -/

section Pushes

variable [DecidableEq τ] [DecidableEq α] [DecidableEq J] {cfg : ActorConfig α Empty}
  {tickInterval t0 : Nat} {s : DelayedState τ α J} {l : List (DelayedEvent α J)} {t : τ} {a : α}
  {pJob : J}

/-- The frame is to push the job. -/
def pushes (a : α) (pJob : J) : Frame α Empty J → Nat
  | .pushJob x pJob' => if x = .actor a ∧ pJob' = pJob then 1 else 0
  | _ => 0

omit [DecidableEq τ] in
theorem step_pushes {m m' : ActorMemory τ α Empty J} {f : Frame α Empty J}
    {new : List (Frame α Empty J)} (h : step cfg t m f = some (m', new)) :
    Stacks.weigh (pushes a pJob) new = 0 := by
  cases f with
  | pushJob x pJob' | registerCount x =>
    simp only [step] at h
    split at h <;> cases h <;> simp [pushes]
  | scheduleTryAcquire b | dispatchTryAcquire b =>
    rcases tryAcquire_cases m t b with ⟨-, htry⟩ | ⟨-, htry⟩ <;> simp only [step, htry] at h <;>
      cases h <;> rfl
  | scheduleSetOwner x | schedulePost x | dispatchClear x =>
    obtain ⟨b, rfl⟩ := x.plain
    cases h
    rfl
  | dispatchGetOwner x =>
    obtain ⟨b, rfl⟩ := x.plain
    cases h
    split <;> rfl
  | dispatchCount x | scheduleRelease b | dispatchRelease b | running x pJob' n =>
    cases h
    rfl
  | dispatchExecute x n =>
    cases n with
    | zero =>
      cases h
      rfl
    | succ n =>
      simp only [step] at h
      split at h <;> cases h <;> rfl
  | memberTryAcquire s | memberStoreIndex s | memberLoadIndex s | releaseLoadIndex s
  | releaseMember s | releaseStoreIndex s => exact s.elim

omit [DecidableEq τ] in
theorem count_seeFrame (a : α) (pJob : J) (m : ActorMemory τ α Empty J) (f : Frame α Empty J) :
    (seeFrame m f).count (.job ⟨.pushed, a, pJob⟩) + (seeFrame m f).count (.refused a pJob) =
      pushes a pJob f ∧ (seeFrame m f).count (.posted a pJob) = 0 := by
  cases f with
  | pushJob x pJob' =>
    obtain ⟨b, rfl⟩ := x.plain
    by_cases hfull : defaultMaxCount ≤ (m.mJobQueue (.actor b)).length
    · simp [seeFrame, seeJob, seeRefused, hfull, pushes, List.count_singleton]
    · simp [seeFrame, seeJob, seeRefused, hfull, pushes, List.count_singleton]
  | dispatchExecute x n =>
    obtain ⟨b, rfl⟩ := x.plain
    cases n with
    | zero => exact ⟨rfl, rfl⟩
    | succ n => cases hqueue : m.mJobQueue (.actor b) <;>
        simp [seeFrame, seeJob, seeRefused, hqueue, pushes]
  | running x pJob' n =>
    obtain ⟨b, rfl⟩ := x.plain
    simp [seeFrame, seeJob, seeRefused, pushes]
  | _ => exact ⟨rfl, rfl⟩

omit [DecidableEq τ] in
/-- **A step**: what is posted or called leaves a push to do, and what is pushed or refused was left
to do. -/
theorem count_step (a : α) (pJob : J) {shared : Shared τ α Empty J} {loc : Local α Empty J}
    {b : DelayedAct α Empty J}
    (h : DelayedStep cfg t s.shared (s.locals t) b shared loc) :
    (seeDelayed s (.thread t b)).count (.posted a pJob) +
        shared.mTimingWheel.timesCalled (.actor a, pJob) +
        Stacks.weigh (pushes a pJob) (s.locals t).frames =
      (seeDelayed s (.thread t b)).count (.job ⟨.pushed, a, pJob⟩) +
        (seeDelayed s (.thread t b)).count (.refused a pJob) +
        s.shared.mTimingWheel.timesCalled (.actor a, pJob) +
        Stacks.weigh (pushes a pJob) loc.frames := by
  cases h with
  | @call c m f hnot hcall =>
    obtain ⟨x, pJob', rfl, rfl, rfl⟩ | ⟨x, rfl, -, -, rfl, rfl⟩ := enter_cases hcall
    · obtain ⟨b, rfl⟩ := x.plain
      simp [seeDelayed, pushes, List.count_singleton]
      omega
    · simp [seeDelayed, pushes]
  | @frame f rest new m hnot hframes hstep =>
    obtain ⟨hpush, hposted⟩ := count_seeFrame a pJob s.shared.actors f
    rw [see_frame hnot hframes, hframes, hposted]
    simp only [Stacks.weigh_cons, Stacks.weigh_append, step_pushes hstep]
    omega
  | @timing w pc hjob hnext =>
    have htimes := HandledWheel.next_timesCalled hnext (.actor a, pJob)
    rw [see_timing hjob]
    obtain hnone | ⟨c, hone⟩ := s.shared.mTimingWheel.callbacks_cases (s.locals t).timing
    · rw [hnone, List.countP_nil] at htimes
      rw [hnone]
      simp only [List.count_nil, List.map_nil, List.nil_append]
      omega
    · have hpush : pushes a pJob (.pushJob c.1 c.2) = if c = (.actor a, pJob) then 1 else 0 := by
        simp only [pushes, Prod.ext_iff]
      rw [hone, List.countP_singleton] at htimes
      rw [hone]
      simp only [List.count_nil, List.map_cons, List.map_nil, List.singleton_append,
        Stacks.weigh_cons, hpush]
      simp only [decide_eq_true_eq] at htimes
      omega
  | enter hcan hb hcall hnext =>
    rw [see_enter hcall hnext]
    rfl

/-- **What was posted, or called by timers, was pushed or refused**, or is still to be pushed. -/
theorem DelayedSeen.pushes (h : DelayedSeen cfg tickInterval t0 l s) (a : α) (pJob : J) :
    ∃ n, s.Total (fun loc => Stacks.weigh (ActorScheduler.pushes a pJob) loc.frames) n ∧
      l.count (.posted a pJob) +
          s.shared.mTimingWheel.timesCalled (.actor a, pJob) =
        l.count (.job ⟨.pushed, a, pJob⟩) + l.count (.refused a pJob) + n := by
  refine Threads.observed (I := fun l s =>
    ∃ n, s.Total (fun loc => Stacks.weigh (ActorScheduler.pushes a pJob) loc.frames) n ∧
      l.count (.posted a pJob) +
          s.shared.mTimingWheel.timesCalled (.actor a, pJob) =
        l.count (.job ⟨.pushed, a, pJob⟩) + l.count (.refused a pJob) + n) ?_ ?_ ?_ h
  · rintro s ⟨hshared, hlocals⟩
    refine ⟨0, .zero fun t => ?_, ?_⟩
    · rw [hlocals t]
      rfl
    · rw [hshared]
      rfl
  · intro l s t b shared loc hI _ hact
    obtain ⟨n, htotal, hn⟩ := hI
    have hstep := count_step a pJob (actDelayed_step hact)
    have hle := htotal.le t
    refine ⟨n - Stacks.weigh (ActorScheduler.pushes a pJob) (s.locals t).frames +
      Stacks.weigh (ActorScheduler.pushes a pJob) loc.frames, htotal.set (by omega), ?_⟩
    simp only [List.count_append, Threads.set_shared]
    omega
  · intro l s ns shared hI _ hpass
    cases hpass
    rw [show seeDelayed s (.env ns) = [] from rfl, List.append_nil]
    exact hI

end Pushes

/-! ## Runs -/

section Run

variable [DecidableEq τ] [DecidableEq α] {cfg : ActorConfig α Empty} {tickInterval t0 : Nat}
  {s : DelayedState τ α J} {l : List (DelayedEvent α J)}

theorem JobsSeen.jobInv {p : Actors τ α J} {l : List (JobEvent α J)} (h : JobsSeen cfg l p)
    (a : α) : JobInv l p a := by
  refine Stacks.observed (I := fun l p => JobInv l p a) ?_ ?_ ?_ h
  · rintro ⟨shared, locals⟩ ⟨rfl, hidle⟩
    have hnone : ∀ pJob, ¬ Stacks.HasFrame (⟨initial, locals⟩ : Actors τ α J) (Frame.Runs a pJob) :=
      fun pJob => Stacks.HasFrame.not_of_idle hidle
    exact ⟨rfl, none, rfl, fun pJob => iff_of_false (hnone pJob) nofun⟩
  · intro l s t c m f _ hI _ hc
    rw [List.append_nil]
    exact hI.call hc
  · intro l s t _ m f rest new hr hI _ ht hs
    exact hI.next (flagInv_of_plain hr.reachableIf) ht hs

variable [DecidableEq J]

omit [DecidableEq τ] in
theorem count_pushed (l : List (DelayedEvent α J)) (a : α) (pJob : J) :
    (jobsOf .pushed a (l.filterMap DelayedEvent.job?)).count pJob =
      l.count (.job ⟨.pushed, a, pJob⟩) := by
  induction l with
  | nil => rfl
  | cons e l ih =>
    cases e with
    | posted | refused =>
      rw [List.filterMap_cons_none (f := DelayedEvent.job?) rfl, ih,
        List.count_cons_of_ne (by nofun)]
    | job e =>
      have hone : (jobsOf .pushed a [e]).count pJob =
          if DelayedEvent.job e == .job ⟨.pushed, a, pJob⟩ then 1 else 0 := by
        obtain ⟨k, b, pJob'⟩ := e
        rw [jobsOf_singleton]
        by_cases he : k = .pushed ∧ b = a
        · simp [he, List.count_singleton]
        · rw [if_neg he, List.count_nil, if_neg]
          simpa using fun hk hb => absurd ⟨hk, hb⟩ he
      rw [List.filterMap_cons_some (f := DelayedEvent.job?) rfl, ← List.singleton_append,
        jobsOf_append, List.count_append, ih, hone, List.count_cons, Nat.add_comm]

/-- **Delayed jobs run once.** The jobs of an actor run in the order of the pushes. Whatever threads
post, delay and cancel, a job runs no more often than it was posted, plus once for each `PostDelay`
of it without a delay or whose tick has been processed. When no thread has a frame or nodes to
execute, each of these, but for those that `Execute` found cancelled, has run, is in the queue, or
was refused by a full queue. -/
theorem delayed_conserved (h : DelayedSeen cfg tickInterval t0 l s) (a : α) (pJob : J) :
    jobsOf .executed a (l.filterMap DelayedEvent.job?) <+:
        jobsOf .pushed a (l.filterMap DelayedEvent.job?) ∧
    (jobsOf .executed a (l.filterMap DelayedEvent.job?)).count pJob ≤
      l.count (.posted a pJob) + (s.shared.mTimingWheel.due (.actor a, pJob)).length ∧
    ((∀ t, (s.locals t).frames = [] ∧ (s.locals t).timing.nodes = []) →
      l.count (.posted a pJob) +
          ((s.shared.mTimingWheel.due (.actor a, pJob)).filter
            fun f => f ∉ s.shared.mTimingWheel.skipped).length =
        (jobsOf .executed a (l.filterMap DelayedEvent.job?)).count pJob +
          (s.shared.actors.mJobQueue (.actor a)).count pJob + l.count (.refused a pJob)) ∧
    ∀ f ∈ s.shared.mTimingWheel.skipped, s.shared.mTimingWheel.cancelled f = true := by
  have hI : JobInv (l.filterMap DelayedEvent.job?) _ a := h.jobs.jobInv a
  have htimers := HandledWheel.reachable_inv (handledWheel_reachable h)
  obtain ⟨n, htotal, hn⟩ := h.pushes a pJob
  obtain ⟨r, hstarted, hruns⟩ := hI.started
  have hpushed := hI.pushed
  rw [hstarted, List.append_assoc] at hpushed
  have hcount := count_pushed l a pJob
  rw [hpushed, List.count_append, List.count_append] at hcount
  refine ⟨⟨_, hpushed.symm⟩, ?_, fun hrest => ?_, fun f hf => (htimers.skipped f hf).1⟩
  · have hcalled : s.shared.mTimingWheel.timesCalled (.actor a, pJob) ≤
        (s.shared.mTimingWheel.due (.actor a, pJob)).length := htimers.timesCalled_le _
    omega
  · have hcalled : s.shared.mTimingWheel.timesCalled (.actor a, pJob) =
        ((s.shared.mTimingWheel.due (.actor a, pJob)).filter
          fun f => f ∉ s.shared.mTimingWheel.skipped).length :=
      htimers.timesCalled_eq (fun t => (hrest t).2) _
    have hnone : r = none := by
      cases r with
      | none => rfl
      | some pJob' =>
        exact absurd ((hruns pJob').2 rfl) (Stacks.HasFrame.not_of_idle fun t => (hrest t).1)
    have hzero : n = 0 := htotal.eq_zero fun t => by rw [(hrest t).1]; rfl
    subst hnone hzero
    simp only [Option.toList_none, List.count_nil, Threads.part_shared] at hcount
    omega

/-- A thread posts job 7 with a delay and job 8 without, and 40 ms later another one ticks and
dispatches the actor. -/
def twoPosts : List (ThreadAction Bool (DelayedAct Unit Empty Nat) Nat) :=
  [.thread true (.postDelay (.actor ()) 7 16), .thread true .next,
    .thread true (.call (.post (.actor ()) 8))] ++ List.replicate 6 (.thread true .next) ++
  [.env 40000000, .thread false .tick] ++ List.replicate 17 (.thread false .next) ++
  .thread false (.call (.dispatch (.actor ()))) :: List.replicate 11 (.thread false .next)

/-- Both run, once, and 7 was asked for once. -/
theorem delayed_conserved_two : ∃ (l : List (DelayedEvent Unit Nat))
    (s : DelayedState Bool Unit Nat), DelayedSeen oneActor 16 0 l s ∧
    jobsOf .executed () (l.filterMap DelayedEvent.job?) = [8, 7] ∧
    (jobsOf .executed () (l.filterMap DelayedEvent.job?)).count 7 ≤
      l.count (.posted () 7) + (s.shared.mTimingWheel.due (.actor (), 7)).length := by
  let start : DelayedState Bool Unit Nat := ⟨⟨initial, .new _ 16 0⟩, fun _ => ⟨[], .ticking .idle⟩⟩
  obtain ⟨s, hs⟩ := Option.isSome_iff_exists.1
    (show ((delayedMachine oneActor 16 0).exec start twoPosts).isSome from by decide +kernel)
  have hrun : DelayedSeen oneActor 16 0 _ s := Machine.Observed.exec twoPosts
    (.init ⟨rfl, fun _ => rfl⟩) (Machine.allowed_of Threads.guard_true _ _) hs
  exact ⟨_, s, hrun, by decide +kernel, (delayed_conserved hrun () 7).2.1⟩

end Run

end ActorScheduler

end CppNetEngine
