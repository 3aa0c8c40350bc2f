import CppNetEngine.Actor.Proof.Exclusion

/-!
# Jobs around a scoped actor

With an atomic acquire, post and release in `Schedule` and a right `TryAcquire`, an actor's jobs
still need a thread that comes back to the queue (`Frame.Wakes`) when there is no completion in the
port. The one that dispatches an actor does, through `Register`; a scoped actor that holds a member
does not, and neither does anybody for a scoped actor whose member is busy. `scheduled`: no job is
stranded in the runs in which `TryAcquire` only fails while another thread will come back.
`not_scheduled`: a post to a member that a scoped actor holds.
-/

namespace CppNetEngine

namespace ActorScheduler

variable {τ α ς J : Type}

/-- In a state in which no thread is in a call, an actor with jobs has a completion in the port. -/
def Scheduled (p : State τ α ς J) : Prop :=
  (∀ t, p.locals t = []) → ∀ x, p.shared.mJobQueue x ≠ [] → 0 < p.shared.port x

namespace Frame

/-- The thread will set the owner of `x` again, if there are jobs. -/
@[simp] def WillOwn (x : ActorRef α ς) : Frame α ς J → Prop
  | .registerCount y | .scheduleSetOwner y => y = x
  | .dispatchRelease a => .actor a = x
  | .releaseLoadIndex s _ dispatched | .releaseMember s _ dispatched
  | .releaseStoreIndex s dispatched => dispatched = true ∧ .scopedActor s = x
  | _ => False

/-- The thread will look at the queue of `x` again or post a completion, unless it gives up. -/
@[simp] def WillWake (x : ActorRef α ς) : Frame α ς J → Prop
  | .registerCount y | .scheduleSetOwner y | .schedulePost y | .dispatchGetOwner y
  | .dispatchCount y | .dispatchExecute y _ | .running y _ _ | .dispatchClear y => y = x
  | .scheduleTryAcquire a | .dispatchTryAcquire a | .dispatchRelease a => .actor a = x
  | .memberTryAcquire s _ _ | .memberStoreIndex s _ | .memberLoadIndex s _ _ => .scopedActor s = x
  | .releaseLoadIndex s _ dispatched | .releaseMember s _ dispatched
  | .releaseStoreIndex s dispatched => dispatched = true ∧ .scopedActor s = x
  | .pushJob _ _ | .scheduleRelease _ => False

/-- The step in which `TryAcquire` of `x` fails. -/
@[simp] def Fails (m : ActorMemory τ α ς J) (x : ActorRef α ς) : Frame α ς J → Prop
  | .scheduleTryAcquire a | .dispatchTryAcquire a => (m.mbAcquire a).isSome ∧ .actor a = x
  | .memberLoadIndex s _ acquired => acquired = false ∧ .scopedActor s = x
  | _ => False

theorem WillOwn.willWake {x : ActorRef α ς} {f : Frame α ς J} (h : f.WillOwn x) : f.WillWake x := by
  cases f <;> first | exact h | exact h.elim

end Frame

/-- `TryAcquire` of an actor with jobs and without a completion in the port only fails while
another call will look at the queue again or post a completion. -/
def FailsWatched [DecidableEq τ] (p : State τ α ς J) (t : τ)
    (_ : StackAction (Call α ς J) Unit) : Prop :=
  ∀ f rest x, p.locals t = f :: rest → f.Fails p.shared x → p.shared.mJobQueue x ≠ [] →
    p.shared.port x = 0 → Stacks.HasFrame (p.set t p.shared rest) (Frame.WillWake x)

/-! ## The invariant -/

structure ScheduleInv (p : State τ α ς J) : Prop where
  owner : ∀ x, p.shared.mpOwner x = false ∧ p.shared.mJobQueue x ≠ [] →
    Stacks.HasFrame p (Frame.WillOwn x)
  wakeup : ∀ x, p.shared.mJobQueue x ≠ [] ∧ p.shared.port x = 0 →
    Stacks.HasFrame p (Frame.WillWake x)

/-! ## Steps -/

section Steps

variable [DecidableEq α] [DecidableEq ς] {cfg : ActorConfig α ς} {t : τ}
  {m m' : ActorMemory τ α ς J} {f : Frame α ς J} {new : List (Frame α ς J)}

/-- The thread gives up on `x`. -/
def GivesUpOn (m : ActorMemory τ α ς J) (x : ActorRef α ς) (f : Frame α ς J) : Prop :=
  f.Fails m x ∨ (f = .dispatchGetOwner x ∧ m.mpOwner x = false)

/-- What a step leaves behind: the statements that the owner and the queue of `x` need after it are
new ones, or were needed before and did not take the step. -/
structure Schedules (x : ActorRef α ς) (m : ActorMemory τ α ς J) (f : Frame α ς J)
    (m' : ActorMemory τ α ς J) (new : List (Frame α ς J)) : Prop where
  owner : m'.mpOwner x = false ∧ m'.mJobQueue x ≠ [] →
    (∃ g ∈ new, g.WillOwn x) ∨ ((m.mpOwner x = false ∧ m.mJobQueue x ≠ []) ∧ ¬ f.WillOwn x)
  wakeup : ¬ GivesUpOn m x f → m'.mJobQueue x ≠ [] ∧ m'.port x = 0 →
    (∃ g ∈ new, g.WillWake x) ∨ ((m.mJobQueue x ≠ [] ∧ m.port x = 0) ∧ ¬ f.WillWake x)

omit [DecidableEq α] [DecidableEq ς] in
/-- A statement that leaves the memory of `x`: it passes on what it was to do for `x`. -/
theorem Schedules.of_same {x : ActorRef α ς} (howner : m'.mpOwner x = m.mpOwner x)
    (hqueue : m'.mJobQueue x = m.mJobQueue x) (hport : m'.port x = m.port x)
    (hown : f.WillOwn x → m.mJobQueue x ≠ [] → ∃ g ∈ new, g.WillOwn x)
    (hwake : f.WillWake x → m.mJobQueue x ≠ [] → ¬ GivesUpOn m x f → ∃ g ∈ new, g.WillWake x) :
    Schedules x m f m' new where
  owner hA := by
    rw [howner, hqueue] at hA
    by_cases hf : f.WillOwn x
    · exact .inl (hown hf hA.2)
    · exact .inr ⟨hA, hf⟩
  wakeup hup hA := by
    rw [hport, hqueue] at hA
    by_cases hf : f.WillWake x
    · exact .inl (hwake hf hA.1 hup)
    · exact .inr ⟨hA, hf⟩

omit [DecidableEq α] [DecidableEq ς] in
/-- A statement that leaves the memory of `x`, and becomes one that does for `x` what it was to do. -/
theorem Schedules.becomes {x : ActorRef α ς} {f' : Frame α ς J}
    (howner : m'.mpOwner x = m.mpOwner x) (hqueue : m'.mJobQueue x = m.mJobQueue x)
    (hport : m'.port x = m.port x) (hown : f.WillOwn x → f'.WillOwn x)
    (hwake : f.WillWake x → f'.WillWake x) : Schedules x m f m' [f'] :=
  .of_same howner hqueue hport (fun hf _ => ⟨f', List.mem_singleton_self _, hown hf⟩)
    (fun hf _ _ => ⟨f', List.mem_singleton_self _, hwake hf⟩)

omit [DecidableEq α] [DecidableEq ς] in
theorem willWake_acquireMember (s : ς) (i : Nat) :
    (acquireMember cfg s i : Frame α ς J).WillWake (.scopedActor s) := by
  unfold acquireMember
  split
  · split <;> rfl
  · rfl

theorem atomicStep_schedules (x : ActorRef α ς) (h : atomicStep cfg t m f = some (m', new)) :
    Schedules x m f m' new := by
  cases f with
  | pushJob y pJob =>
    simp only [atomicStep, step] at h
    split at h <;> cases h
    · exact .of_same rfl rfl rfl (fun h => h.elim) (fun h => h.elim)
    · by_cases hy : y = x
      · constructor <;> simp [hy]
      · exact .of_same rfl (Function.update_of_ne (Ne.symm hy) _ _) rfl (fun h => h.elim)
          (fun h => h.elim)
  | registerCount y =>
    simp only [atomicStep, step] at h
    split at h <;> rename_i hqueue <;> cases h
    · refine .of_same rfl rfl rfl (fun hy hjobs => ?_) (fun hy hjobs _ => ?_) <;> cases hy <;>
        exact absurd hqueue hjobs
    · exact .becomes rfl rfl rfl id id
  | scheduleSetOwner y =>
    cases h
    by_cases hy : y = x
    · subst hy
      cases y <;> constructor <;> simp
    · exact .of_same (Function.update_of_ne (Ne.symm hy) _ _) rfl rfl (fun h => absurd h hy)
        (fun h => absurd h hy)
  | scheduleTryAcquire a =>
    rcases tryAcquire_cases m t a with ⟨hset, htry⟩ | ⟨-, htry⟩ <;>
      simp only [atomicStep, htry] at h <;> cases h
    · exact .of_same rfl rfl rfl (fun h => h.elim)
        (fun ha _ hup => absurd (.inl ⟨hset, ha⟩) hup)
    · by_cases ha : .actor a = x
      · cases ha
        constructor <;> simp [release]
      · exact .of_same rfl rfl (Function.update_of_ne (Ne.symm ha) _ _) (fun h => h.elim)
          (fun h => absurd h ha)
  | schedulePost y =>
    cases h
    by_cases hy : y = x
    · subst hy
      cases y <;> constructor <;> simp
    · exact .of_same rfl rfl (Function.update_of_ne (Ne.symm hy) _ _) (fun h => h.elim)
        (fun h => absurd h hy)
  | scheduleRelease a =>
    cases h
    exact .of_same rfl rfl rfl (fun h => h.elim) (fun h => h.elim)
  | dispatchGetOwner y =>
    cases h
    refine .of_same rfl rfl rfl (fun h => h.elim) (fun hy _ hup => ?_)
    subst hy
    cases howner : m.mpOwner y with
    | false => exact absurd (.inr ⟨rfl, howner⟩) hup
    | true =>
      cases y with
      | actor a => exact ⟨_, List.mem_singleton_self _, rfl⟩
      | scopedActor s => exact ⟨_, List.mem_singleton_self _, willWake_acquireMember s 0⟩
  | dispatchTryAcquire a =>
    rcases tryAcquire_cases m t a with ⟨hset, htry⟩ | ⟨-, htry⟩ <;>
      simp only [atomicStep, step, htry] at h <;> cases h
    · exact .of_same rfl rfl rfl (fun h => h.elim) (fun ha _ hup => absurd (.inl ⟨hset, ha⟩) hup)
    · exact .becomes rfl rfl rfl (fun h => h.elim) id
  | memberTryAcquire s i curSpin =>
    obtain ⟨a, -, hr⟩ := Option.map_eq_some_iff.1 h
    rcases tryAcquire_cases m t a with ⟨-, htry⟩ | ⟨-, htry⟩ <;> simp only [htry] at hr <;>
      cases hr
    · refine .becomes rfl rfl rfl (fun h => h.elim) (fun hs => ?_)
      split <;> exact hs
    · exact .becomes rfl rfl rfl (fun h => h.elim) id
  | memberStoreIndex s i =>
    cases h
    exact .becomes rfl rfl rfl (fun h => h.elim) id
  | memberLoadIndex s i acquired =>
    cases h
    refine .of_same rfl rfl rfl (fun h => h.elim) (fun hs _ hup => ?_)
    cases hs
    cases acquired with
    | false => exact absurd (.inl ⟨rfl, rfl⟩) hup
    | true => exact ⟨_, List.mem_singleton_self _, willWake_acquireMember s (i + 1)⟩
  | dispatchCount y | running y pJob n =>
    cases h
    exact .becomes rfl rfl rfl (fun h => h.elim) id
  | dispatchExecute y n =>
    cases n with
    | zero =>
      cases h
      exact .becomes rfl rfl rfl (fun h => h.elim) id
    | succ n =>
      simp only [atomicStep, step] at h
      split at h <;> rename_i hqueue <;> cases h
      · exact .becomes rfl rfl rfl (fun h => h.elim) id
      · by_cases hy : y = x
        · subst hy
          constructor <;> simp +contextual [hqueue]
        · exact .of_same rfl (Function.update_of_ne (Ne.symm hy) _ _) rfl (fun h => h.elim)
            (fun h => absurd h hy)
  | dispatchClear y =>
    cases h
    by_cases hy : y = x
    · subst hy
      cases y <;> constructor <;> simp
    · exact .of_same (Function.update_of_ne (Ne.symm hy) _ _) rfl rfl (fun h => h.elim)
        (fun h => absurd h hy)
  | dispatchRelease a =>
    cases h
    exact .becomes rfl rfl rfl id id
  | releaseLoadIndex s count dispatched =>
    cases h
    refine .becomes rfl rfl rfl (fun hs => ?_) (fun hs => ?_) <;> split <;> exact hs
  | releaseMember s i dispatched =>
    obtain ⟨a, -, hr⟩ := Option.map_eq_some_iff.1 h
    cases hr
    refine .becomes rfl rfl rfl (fun hs => ?_) (fun hs => ?_) <;> split <;> exact hs
  | releaseStoreIndex s dispatched =>
    cases h
    refine .of_same rfl rfl rfl ?_ ?_ <;> rintro ⟨rfl, hs⟩ <;> simp [hs]

/-- A thread that gives up leaves the queue and the port as they were. -/
theorem atomicStep_givesUp {x : ActorRef α ς} (hf : GivesUpOn m x f)
    (h : atomicStep cfg t m f = some (m', new)) : m' = m := by
  rcases hf with hfails | ⟨rfl, howner⟩
  · cases f with
    | scheduleTryAcquire a | dispatchTryAcquire a =>
      simp only [atomicStep, step, tryAcquire, hfails.1, if_true] at h
      cases h
      rfl
    | memberLoadIndex s i acquired =>
      cases h
      rfl
    | _ => exact hfails.elim
  · cases h
    rfl

end Steps

/-! ## Runs -/

section Run

variable [DecidableEq τ] [DecidableEq α] [DecidableEq ς] {cfg : ActorConfig α ς}
  {p : State τ α ς J} {t : τ}

theorem ScheduleInv.call (hI : ScheduleInv p) {c : Call α ς J} {m : ActorMemory τ α ς J}
    {f : Frame α ς J} (h : enter c p.shared (p.locals t) = some (m, f)) :
    ScheduleInv (p.set t m (f :: p.locals t)) := by
  obtain ⟨x, pJob, -, rfl, rfl⟩ | ⟨y, -, -, -, rfl, rfl⟩ := enter_cases h
  · exact ⟨fun x => .of_call (hI.owner x) .inr, fun x => .of_call (hI.wakeup x) .inr⟩
  · refine ⟨fun x => .of_call (hI.owner x) .inr, fun x => .of_call (hI.wakeup x) ?_⟩
    by_cases hy : y = x
    · exact fun _ => .inl hy
    · simp only [Threads.set_shared]
      rw [Function.update_of_ne (Ne.symm hy)]
      exact .inr

theorem ScheduleInv.next (hI : ScheduleInv p) (hok : FailsWatched p t (.next ()))
    {f : Frame α ς J} {rest new : List (Frame α ς J)} (ht : p.locals t = f :: rest)
    {m : ActorMemory τ α ς J} (h : atomicStep cfg t p.shared f = some (m, new)) :
    ScheduleInv (p.set t m (new ++ rest)) := by
  refine ⟨fun x => .of_step (hI.owner x) ht (atomicStep_schedules x h).owner, fun x hA => ?_⟩
  by_cases hup : GivesUpOn p.shared x f
  · rw [Threads.set_shared, atomicStep_givesUp hup h] at hA
    rcases hup with hfails | ⟨rfl, howner⟩
    · -- another call comes back to the queue
      exact (hok f rest x ht hfails hA.1 hA.2).prepend
    · -- the thread that cleared the owner comes back to the queue
      have hown : Stacks.HasFrame (p.set t m (new ++ rest)) (Frame.WillOwn x) :=
        ((hI.owner x ⟨howner, hA.1⟩).next ht).resolve_left id
      exact hown.imp fun g hg => hg.willWake
  · exact .of_step (hI.wakeup x) ht ((atomicStep_schedules x h).wakeup hup) hA

/-- **No job is stranded** in the runs in which `TryAcquire` only fails while another call comes
back to the queue. -/
theorem scheduled (h : AtomicRunsTo cfg FailsWatched p) : Scheduled p := by
  have hI : ScheduleInv p := by
    refine Stacks.invariant (I := ScheduleInv) ?_ (fun s t c m f hI _ => hI.call)
      (fun s t _ m f rest new hI hok ht => hI.next hok ht) h
    rintro ⟨shared, locals⟩ ⟨rfl, -⟩
    exact ⟨fun x hA => absurd rfl hA.2, fun x hA => absurd rfl hA.1⟩
  intro hidle x hqueue
  refine Nat.pos_of_ne_zero fun hport => ?_
  exact Stacks.HasFrame.not_of_idle hidle (hI.wakeup x ⟨hqueue, hport⟩)

end Run

/-! ## A scoped actor and its member -/

/-- A scoped actor is posted to and dispatched a second time while another thread has its member:
the dispatch fails, and the other thread schedules the actor again. -/
theorem scheduled_scoped : ∃ p : State Bool Unit Unit Nat, (∀ t, p.locals t = []) ∧
    p.shared.mJobQueue (.scopedActor ()) = [8] ∧ 0 < p.shared.port (.scopedActor ()) := by
  have hrun : AtomicRunsTo oneMember FailsWatched _ :=
    Machine.ReachableIf.exec
      (.thread false (.call (.post (.scopedActor ()) 7)) ::
        List.replicate 4 (.thread false (.next ())) ++
        .thread false (.call (.dispatch (.scopedActor ()))) ::
        List.replicate 5 (.thread false (.next ())) ++
        .thread true (.call (.post (.scopedActor ()) 8)) ::
        List.replicate 4 (.thread true (.next ())) ++
        .thread true (.call (.dispatch (.scopedActor ()))) ::
        List.replicate 5 (.thread true (.next ())) ++
        List.replicate 10 (.thread false (.next ())))
      (.init (s := ⟨initial, fun _ : Bool => []⟩) ⟨rfl, fun _ => rfl⟩) ?_ rfl
  · refine ⟨_, ?_, rfl, scheduled hrun ?_ (.scopedActor ()) (List.cons_ne_nil _ _)⟩ <;> intro t <;>
      cases t <;> rfl
  · repeat' refine And.intro ?_ ?_
    any_goals exact trivial
    all_goals rintro f rest x ⟨⟩ hfails hqueue hport
    all_goals first
      | exact False.elim hfails
      | exact Bool.noConfusion hfails.1
      | exact ⟨false, _, List.mem_cons_self, hfails.2⟩

/-- A post to the member that a scoped actor holds. -/
theorem not_scheduled : ∃ p : State Bool Unit Unit Unit,
    AtomicRunsTo oneMember (fun _ _ _ => True) p ∧ ¬ Scheduled p := by
  have hrun : AtomicRunsTo oneMember (fun _ _ _ => True) _ :=
    Machine.ReachableIf.exec
      [.thread false (.call (.post (.scopedActor ()) ())), .thread false (.next ()),
        .thread false (.next ()), .thread false (.next ()), .thread false (.next ()),
        .thread false (.call (.dispatch (.scopedActor ()))), .thread false (.next ()),
        .thread false (.next ()), .thread false (.next ()), .thread false (.next ()),
        .thread false (.next ()), .thread false (.next ()),
        .thread true (.call (.post (.actor ()) ())), .thread true (.next ()),
        .thread true (.next ()), .thread true (.next ()), .thread true (.next ()),
        .thread false (.next ()), .thread false (.next ()), .thread false (.next ()),
        .thread false (.next ()), .thread false (.next ()), .thread false (.next ()),
        .thread false (.next ())]
      (.init (s := ⟨initial, fun _ : Bool => []⟩) ⟨rfl, fun _ => rfl⟩)
      (Machine.allowed_of Threads.guard_true _ _) rfl
  refine ⟨_, hrun, fun h => ?_⟩
  have hport := h (by intro t; cases t <;> rfl) (.actor ()) (List.cons_ne_nil _ _)
  exact absurd hport (by decide)

end ActorScheduler

end CppNetEngine
