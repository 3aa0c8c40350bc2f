import CppNetEngine.Lib.Stacks

/-!
# Actors and their scheduler

`JobDispatcher::Post`, `ActorScheduler::Schedule` and `ActorScheduler::Dispatch` over `Actor`s and
`ScopedActor`s, in any number of threads. Each statement that touches shared data is one step;
`Frame` says which one a thread comes to, and `step` what it does and where the thread goes from
there. A job may post again, so a thread has a stack of frames. `Dispatch`'s `Tick` posts the jobs
of timers: a post by a thread in no other call. `PostQueuedCompletionStatus` always succeeds.
-/

namespace CppNetEngine

/-- An `IActorRef`: a plain actor, or a scoped one. -/
inductive ActorRef (α ς : Type)
  | actor (a : α)
  | scopedActor (s : ς)
  deriving DecidableEq

/-- What the constructors and `SetSpinCount` set, and no call changes. -/
structure ActorConfig (α ς : Type) where
  /-- `ScopedActor::mActors`. -/
  mActors : ς → List α
  mSpinCount : ς → Int
  mExecuteJobCount : Int

/-- The memory that the threads share. -/
structure ActorMemory (τ α ς J : Type) where
  mJobQueue : ActorRef α ς → List J
  /-- `Actor::mbAcquire`, with the thread that set it. -/
  mbAcquire : α → Option τ
  mAcquireIndex : ς → Int
  /-- The owner of `mActorOverlapped` is not null. -/
  mpOwner : ActorRef α ς → Bool
  /-- The completions in the port. -/
  port : ActorRef α ς → Nat

namespace ActorScheduler

variable {τ α ς J : Type}

/-- `LockFreeQueue::DEFAULT_MAX_COUNT`. -/
def defaultMaxCount : Nat := 65535

/-- The statement that a thread comes to. -/
inductive Frame (α ς J : Type)
  /-- `JobDispatcher::Post`: `PushJob`. -/
  | pushJob (x : ActorRef α ς) (pJob : J)
  /-- `Register`: is there a job? -/
  | registerCount (x : ActorRef α ς)
  /-- `Schedule`: `SetOwner`. -/
  | scheduleSetOwner (x : ActorRef α ς)
  /-- `Schedule`: the exchange in `Actor::TryAcquire`. -/
  | scheduleTryAcquire (a : α)
  /-- `Schedule`: `PostQueuedCompletionStatus`. -/
  | schedulePost (x : ActorRef α ς)
  /-- `Schedule`: `Actor::Release`. -/
  | scheduleRelease (a : α)
  /-- `Dispatch`: `GetOwner` of the completion. -/
  | dispatchGetOwner (x : ActorRef α ς)
  /-- `Dispatch`: the exchange in `Actor::TryAcquire`. -/
  | dispatchTryAcquire (a : α)
  /-- `tryAcquireAll`: the exchange of member `i`. -/
  | memberTryAcquire (s : ς) (i curSpin : Nat)
  /-- `tryAcquireAll`: `mAcquireIndex = i`. -/
  | memberStoreIndex (s : ς) (i : Nat)
  /-- `tryAcquireAll`: `mAcquireIndex != i`; was the exchange before it successful? -/
  | memberLoadIndex (s : ς) (i : Nat) (acquired : Bool)
  /-- `Dispatch`: `GetJobCount`. -/
  | dispatchCount (x : ActorRef α ς)
  /-- `Dispatch`: `Execute`, `n` more times. -/
  | dispatchExecute (x : ActorRef α ς) (n : Nat)
  /-- `Execute`: the job runs. -/
  | running (x : ActorRef α ς) (pJob : J) (n : Nat)
  /-- `Dispatch`: `ClearActorOverlapped`. -/
  | dispatchClear (x : ActorRef α ς)
  /-- `Dispatch`: `Actor::Release`. -/
  | dispatchRelease (a : α)
  /-- `ScopedActor::Release`: `i = mAcquireIndex`. The thread's own exchanges were successful for
  the first `count` members; `Dispatch` goes on to `Register` if it was all. -/
  | releaseLoadIndex (s : ς) (count : Nat) (dispatched : Bool)
  /-- `ScopedActor::Release`: `Release` of member `i`. -/
  | releaseMember (s : ς) (i : Nat) (dispatched : Bool)
  /-- `ScopedActor::Release`: `mAcquireIndex = -1`. -/
  | releaseStoreIndex (s : ς) (dispatched : Bool)

/-- The memory, and what each thread has still to do. -/
abbrev State (τ α ς J : Type) := Threads τ (List (Frame α ς J)) (ActorMemory τ α ς J)

section Step

variable [DecidableEq α] [DecidableEq ς]

/-- `Actor::TryAcquire` by the thread `t`. -/
def tryAcquire (m : ActorMemory τ α ς J) (t : τ) (a : α) : ActorMemory τ α ς J × Bool :=
  if (m.mbAcquire a).isSome then (m, false)
  else ({ m with mbAcquire := Function.update m.mbAcquire a (some t) }, true)

omit [DecidableEq ς] in
theorem tryAcquire_cases (m : ActorMemory τ α ς J) (t : τ) (a : α) :
    ((m.mbAcquire a).isSome ∧ tryAcquire m t a = (m, false)) ∨
    (m.mbAcquire a = none ∧ tryAcquire m t a =
      ({ m with mbAcquire := Function.update m.mbAcquire a (some t) }, true)) := by
  cases h : m.mbAcquire a with
  | none => exact .inr ⟨rfl, by simp [tryAcquire, h]⟩
  | some u => exact .inl ⟨rfl, by simp [tryAcquire, h]⟩

/-- `Actor::Release`. -/
def release (m : ActorMemory τ α ς J) (a : α) : ActorMemory τ α ς J :=
  { m with mbAcquire := Function.update m.mbAcquire a none }

/-- The loop of `tryAcquireAll` at `i`: it is over, or spins on member `i`. -/
def acquireMember (cfg : ActorConfig α ς) (s : ς) (i : Nat) : Frame α ς J :=
  if i < (cfg.mActors s).length then
    if 0 < cfg.mSpinCount s then .memberTryAcquire s i 0 else .memberLoadIndex s i false
  else .dispatchCount (.scopedActor s)

/-- The statement of a thread, and what the thread comes to after it. `mActors[i]` outside the
vector has no result. -/
def step (cfg : ActorConfig α ς) (t : τ) (m : ActorMemory τ α ς J) :
    Frame α ς J → Option (ActorMemory τ α ς J × List (Frame α ς J))
  | .pushJob x pJob =>
    if defaultMaxCount ≤ (m.mJobQueue x).length then some (m, [])
    else
      some ({ m with mJobQueue := Function.update m.mJobQueue x (m.mJobQueue x ++ [pJob]) },
        [.registerCount x])
  | .registerCount x => some (m, if m.mJobQueue x = [] then [] else [.scheduleSetOwner x])
  | .scheduleSetOwner x =>
    some ({ m with mpOwner := Function.update m.mpOwner x true },
      match x with
      | .actor a => [.scheduleTryAcquire a]
      | .scopedActor _ => [.schedulePost x])
  | .scheduleTryAcquire a =>
    match tryAcquire m t a with
    | (m, true) => some (m, [.schedulePost (.actor a)])
    | (m, false) => some (m, [])
  | .schedulePost x =>
    some ({ m with port := Function.update m.port x (m.port x + 1) },
      match x with
      | .actor a => [.scheduleRelease a]
      | .scopedActor _ => [])
  | .scheduleRelease a => some (release m a, [])
  | .dispatchGetOwner x =>
    some (m, if m.mpOwner x then
      match x with
      | .actor a => [.dispatchTryAcquire a]
      | .scopedActor s => [acquireMember cfg s 0]
    else [])
  | .dispatchTryAcquire a =>
    match tryAcquire m t a with
    | (m, true) => some (m, [.dispatchCount (.actor a)])
    | (m, false) => some (m, [])
  | .memberTryAcquire s i curSpin =>
    (cfg.mActors s)[i]?.map fun a =>
      match tryAcquire m t a with
      | (m, true) => (m, [.memberStoreIndex s i])
      | (m, false) =>
        (m, [if (curSpin + 1 : Int) < cfg.mSpinCount s then .memberTryAcquire s i (curSpin + 1)
          else .memberLoadIndex s i false])
  | .memberStoreIndex s i =>
    some ({ m with mAcquireIndex := Function.update m.mAcquireIndex s i },
      [.memberLoadIndex s i true])
  | .memberLoadIndex s i acquired =>
    some (m, [if m.mAcquireIndex s = i then acquireMember cfg s (i + 1)
      else .releaseLoadIndex s (if acquired then i + 1 else i) false])
  | .dispatchCount x =>
    some (m, [.dispatchExecute x (min cfg.mExecuteJobCount (m.mJobQueue x).length).toNat])
  | .dispatchExecute x 0 => some (m, [.dispatchClear x])
  | .dispatchExecute x (n + 1) =>
    match m.mJobQueue x with
    | [] => some (m, [.dispatchExecute x n])
    | pJob :: rest =>
      some ({ m with mJobQueue := Function.update m.mJobQueue x rest }, [.running x pJob n])
  | .running x _ n => some (m, [.dispatchExecute x n])
  | .dispatchClear x =>
    some ({ m with mpOwner := Function.update m.mpOwner x false },
      match x with
      | .actor a => [.dispatchRelease a]
      | .scopedActor s => [.releaseLoadIndex s (cfg.mActors s).length true])
  | .dispatchRelease a => some (release m a, [.registerCount (.actor a)])
  | .releaseLoadIndex s _ dispatched =>
    some (m, [match m.mAcquireIndex s with
      | .ofNat i => .releaseMember s i dispatched
      | .negSucc _ => .releaseStoreIndex s dispatched])
  | .releaseMember s i dispatched =>
    (cfg.mActors s)[i]?.map fun a =>
      (release m a, [match i with
        | i + 1 => .releaseMember s i dispatched
        | 0 => .releaseStoreIndex s dispatched])
  | .releaseStoreIndex s dispatched =>
    some ({ m with mAcquireIndex := Function.update m.mAcquireIndex s (-1) },
      if dispatched then [.registerCount (.scopedActor s)] else [])

/-- What a thread calls. -/
inductive Call (α ς J : Type)
  | post (x : ActorRef α ς) (pJob : J)
  /-- `Dispatch`, which gets a completion of `x` from the port. -/
  | dispatch (x : ActorRef α ς)

/-- A thread that is in no call, or in a job, can post; one that is in no call can dispatch. -/
def enter : Call α ς J → ActorMemory τ α ς J → List (Frame α ς J) →
    Option (ActorMemory τ α ς J × Frame α ς J)
  | .post x pJob, m, [] => some (m, .pushJob x pJob)
  | .post x pJob, m, .running _ _ _ :: _ => some (m, .pushJob x pJob)
  | .dispatch x, m, [] =>
    if 0 < m.port x then
      some ({ m with port := Function.update m.port x (m.port x - 1) }, .dispatchGetOwner x)
    else none
  | _, _, _ => none

theorem enter_cases {c : Call α ς J} {m m' : ActorMemory τ α ς J} {fs : List (Frame α ς J)}
    {f : Frame α ς J} (h : enter c m fs = some (m', f)) :
    (∃ x pJob, c = .post x pJob ∧ m' = m ∧ f = .pushJob x pJob) ∨
    ∃ x, c = .dispatch x ∧ fs = [] ∧ 0 < m.port x ∧
      m' = { m with port := Function.update m.port x (m.port x - 1) } ∧
      f = .dispatchGetOwner x := by
  cases c with
  | post x pJob =>
    refine .inl ⟨x, pJob, rfl, ?_⟩
    unfold enter at h
    split at h <;> simp_all
  | dispatch x =>
    refine .inr ⟨x, rfl, ?_⟩
    cases fs with
    | nil =>
      simp only [enter] at h
      split at h <;> rename_i hport <;> cases h
      exact ⟨rfl, hport, rfl, rfl⟩
    | cons g rest => simp [enter] at h

/-- Actors as their constructors leave them. -/
def initial : ActorMemory τ α ς J :=
  { mJobQueue := fun _ => []
    mbAcquire := fun _ => none
    mAcquireIndex := fun _ => -1
    mpOwner := fun _ => false
    port := fun _ => 0 }

/-- Threads that post to actors and dispatch them. -/
abbrev machine [DecidableEq τ] (cfg : ActorConfig α ς) :
    Machine (State τ α ς J) (ThreadAction τ (StackAction (Call α ς J) Unit) Empty) :=
  Stacks.machine enter (fun t _ m f => step cfg t m f) fun p =>
    p.shared = initial ∧ ∀ t, p.locals t = []

/-- The states of the runs in which every action meets `ok`. -/
abbrev RunsTo [DecidableEq τ] (cfg : ActorConfig α ς)
    (ok : State τ α ς J → τ → StackAction (Call α ς J) Unit → Prop) : State τ α ς J → Prop :=
  (machine cfg).ReachableIf (Threads.Guard ok fun _ _ => True)

/-- `step`, where the acquire, post and release of `Schedule` are one step, and `ScopedActor`'s
`TryAcquire` is right: each thread goes by the members that it acquired itself. -/
def atomicStep (cfg : ActorConfig α ς) (t : τ) (m : ActorMemory τ α ς J) :
    Frame α ς J → Option (ActorMemory τ α ς J × List (Frame α ς J))
  | .scheduleTryAcquire a =>
    match tryAcquire m t a with
    | (m, true) =>
      some (release { m with port := Function.update m.port (.actor a) (m.port (.actor a) + 1) } a,
        [])
    | (m, false) => some (m, [])
  | .memberLoadIndex s i acquired =>
    some (m, [if acquired then acquireMember cfg s (i + 1) else .releaseLoadIndex s i false])
  | .releaseLoadIndex s count dispatched =>
    some (m, [match count with
      | i + 1 => .releaseMember s i dispatched
      | 0 => .releaseStoreIndex s dispatched])
  | f => step cfg t m f

/-- The states of the runs with `atomicStep` in which every action meets `ok`. -/
abbrev AtomicRunsTo [DecidableEq τ] (cfg : ActorConfig α ς)
    (ok : State τ α ς J → τ → StackAction (Call α ς J) Unit → Prop) : State τ α ς J → Prop :=
  Stacks.RunsTo enter (fun t (_ : Unit) m f => atomicStep cfg t m f)
    (fun p => p.shared = initial ∧ ∀ t, p.locals t = []) ok

end Step

end ActorScheduler

end CppNetEngine
