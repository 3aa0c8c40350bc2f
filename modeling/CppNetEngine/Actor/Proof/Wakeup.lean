import CppNetEngine.Actor.Scheduler

/-!
# No job of an actor is stranded

A job in an actor's queue needs a completion in the port, or a thread that will still look at the
queue, post a completion or run `Dispatch` to its end (`Frame.Wakes`). A thread that gives up,
because `TryAcquire` fails or the completion has no owner, relies on another: on the one that set
the flag (`Frame.Holds`), or on the one that cleared the owner (`Frame.Resets`). The holder of the
flag fails it only in `Schedule`, between `PostQueuedCompletionStatus` and `Release`.
`noneStranded` is about the runs in which no `TryAcquire` fails then with nothing in the port;
`not_noneStranded` is one in which one does.
-/

namespace CppNetEngine

theorem ActorRef.plain {α : Type} (x : ActorRef α Empty) : ∃ a, x = .actor a := by
  cases x with
  | actor a => exact ⟨a, rfl⟩
  | scopedActor s => exact s.elim

namespace ActorScheduler

variable {τ α J : Type}

/-- Plain actors, and the threads in their scheduler. -/
abbrev Actors (τ α J : Type) := State τ α Empty J

/-- In a state in which no thread is in a call, an actor with jobs has a completion in the port. -/
def NoneStranded (p : Actors τ α J) : Prop :=
  (∀ t, p.locals t = []) → ∀ a, p.shared.mJobQueue (.actor a) ≠ [] → 0 < p.shared.port (.actor a)

namespace Frame

/-- The actor a statement is about. -/
@[simp] def about : Frame α Empty J → α
  | .pushJob (.actor a) _ | .registerCount (.actor a) | .scheduleSetOwner (.actor a)
  | .scheduleTryAcquire a | .schedulePost (.actor a) | .scheduleRelease a
  | .dispatchGetOwner (.actor a) | .dispatchTryAcquire a | .dispatchCount (.actor a)
  | .dispatchExecute (.actor a) _ | .running (.actor a) _ _ | .dispatchClear (.actor a)
  | .dispatchRelease a => a

/-- The exchange in `TryAcquire`. -/
@[simp] def Tries : Frame α Empty J → Prop
  | .scheduleTryAcquire _ | .dispatchTryAcquire _ => True
  | _ => False

/-- The thread has set the flag. -/
@[simp] def Holds : Frame α Empty J → Prop
  | .schedulePost _ | .scheduleRelease _ | .dispatchCount _ | .dispatchExecute _ _
  | .running _ _ _ | .dispatchClear _ | .dispatchRelease _ => True
  | _ => False

/-- The thread will set the owner again, if there are jobs. -/
@[simp] def Resets : Frame α Empty J → Prop
  | .registerCount _ | .scheduleSetOwner _ | .dispatchRelease _ => True
  | _ => False

/-- The thread will look at the queue again or post a completion, unless it gives up. -/
@[simp] def Wakes : Frame α Empty J → Prop
  | .pushJob _ _ | .scheduleRelease _ => False
  | _ => True

theorem Resets.wakes {f : Frame α Empty J} (h : f.Resets) : f.Wakes := by
  cases f <;> trivial

theorem Holds.wakes {f : Frame α Empty J} (h : f.Holds) (hf : f ≠ .scheduleRelease f.about) :
    f.Wakes := by
  cases f with
  | scheduleRelease a => exact hf rfl
  | pushJob x pJob => exact h
  | _ => trivial

end Frame

/-- Some thread is at a statement about `a` with `P`. -/
abbrev AtSome (p : Actors τ α J) (a : α) (P : Frame α Empty J → Prop) : Prop :=
  Stacks.HasFrame p fun f => f.about = a ∧ P f

/-- A `TryAcquire` that fails on an actor with jobs and without a completion in the port does not
do so while a thread is between `PostQueuedCompletionStatus` and `Release` for the actor. -/
def NoLateFailure (p : Actors τ α J) (t : τ) (_ : StackAction (Call α Empty J) Unit) : Prop :=
  ∀ f ∈ (p.locals t).head?, f.Tries → (p.shared.mbAcquire f.about).isSome →
    p.shared.mJobQueue (.actor f.about) ≠ [] → p.shared.port (.actor f.about) = 0 →
    ¬ Stacks.HasFrame p (· = .scheduleRelease f.about)

/-! ## The invariant -/

structure WakeInv (p : Actors τ α J) : Prop where
  flag : ∀ a, (p.shared.mbAcquire a).isSome → AtSome p a Frame.Holds
  owner : ∀ a, p.shared.mpOwner (.actor a) = false ∧ p.shared.mJobQueue (.actor a) ≠ [] →
    AtSome p a Frame.Resets
  wakeup : ∀ a, p.shared.mJobQueue (.actor a) ≠ [] ∧ p.shared.port (.actor a) = 0 →
    AtSome p a Frame.Wakes

/-! ## Steps -/

section Steps

variable [DecidableEq α] {cfg : ActorConfig α Empty} {t : τ} {m m' : ActorMemory τ α Empty J}
  {f : Frame α Empty J} {new : List (Frame α Empty J)}

/-- The memory of `a` is the same. -/
structure SameAt (a : α) (m m' : ActorMemory τ α Empty J) : Prop where
  flag : m'.mbAcquire a = m.mbAcquire a
  owner : m'.mpOwner (.actor a) = m.mpOwner (.actor a)
  queue : m'.mJobQueue (.actor a) = m.mJobQueue (.actor a)
  port : m'.port (.actor a) = m.port (.actor a)

theorem step_same {a : α} (ha : f.about ≠ a) (h : step cfg t m f = some (m', new)) :
    SameAt a m m' := by
  cases f with
  | pushJob x pJob =>
    obtain ⟨b, rfl⟩ := x.plain
    simp only [step] at h
    split at h <;> cases h
    · exact ⟨rfl, rfl, rfl, rfl⟩
    · simp only [Frame.about] at ha
      constructor <;> simp [Ne.symm ha]
  | scheduleTryAcquire b | dispatchTryAcquire b =>
    simp only [Frame.about] at ha
    rcases tryAcquire_cases m t b with ⟨-, htry⟩ | ⟨-, htry⟩ <;> simp only [step, htry] at h <;>
      cases h
    · exact ⟨rfl, rfl, rfl, rfl⟩
    · constructor <;> simp [Ne.symm ha]
  | scheduleSetOwner x | schedulePost x | dispatchClear x =>
    obtain ⟨b, rfl⟩ := x.plain
    cases h
    simp only [Frame.about] at ha
    constructor <;> simp [Ne.symm ha]
  | scheduleRelease b | dispatchRelease b =>
    cases h
    simp only [Frame.about] at ha
    constructor <;> simp [release, Ne.symm ha]
  | registerCount x | dispatchGetOwner x | dispatchCount x | running x pJob n =>
    cases h
    exact ⟨rfl, rfl, rfl, rfl⟩
  | dispatchExecute x n =>
    obtain ⟨b, rfl⟩ := x.plain
    cases n with
    | zero =>
      cases h
      exact ⟨rfl, rfl, rfl, rfl⟩
    | succ n =>
      simp only [step] at h
      split at h <;> cases h
      · exact ⟨rfl, rfl, rfl, rfl⟩
      · simp only [Frame.about] at ha
        constructor <;> simp [Ne.symm ha]
  | memberTryAcquire s | memberStoreIndex s | memberLoadIndex s | releaseLoadIndex s
  | releaseMember s | releaseStoreIndex s => exact s.elim

/-- The thread gives up. -/
def GivesUp (m : ActorMemory τ α Empty J) (f : Frame α Empty J) : Prop :=
  (f.Tries ∧ (m.mbAcquire f.about).isSome) ∨
    (f = .dispatchGetOwner (.actor f.about) ∧ m.mpOwner (.actor f.about) = false)

theorem step_givesUp (hf : GivesUp m f) (h : step cfg t m f = some (m', new)) : m' = m := by
  rcases hf with ⟨htries, hset⟩ | ⟨hget, -⟩
  · cases f with
    | scheduleTryAcquire b | dispatchTryAcquire b =>
      simp only [Frame.about] at hset
      simp only [step, tryAcquire, hset, if_true] at h
      cases h
      rfl
    | _ => exact htries.elim
  · rw [hget] at h
    cases h
    rfl

/-- What a step leaves behind: the statements that the flag, the owner and the queue of `a` need
after it are new ones, or were needed before and did not take the step. -/
structure Keeps (a : α) (m : ActorMemory τ α Empty J) (f : Frame α Empty J)
    (m' : ActorMemory τ α Empty J) (new : List (Frame α Empty J)) : Prop where
  flag : (m'.mbAcquire a).isSome →
    (∃ g ∈ new, g.about = a ∧ g.Holds) ∨
      ((m.mbAcquire a).isSome ∧ ¬ (f.about = a ∧ f.Holds))
  owner : m'.mpOwner (.actor a) = false ∧ m'.mJobQueue (.actor a) ≠ [] →
    (∃ g ∈ new, g.about = a ∧ g.Resets) ∨
      ((m.mpOwner (.actor a) = false ∧ m.mJobQueue (.actor a) ≠ []) ∧
        ¬ (f.about = a ∧ f.Resets))
  wakeup : ¬ (f.about = a ∧ GivesUp m f) → m'.mJobQueue (.actor a) ≠ [] ∧ m'.port (.actor a) = 0 →
    (∃ g ∈ new, g.about = a ∧ g.Wakes) ∨
      ((m.mJobQueue (.actor a) ≠ [] ∧ m.port (.actor a) = 0) ∧ ¬ (f.about = a ∧ f.Wakes))

omit [DecidableEq α] in
theorem SameAt.keeps {a : α} (h : SameAt a m m') (ha : f.about ≠ a) : Keeps a m f m' new where
  flag hA := .inr ⟨h.flag ▸ hA, fun hf => ha hf.1⟩
  owner hA := .inr ⟨⟨h.owner ▸ hA.1, h.queue ▸ hA.2⟩, fun hf => ha hf.1⟩
  wakeup _ hA := .inr ⟨⟨h.queue ▸ hA.1, h.port ▸ hA.2⟩, fun hf => ha hf.1⟩

theorem step_keeps (a : α) (h : step cfg t m f = some (m', new)) : Keeps a m f m' new := by
  by_cases ha : f.about ≠ a
  · exact (step_same ha h).keeps ha
  obtain rfl := not_not.1 ha
  cases f with
  | pushJob x pJob =>
    obtain ⟨b, rfl⟩ := x.plain
    simp only [step] at h
    split at h <;> cases h <;> constructor <;> simp
  | registerCount x =>
    obtain ⟨b, rfl⟩ := x.plain
    simp only [step] at h
    split at h <;> rename_i hqueue <;> cases h <;> constructor <;> simp [hqueue]
  | scheduleTryAcquire b | dispatchTryAcquire b =>
    rcases tryAcquire_cases m t b with ⟨hset, htry⟩ | ⟨-, htry⟩ <;> simp only [step, htry] at h <;>
      cases h <;> constructor <;> simp [GivesUp, *]
  | dispatchGetOwner x =>
    obtain ⟨b, rfl⟩ := x.plain
    simp only [step] at h
    split at h <;> rename_i howner <;> cases h <;> constructor <;> simp [GivesUp, howner]
  | scheduleSetOwner x | schedulePost x | dispatchClear x | dispatchCount x | running x pJob n =>
    obtain ⟨b, rfl⟩ := x.plain
    cases h
    constructor <;> simp
  | scheduleRelease b | dispatchRelease b =>
    cases h
    constructor <;> simp [release]
  | dispatchExecute x n =>
    obtain ⟨b, rfl⟩ := x.plain
    cases n with
    | zero =>
      cases h
      constructor <;> simp
    | succ n =>
      simp only [step] at h
      split at h <;> rename_i hqueue <;> cases h <;> constructor <;> simp +contextual [hqueue]
  | memberTryAcquire s | memberStoreIndex s | memberLoadIndex s | releaseLoadIndex s
  | releaseMember s | releaseStoreIndex s => exact s.elim

end Steps

section Run

variable [DecidableEq τ] [DecidableEq α] {cfg : ActorConfig α Empty} {p : Actors τ α J} {t : τ}

theorem WakeInv.call (hI : WakeInv p) {c : Call α Empty J} {m : ActorMemory τ α Empty J}
    {f : Frame α Empty J} (h : enter c p.shared (p.locals t) = some (m, f)) :
    WakeInv (p.set t m (f :: p.locals t)) := by
  obtain ⟨x, pJob, -, rfl, rfl⟩ | ⟨x, -, -, -, rfl, rfl⟩ := enter_cases h
  · exact ⟨fun a => .of_call (hI.flag a) .inr, fun a => .of_call (hI.owner a) .inr,
      fun a => .of_call (hI.wakeup a) .inr⟩
  · obtain ⟨b, rfl⟩ := x.plain
    refine ⟨fun a => .of_call (hI.flag a) .inr, fun a => .of_call (hI.owner a) .inr,
      fun a => .of_call (hI.wakeup a) ?_⟩
    by_cases hb : b = a
    · exact fun _ => .inl ⟨hb, trivial⟩
    · simp only [Threads.set_shared]
      rw [Function.update_of_ne (by simpa using Ne.symm hb)]
      exact .inr

omit [DecidableEq τ] [DecidableEq α] in
/-- **A thread that gives up relies on another statement**, its own or another thread's. -/
theorem WakeInv.givesUp (hI : WakeInv p) {f : Frame α Empty J} {rest : List (Frame α Empty J)}
    (ht : p.locals t = f :: rest) (hok : NoLateFailure p t (.next ())) (hf : GivesUp p.shared f)
    (hqueue : p.shared.mJobQueue (.actor f.about) ≠ [])
    (hport : p.shared.port (.actor f.about) = 0) :
    AtSome p f.about fun g => g.Wakes ∧ g ≠ f := by
  rcases hf with ⟨htries, hset⟩ | ⟨hget, howner⟩
  · -- the flag is set, and not by a thread that only has `Release` left
    have hlate := (Stacks.forall_head ht).1 hok htries hset hqueue hport
    obtain ⟨u, g, hg, hga, hholds⟩ := hI.flag _ hset
    refine ⟨u, g, hg, hga, hholds.wakes fun he => hlate ⟨u, g, hg, hga ▸ he⟩, ?_⟩
    rintro rfl
    cases g <;> first | exact hholds | exact htries
  · obtain ⟨u, g, hg, hga, hresets⟩ := hI.owner _ ⟨howner, hqueue⟩
    refine ⟨u, g, hg, hga, hresets.wakes, ?_⟩
    rintro rfl
    rw [hget] at hresets
    exact hresets

theorem WakeInv.next (hI : WakeInv p) (hok : NoLateFailure p t (.next ())) {f : Frame α Empty J}
    {rest new : List (Frame α Empty J)} (ht : p.locals t = f :: rest)
    {m : ActorMemory τ α Empty J} (h : step cfg t p.shared f = some (m, new)) :
    WakeInv (p.set t m (new ++ rest)) := by
  refine ⟨fun a => .of_step (hI.flag a) ht (step_keeps a h).flag,
    fun a => .of_step (hI.owner a) ht (step_keeps a h).owner, fun a hA => ?_⟩
  by_cases hf : f.about = a ∧ GivesUp p.shared f
  · obtain ⟨rfl, hf⟩ := hf
    rw [Threads.set_shared, step_givesUp hf h] at hA
    have hother : AtSome (p.set t m (new ++ rest)) f.about fun g => g.Wakes ∧ g ≠ f :=
      ((hI.givesUp ht hok hf hA.1 hA.2).next ht).resolve_left fun hne => hne.2.2 rfl
    exact hother.imp fun g hg => ⟨hg.1, hg.2.1⟩
  · exact .of_step (hI.wakeup a) ht ((step_keeps a h).wakeup hf) hA

/-- **No job is stranded** in the runs in which no `TryAcquire` fails late. -/
theorem noneStranded (h : RunsTo cfg NoLateFailure p) : NoneStranded p := by
  have hI : WakeInv p := by
    refine Stacks.invariant (I := WakeInv) ?_ (fun s t c m f hI _ => hI.call)
      (fun s t _ m f rest new hI hok ht => hI.next hok ht) h
    rintro ⟨shared, locals⟩ ⟨rfl, -⟩
    exact ⟨fun a hA => (nomatch hA), fun a hA => absurd rfl hA.2, fun a hA => absurd rfl hA.1⟩
  intro hidle a hqueue
  refine Nat.pos_of_ne_zero fun hport => ?_
  exact Stacks.HasFrame.not_of_idle hidle (hI.wakeup a ⟨hqueue, hport⟩)

end Run

/-! ## One actor -/

/-- The default `mExecuteJobCount`. -/
def oneActor : ActorConfig Unit Empty :=
  { mActors := fun s => s.elim, mSpinCount := fun s => s.elim, mExecuteJobCount := 50 }

/-- A job that is posted while another thread dispatches the actor: the post finds the flag set, and
the other thread schedules the actor again. -/
theorem noneStranded_two :
    ∃ p : Actors Bool Unit Nat, (∀ t, p.locals t = []) ∧ p.shared.mJobQueue (.actor ()) = [8] ∧
      0 < p.shared.port (.actor ()) := by
  have hrun : RunsTo oneActor NoLateFailure _ :=
    Machine.ReachableIf.exec
      (.thread false (.call (.post (.actor ()) 7)) :: List.replicate 6 (.thread false (.next ())) ++
        .thread true (.call (.dispatch (.actor ()))) :: List.replicate 3 (.thread true (.next ())) ++
        .thread false (.call (.post (.actor ()) 8)) :: List.replicate 4 (.thread false (.next ())) ++
        List.replicate 10 (.thread true (.next ())))
      (.init (s := ⟨initial, fun _ : Bool => []⟩) ⟨rfl, fun _ => rfl⟩) ?_ rfl
  · refine ⟨_, ?_, rfl, noneStranded hrun ?_ () (List.cons_ne_nil _ _)⟩ <;> intro t <;>
      cases t <;> rfl
  · repeat' refine And.intro ?_ ?_
    any_goals exact trivial
    all_goals rintro f ⟨⟩ htries hset
    all_goals first | exact False.elim htries | exact Bool.noConfusion hset | skip
    -- the second post fails while the other thread is still to look at the queue
    rintro - - ⟨u, g, hg, rfl⟩
    cases u
    · have hlast : Frame.scheduleRelease () ∈ [Frame.scheduleTryAcquire ()] := hg
      cases List.mem_singleton.1 hlast
    · have hlast : Frame.scheduleRelease () ∈ [Frame.dispatchExecute (.actor ()) 1] := hg
      cases List.mem_singleton.1 hlast

/-- The completion comes back before the thread that posted it has released the flag. -/
theorem not_noneStranded :
    ∃ p : Actors Bool Unit Unit, RunsTo oneActor (fun _ _ _ => True) p ∧ ¬ NoneStranded p := by
  have hrun : RunsTo oneActor (fun _ _ _ => True) _ :=
    Machine.ReachableIf.exec
      [.thread false (.call (.post (.actor ()) ())), .thread false (.next ()),
        .thread false (.next ()), .thread false (.next ()), .thread false (.next ()),
        .thread false (.next ()),
        .thread true (.call (.dispatch (.actor ()))), .thread true (.next ()),
        .thread true (.next ()),
        .thread false (.next ())]
      (.init (s := ⟨initial, fun _ : Bool => []⟩) ⟨rfl, fun _ => rfl⟩) ?_ rfl
  · refine ⟨_, hrun, fun h => ?_⟩
    have := h (by intro t; cases t <;> rfl) () (List.cons_ne_nil _ _)
    exact absurd this (by decide)
  · exact ⟨trivial, trivial, trivial, trivial, trivial, trivial, trivial, trivial, trivial, trivial,
      trivial⟩

end ActorScheduler

end CppNetEngine
