import CppNetEngine.Actor.Proof.Exclusion
import CppNetEngine.Actor.Proof.Wakeup
import CppNetEngine.Lib.Observed

/-!
# The jobs of an actor run one at a time and in order

For plain actors the condition of `exclusive` is met by every run, so the flags are locks in all of
them. A job runs from the step that takes it from the queue (`started`) until it returns
(`executed`); in between the thread holds the actor, and no other thread takes a job. `inOrder`:
the jobs executed are a prefix of those started, and these of those pushed.
-/

namespace CppNetEngine

namespace ActorScheduler

/-- What can happen to a job. -/
inductive JobEventKind
  | pushed
  | started
  | executed
  deriving DecidableEq

structure JobEvent (α J : Type) where
  kind : JobEventKind
  actor : α
  pJob : J

variable {τ α J : Type}

/-- What is seen of a statement: a successful `PushJob`, a job that starts, or one that returns. -/
def seeJob (m : ActorMemory τ α Empty J) : Frame α Empty J → List (JobEvent α J)
  | .pushJob (.actor a) pJob =>
    if defaultMaxCount ≤ (m.mJobQueue (.actor a)).length then [] else [⟨.pushed, a, pJob⟩]
  | .dispatchExecute (.actor a) (_ + 1) =>
    (m.mJobQueue (.actor a)).head?.toList.map fun pJob => ⟨.started, a, pJob⟩
  | .running (.actor a) pJob _ => [⟨.executed, a, pJob⟩]
  | _ => []

/-- The thread is between a successful `TryAcquire` in `Dispatch` and the `Release` of `a`. -/
def Frame.Dispatches (a : α) : Frame α Empty J → Prop
  | .dispatchCount (.actor b) | .dispatchExecute (.actor b) _ | .running (.actor b) _ _
  | .dispatchClear (.actor b) | .dispatchRelease b => b = a
  | _ => False

/-- The thread runs the job of `a`. -/
def Frame.Runs (a : α) (pJob : J) : Frame α Empty J → Prop
  | .running (.actor b) pJob' _ => b = a ∧ pJob' = pJob
  | _ => False

section Jobs

variable [DecidableEq α]

/-- The jobs of `a` to which that happened, in order. -/
def jobsOf (k : JobEventKind) (a : α) (l : List (JobEvent α J)) : List J :=
  (l.filter fun e => e.kind = k ∧ e.actor = a).map (·.pJob)

@[simp] theorem jobsOf_nil (k : JobEventKind) (a : α) :
    jobsOf k a ([] : List (JobEvent α J)) = [] := rfl

@[simp] theorem jobsOf_append (k : JobEventKind) (a : α) (l l' : List (JobEvent α J)) :
    jobsOf k a (l ++ l') = jobsOf k a l ++ jobsOf k a l' := by
  simp [jobsOf]

theorem jobsOf_singleton (k : JobEventKind) (a : α) (e : JobEvent α J) :
    jobsOf k a [e] = if e.kind = k ∧ e.actor = a then [e.pJob] else [] := by
  by_cases he : e.kind = k ∧ e.actor = a
  · simp [jobsOf, he]
  · simp only [jobsOf, he, List.filter_cons, decide_false, if_false]
    rfl

end Jobs

/-- The states of all runs, with what happened to the jobs. -/
abbrev JobsSeen [DecidableEq τ] [DecidableEq α] (cfg : ActorConfig α Empty) :
    List (JobEvent α J) → Actors τ α J → Prop :=
  Stacks.Observed enter (fun t (_ : Unit) m f => step cfg t m f)
    (fun p => p.shared = initial ∧ ∀ t, p.locals t = []) (fun _ _ _ => True)
    (fun _ (_ : Call α Empty J) => []) (fun m (_ : Unit) f => seeJob m f)

/-! ## The flags of plain actors -/

section Flags

variable {cfg : ActorConfig α Empty} {p : Actors τ α J} {t : τ} {f : Frame α Empty J} {a : α}

theorem ownIndex_of_plain (p : Actors τ α J) (t : τ) (a : StackAction (Call α Empty J) Unit) :
    OwnIndex p t a := by
  intro f _
  cases f with
  | memberLoadIndex s i acquired | releaseLoadIndex s count dispatched => exact s.elim
  | _ => trivial

theorem Frame.Dispatches.held (h : f.Dispatches a) : a ∈ f.held cfg := by
  cases f with
  | dispatchCount x | dispatchExecute x n | running x pJob n | dispatchClear x =>
    obtain ⟨b, rfl⟩ := x.plain
    exact List.mem_singleton.2 (Eq.symm h)
  | dispatchRelease b => exact List.mem_singleton.2 (Eq.symm h)
  | _ => exact h.elim

theorem Frame.Runs.dispatches {pJob : J} (h : f.Runs a pJob) : f.Dispatches a := by
  cases f with
  | running x pJob' n =>
    obtain ⟨b, rfl⟩ := x.plain
    exact h.1
  | _ => exact h.elim

variable [DecidableEq τ] [DecidableEq α]

theorem flagInv_of_plain (h : RunsTo cfg (fun _ _ _ => True) p) : FlagInv cfg p :=
  flagInv_of_runsTo (h.mono fun s a _ => by
    cases a with
    | thread t a => exact ownIndex_of_plain s t a
    | env e => exact e.elim)

omit [DecidableEq α] in
/-- **No other frame holds what the innermost frame of a thread holds.** -/
theorem FlagInv.alone (hI : FlagInv cfg p) {m : ActorMemory τ α Empty J}
    {rest : List (Frame α Empty J)} (ht : p.locals t = f :: rest) (ha : a ∈ f.held cfg) :
    ¬ Stacks.HasFrame (p.set t m rest) fun g => a ∈ g.held cfg := by
  rintro ⟨u, g, hg, hga⟩
  have hheld : heldBy cfg p t = f.held cfg ++ rest.flatMap (Frame.held cfg) := heldBy_eq ht
  by_cases hu : u = t
  · subst hu
    rw [Threads.set_self] at hg
    have hnodup := (hI u).1
    rw [hheld] at hnodup
    exact (List.disjoint_of_nodup_append hnodup) ha (List.mem_flatMap.2 ⟨g, hg, hga⟩)
  · rw [Threads.set_other _ _ _ _ hu] at hg
    refine hu (OwnLocks.unique hI (List.mem_flatMap.2 ⟨g, hg, hga⟩) ?_)
    rw [hheld]
    exact List.mem_append_left _ ha

end Flags

/-! ## Steps -/

/-- What a statement does to the queue of `a` and to its running job, and what is seen of it. -/
inductive JobStep (a : α) (queue queue' : List J) (f : Frame α Empty J)
    (new : List (Frame α Empty J)) : List (JobEvent α J) → Prop
  | keep {l : List (JobEvent α J)} : (∀ e ∈ l, e.actor ≠ a) → queue' = queue →
      (∀ pJob, ¬ f.Runs a pJob) → (∀ g ∈ new, ∀ pJob, ¬ g.Runs a pJob) →
      JobStep a queue queue' f new l
  | push (pJob : J) : queue' = queue ++ [pJob] → (∀ pJob, ¬ f.Runs a pJob) →
      (∀ g ∈ new, ∀ pJob, ¬ g.Runs a pJob) → JobStep a queue queue' f new [⟨.pushed, a, pJob⟩]
  | start (pJob : J) (n : Nat) : queue = pJob :: queue' → f.Dispatches a →
      (∀ pJob, ¬ f.Runs a pJob) → new = [.running (.actor a) pJob n] →
      JobStep a queue queue' f new [⟨.started, a, pJob⟩]
  | execute (pJob : J) : queue' = queue → f.Runs a pJob → (∀ g ∈ new, ∀ pJob, ¬ g.Runs a pJob) →
      JobStep a queue queue' f new [⟨.executed, a, pJob⟩]

theorem step_job [DecidableEq α] {cfg : ActorConfig α Empty} {t : τ}
    {m m' : ActorMemory τ α Empty J} {f : Frame α Empty J} {new : List (Frame α Empty J)} (a : α)
    (h : step cfg t m f = some (m', new)) :
    JobStep a (m.mJobQueue (.actor a)) (m'.mJobQueue (.actor a)) f new (seeJob m f) := by
  cases f with
  | pushJob x pJob =>
    obtain ⟨b, rfl⟩ := x.plain
    simp only [step] at h
    split at h <;> rename_i hfull <;> cases h
    · simp only [seeJob, if_pos hfull]
      exact .keep (by simp) rfl (by simp [Frame.Runs]) (by simp)
    · simp only [seeJob, if_neg hfull]
      by_cases hb : b = a
      · subst hb
        exact .push pJob (by simp) (by simp [Frame.Runs]) (by simp [Frame.Runs])
      · exact .keep (by simp [hb]) (by simp [Ne.symm hb]) (by simp [Frame.Runs])
          (by simp [Frame.Runs])
  | scheduleTryAcquire b | dispatchTryAcquire b =>
    rcases tryAcquire_cases m t b with ⟨-, htry⟩ | ⟨-, htry⟩ <;> simp only [step, htry] at h <;>
      cases h <;> exact .keep (by simp [seeJob]) rfl (by simp [Frame.Runs]) (by simp [Frame.Runs])
  | registerCount x | scheduleSetOwner x | schedulePost x | dispatchGetOwner x | dispatchCount x
  | dispatchClear x =>
    obtain ⟨b, rfl⟩ := x.plain
    cases h
    exact .keep (by simp [seeJob]) rfl (by simp [Frame.Runs]) (by simp [Frame.Runs])
  | scheduleRelease b | dispatchRelease b =>
    cases h
    exact .keep (by simp [seeJob]) rfl (by simp [Frame.Runs]) (by simp [Frame.Runs])
  | running x pJob n =>
    obtain ⟨b, rfl⟩ := x.plain
    cases h
    by_cases hb : b = a
    · subst hb
      exact .execute pJob rfl ⟨rfl, rfl⟩ (by simp [Frame.Runs])
    · exact .keep (by simp [seeJob, hb]) rfl (by simp [Frame.Runs, hb]) (by simp [Frame.Runs])
  | dispatchExecute x n =>
    obtain ⟨b, rfl⟩ := x.plain
    cases n with
    | zero =>
      cases h
      exact .keep (by simp [seeJob]) rfl (by simp [Frame.Runs]) (by simp [Frame.Runs])
    | succ n =>
      simp only [step] at h
      split at h <;> rename_i hqueue <;> cases h
      · exact .keep (by simp [seeJob, hqueue]) rfl (by simp [Frame.Runs]) (by simp [Frame.Runs])
      · rename_i pJob rest
        by_cases hb : b = a
        · subst hb
          simp only [seeJob, hqueue]
          exact .start pJob n (by simp) rfl (by simp [Frame.Runs]) rfl
        · exact .keep (by simp [seeJob, hqueue, hb]) (by simp [Ne.symm hb]) (by simp [Frame.Runs])
            (by simp [Frame.Runs, hb])
  | memberTryAcquire s | memberStoreIndex s | memberLoadIndex s | releaseLoadIndex s
  | releaseMember s | releaseStoreIndex s => exact s.elim

/-! ## Runs -/

section Run

variable [DecidableEq τ] [DecidableEq α] {cfg : ActorConfig α Empty} {p : Actors τ α J}
  {l : List (JobEvent α J)} {t : τ} {a : α}

/-- The jobs pushed are those started and those in the queue; the jobs started are those executed
and the one that runs. -/
structure JobInv (l : List (JobEvent α J)) (p : Actors τ α J) (a : α) : Prop where
  pushed : jobsOf .pushed a l = jobsOf .started a l ++ p.shared.mJobQueue (.actor a)
  started : ∃ r : Option J, jobsOf .started a l = jobsOf .executed a l ++ r.toList ∧
    ∀ pJob, Stacks.HasFrame p (Frame.Runs a pJob) ↔ r = some pJob

theorem jobsOf_other {k : JobEventKind} (h : ∀ e ∈ l, e.actor ≠ a) : jobsOf k a l = [] := by
  rw [jobsOf, List.filter_eq_nil_iff.2 fun e he => by simp [h e he]]
  rfl

theorem JobInv.call (hI : JobInv l p a) {c : Call α Empty J} {m : ActorMemory τ α Empty J}
    {f : Frame α Empty J} (h : enter c p.shared (p.locals t) = some (m, f)) :
    JobInv l (p.set t m (f :: p.locals t)) a := by
  have hf : (∀ pJob, ¬ f.Runs a pJob) ∧ m.mJobQueue = p.shared.mJobQueue := by
    obtain ⟨x, pJob, -, rfl, rfl⟩ | ⟨x, -, -, -, rfl, rfl⟩ := enter_cases h <;>
      exact ⟨fun _ => id, rfl⟩
  obtain ⟨r, hr, hruns⟩ := hI.started
  refine ⟨?_, r, hr, fun pJob => ?_⟩
  · rw [Threads.set_shared, hf.2]
    exact hI.pushed
  · rw [Stacks.HasFrame.push_iff (hf.1 pJob)]
    exact hruns pJob

theorem JobInv.next (hI : JobInv l p a) (hflags : FlagInv cfg p) {f : Frame α Empty J}
    {rest new : List (Frame α Empty J)} (ht : p.locals t = f :: rest)
    {m : ActorMemory τ α Empty J} (h : step cfg t p.shared f = some (m, new)) :
    JobInv (l ++ seeJob p.shared f) (p.set t m (new ++ rest)) a := by
  obtain ⟨r, hr, hruns⟩ := hI.started
  have hpushed := hI.pushed
  generalize hsee : seeJob p.shared f = seen
  cases hsee ▸ step_job a h with
  | keep hother hqueue hf hnew =>
    refine ⟨?_, r, ?_, fun pJob => ?_⟩
    · simpa [jobsOf_other hother, hqueue] using hpushed
    · simpa [jobsOf_other hother] using hr
    · rw [Stacks.HasFrame.next_iff ht (hf pJob) fun g hg => hnew g hg pJob]
      exact hruns pJob
  | push pJob hqueue hf hnew =>
    refine ⟨?_, r, ?_, fun pJob => ?_⟩
    · simp [jobsOf_singleton, hqueue, hpushed]
    · simpa [jobsOf_singleton] using hr
    · rw [Stacks.HasFrame.next_iff ht (hf pJob) fun g hg => hnew g hg pJob]
      exact hruns pJob
  | start pJob n hqueue hdispatches hf hnew =>
    -- the thread has the flag, so no job of `a` runs yet
    have halone := hflags.alone (m := m) ht hdispatches.held
    have hnone : r = none := by
      cases r with
      | none => rfl
      | some pJob' =>
        have hrun : Stacks.HasFrame (p.set t m ([] ++ rest)) (Frame.Runs a pJob') :=
          (((hruns pJob').2 rfl).next ht).resolve_left (hf pJob')
        exact absurd (hrun.imp fun g hg => hg.dispatches.held) halone
    subst hnone
    refine ⟨?_, some pJob, ?_, fun pJob' => ⟨fun hframe => ?_, fun he => ?_⟩⟩
    · simp [jobsOf_singleton, hpushed, hqueue]
    · simpa [jobsOf_singleton] using hr
    · rcases hframe.of_append with ⟨g, hg, hgruns⟩ | hframe
      · rw [hnew, List.mem_singleton] at hg
        subst hg
        rw [hgruns.2]
      · exact absurd (hframe.imp fun g hg => hg.dispatches.held) halone
    · cases he
      exact ⟨t, .running (.actor a) pJob n, by simp [hnew], rfl, rfl⟩
  | execute pJob hqueue hf hnew =>
    have halone := hflags.alone (m := m) ht hf.dispatches.held
    have hsome : r = some pJob := (hruns pJob).1 ⟨t, f, by simp [ht], hf⟩
    subst hsome
    refine ⟨?_, none, ?_, fun pJob' => ⟨fun hframe => ?_, fun he => nomatch he⟩⟩
    · simpa [jobsOf_singleton, hqueue] using hpushed
    · simpa [jobsOf_singleton] using hr
    · rcases hframe.of_append with ⟨g, hg, hgruns⟩ | hframe
      · exact absurd hgruns (hnew g hg pJob')
      · exact absurd (hframe.imp fun g hg => hg.dispatches.held) halone

/-- **One at a time, in order, at most once**: at most one dispatcher is between its `TryAcquire`
and the `Release` of an actor, and the jobs executed are a prefix of those started, which are a
prefix of those pushed. -/
theorem inOrder (h : JobsSeen cfg l p) :
    (∀ a t u, (∃ f ∈ p.locals t, f.Dispatches a) → (∃ f ∈ p.locals u, f.Dispatches a) → t = u) ∧
    ∀ a, jobsOf .executed a l <+: jobsOf .started a l ∧
      jobsOf .started a l <+: jobsOf .pushed a l := by
  have hflags : FlagInv cfg p := flagInv_of_plain h.reachableIf
  refine ⟨?_, fun a => ?_⟩
  · rintro a t u ⟨f, hf, hft⟩ ⟨g, hg, hgu⟩
    exact OwnLocks.unique hflags (List.mem_flatMap.2 ⟨f, hf, hft.held⟩)
      (List.mem_flatMap.2 ⟨g, hg, hgu.held⟩)
  · have hI : JobInv l p a := by
      refine Stacks.observed (I := fun l p => JobInv l p a) ?_
        (fun l s t c m f _ hI _ hc => ?_) (fun l s t _ m f rest new hr hI _ ht hs => ?_) h
      · rintro ⟨shared, locals⟩ ⟨rfl, hlocals⟩
        refine ⟨rfl, none, rfl, fun pJob => ⟨?_, fun he => nomatch he⟩⟩
        rintro ⟨u, f, hf, -⟩
        rw [hlocals u] at hf
        cases hf
      · rw [List.append_nil]
        exact hI.call hc
      · exact hI.next (flagInv_of_plain hr.reachableIf) ht hs
    obtain ⟨r, hr, -⟩ := hI.started
    exact ⟨⟨_, hr.symm⟩, ⟨_, hI.pushed.symm⟩⟩

/-- A job that posts a second one while it runs. -/
theorem inOrder_two : ∃ (l : List (JobEvent Unit Nat)) (p : Actors Bool Unit Nat),
    JobsSeen oneActor l p ∧ jobsOf .pushed () l = [1, 2] ∧ jobsOf .executed () l = [1] ∧
      jobsOf .executed () l <+: jobsOf .started () l := by
  have hrun : JobsSeen oneActor _ (_ : Actors Bool Unit Nat) :=
    Machine.Observed.exec
      ([.call (.post (.actor ()) 1), .next (), .next (), .next (), .next (), .next (), .next (),
        .call (.dispatch (.actor ())), .next (), .next (), .next (), .next (),
        .call (.post (.actor ()) 2), .next (), .next (), .next (), .next (),
        .next ()].map (.thread true))
      (.init (s := ⟨initial, fun _ => []⟩) ⟨rfl, fun _ => rfl⟩)
      (Machine.allowed_of Threads.guard_true _ _) rfl
  exact ⟨_, _, hrun, rfl, rfl, ((inOrder hrun).2 ()).1⟩

end Run

end ActorScheduler

end CppNetEngine
