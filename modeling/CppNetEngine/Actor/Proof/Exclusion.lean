import CppNetEngine.Actor.Scheduler
import CppNetEngine.Lib.Locks

/-!
# One thread at a time executes the jobs of an actor

`Frame.held` are the members whose flags a thread has set and not yet cleared, by the statement it
is at. For plain actors the code has no other notion; a scoped actor finds its own out from
`mAcquireIndex`, which all threads share that try it. In runs in which no thread takes another
thread's index for its own (`OwnIndex`) the flags are locks (`OwnLocks`), and `exclusive` follows.
`not_exclusive` is a run with two completions of one scoped actor.
-/

namespace CppNetEngine

/-- The actors that a job of `x` may touch. -/
def ActorConfig.members {α ς : Type} (cfg : ActorConfig α ς) : ActorRef α ς → List α
  | .actor a => [a]
  | .scopedActor s => cfg.mActors s

namespace ActorScheduler

variable {τ α ς J : Type} (cfg : ActorConfig α ς)

/-- The thread executes a job of `x`. -/
def Executing (p : State τ α ς J) (t : τ) (x : ActorRef α ς) : Prop :=
  ∃ pJob n, .running x pJob n ∈ p.locals t

/-- **Exclusive execution** in a state. -/
structure Exclusive (p : State τ α ς J) : Prop where
  /-- At most one thread executes jobs that have an actor in common. -/
  executing : ∀ t u x y a, Executing p t x → Executing p u y → a ∈ cfg.members x →
    a ∈ cfg.members y → t = u
  /-- A `TryAcquire` of `Dispatch` that returned true acquired every member itself. -/
  acquired : ∀ t x, (p.locals t).head? = some (.dispatchCount x) →
    ∀ a ∈ cfg.members x, p.shared.mbAcquire a = some t

/-- Nothing that `t` does clears a flag that another thread has set. -/
def LeavesFlags (p p' : State τ α ς J) (t : τ) : Prop :=
  ∀ a u, u ≠ t → p.shared.mbAcquire a = some u → p'.shared.mbAcquire a = some u

/-- Where a thread tests `mAcquireIndex` against `i`, it finds `i` only if it acquired member `i`;
where it starts to release, the index is not past the members it acquired. -/
def Frame.IndexIsOwn (m : ActorMemory τ α ς J) : Frame α ς J → Prop
  | .memberLoadIndex s i acquired => m.mAcquireIndex s = i → acquired = true
  | .releaseLoadIndex s count _ => m.mAcquireIndex s < count
  | _ => True

/-- The condition on the actions of a run. -/
def OwnIndex (p : State τ α ς J) (t : τ) (_ : StackAction (Call α ς J) Unit) : Prop :=
  ∀ f ∈ (p.locals t).head?, f.IndexIsOwn p.shared

/-! ## The members a thread holds -/

/-- The members whose flags the call with this statement has set and not cleared yet. -/
def Frame.held : Frame α ς J → List α
  | .schedulePost (.actor a) => [a]
  | .scheduleRelease a => [a]
  | .dispatchCount x => cfg.members x
  | .dispatchExecute x _ => cfg.members x
  | .running x _ _ => cfg.members x
  | .dispatchClear x => cfg.members x
  | .dispatchRelease a => [a]
  | .memberTryAcquire s i _ => (cfg.mActors s).take i
  | .memberStoreIndex s i => (cfg.mActors s).take (i + 1)
  | .memberLoadIndex s i acquired => (cfg.mActors s).take (if acquired then i + 1 else i)
  | .releaseLoadIndex s count _ => (cfg.mActors s).take count
  | .releaseMember s i _ => (cfg.mActors s).take (i + 1)
  | _ => []

/-- The members that a thread's calls hold. -/
def heldBy (p : State τ α ς J) (t : τ) : List α := (p.locals t).flatMap (Frame.held cfg)

variable {cfg}

theorem held_acquireMember (s : ς) (i : Nat) :
    (acquireMember cfg s i : Frame α ς J).held cfg = (cfg.mActors s).take i := by
  unfold acquireMember
  split
  · split <;> rfl
  · rw [List.take_of_length_le (by omega)]
    rfl

theorem heldBy_set [DecidableEq τ] (p : State τ α ς J) (t : τ) (m : ActorMemory τ α ς J)
    (fs : List (Frame α ς J)) :
    heldBy cfg (p.set t m fs) = Function.update (heldBy cfg p) t (fs.flatMap (Frame.held cfg)) := by
  funext u
  by_cases hu : u = t
  · subst hu
    simp [heldBy]
  · rw [heldBy, Threads.set_other _ _ _ _ hu, Function.update_of_ne hu, heldBy]

/-! ## Steps -/

variable [DecidableEq α] [DecidableEq ς] {t : τ} {m m' : ActorMemory τ α ς J}
  {f : Frame α ς J} {new : List (Frame α ς J)}

theorem step_flags (hok : f.IndexIsOwn m) (h : step cfg t m f = some (m', new)) :
    LockStep t m.mbAcquire m'.mbAcquire (f.held cfg) (new.flatMap (Frame.held cfg)) := by
  cases f with
  | pushJob x pJob =>
    simp only [step] at h
    split at h <;> cases h <;> exact .keep rfl (List.Sublist.refl _)
  | registerCount x =>
    simp only [step] at h
    split at h <;> cases h <;> exact .keep rfl (List.Sublist.refl _)
  | scheduleSetOwner x =>
    cases x <;> cases h <;> exact .keep rfl (List.Sublist.refl _)
  | scheduleTryAcquire a | dispatchTryAcquire a =>
    rcases tryAcquire_cases m t a with ⟨-, htry⟩ | ⟨hfree, htry⟩ <;> simp only [step, htry] at h <;>
      cases h
    · exact .keep rfl (List.Sublist.refl _)
    · exact .acquire a hfree rfl rfl
  | schedulePost x =>
    cases x <;> cases h <;> exact .keep rfl (List.Sublist.refl _)
  | scheduleRelease a | dispatchRelease a =>
    cases h
    exact .release a rfl rfl
  | dispatchGetOwner x =>
    simp only [step] at h
    split at h <;> cases h
    · refine .keep rfl ?_
      cases x with
      | actor a => exact List.Sublist.refl _
      | scopedActor s => simp [held_acquireMember]
    · exact .keep rfl (List.Sublist.refl _)
  | memberTryAcquire s i curSpin =>
    obtain ⟨a, ha, hr⟩ := Option.map_eq_some_iff.1 h
    rcases tryAcquire_cases m t a with ⟨-, htry⟩ | ⟨hfree, htry⟩ <;> simp only [htry] at hr <;>
      cases hr
    · refine .keep rfl ?_
      split <;> simp [Frame.held]
    · refine .acquire a hfree rfl ?_
      simp [Frame.held, List.take_add_one, ha]
  | memberStoreIndex s i =>
    cases h
    exact .keep rfl (by simp [Frame.held])
  | memberLoadIndex s i acquired =>
    cases h
    refine .keep rfl ?_
    split
    · rename_i hi
      rw [List.flatMap_singleton, held_acquireMember]
      simp [Frame.held, hok hi]
    · simp [Frame.held]
  | dispatchCount x | running x pJob n =>
    cases h
    exact .keep rfl (by simp [Frame.held])
  | dispatchExecute x n =>
    cases n with
    | zero =>
      cases h
      exact .keep rfl (by simp [Frame.held])
    | succ n =>
      simp only [step] at h
      split at h <;> cases h <;> exact .keep rfl (by simp [Frame.held])
  | dispatchClear x =>
    cases x <;> cases h <;> exact .keep rfl (by simp [Frame.held, ActorConfig.members])
  | releaseLoadIndex s count dispatched =>
    cases h
    refine .keep rfl ?_
    split
    · rename_i i hi
      have hlt : i < count := by
        have := hok
        simp only [Frame.IndexIsOwn, hi] at this
        exact Int.ofNat_lt.1 this
      simpa [Frame.held] using List.take_sublist_take_left hlt
    · exact List.nil_sublist _
  | releaseMember s i dispatched =>
    obtain ⟨a, ha, hr⟩ := Option.map_eq_some_iff.1 h
    cases hr
    refine .release a rfl ?_
    cases i <;> simp [Frame.held, List.take_add_one, ha]
  | releaseStoreIndex s dispatched =>
    cases h
    refine .keep rfl ?_
    split <;> exact List.Sublist.refl _

/-! ## Runs -/

section Run

variable [DecidableEq τ] {p : State τ α ς J}

/-- The flags are locks, and the threads hold the members their calls hold. -/
abbrev FlagInv (cfg : ActorConfig α ς) (p : State τ α ς J) : Prop :=
  OwnLocks p.shared.mbAcquire (heldBy cfg p)

omit [DecidableEq α] [DecidableEq ς] [DecidableEq τ] in
theorem heldBy_eq {rest : List (Frame α ς J)} (ht : p.locals t = f :: rest) :
    heldBy cfg p t = f.held cfg ++ rest.flatMap (Frame.held cfg) := by
  rw [heldBy, ht, List.flatMap_cons]

omit [DecidableEq τ] in
theorem held_enter (cfg : ActorConfig α ς) {c : Call α ς J} {fs : List (Frame α ς J)}
    (h : enter c m fs = some (m', f)) :
    m'.mbAcquire = m.mbAcquire ∧ f.held cfg = [] := by
  obtain ⟨x, pJob, -, rfl, rfl⟩ | ⟨x, -, -, -, rfl, rfl⟩ := enter_cases h <;> exact ⟨rfl, rfl⟩

theorem FlagInv.call (hI : FlagInv cfg p) {c : Call α ς J}
    (h : enter c p.shared (p.locals t) = some (m', f)) :
    FlagInv cfg (p.set t m' (f :: p.locals t)) := by
  obtain ⟨hlock, hheld⟩ := held_enter cfg h
  have hsame : heldBy cfg (p.set t m' (f :: p.locals t)) = heldBy cfg p := by
    rw [heldBy_set, List.flatMap_cons, hheld, List.nil_append]
    exact Function.update_eq_self t _
  rw [FlagInv, hsame, Threads.set_shared, hlock]
  exact hI

theorem FlagInv.next (hI : FlagInv cfg p) {rest : List (Frame α ς J)} (ht : p.locals t = f :: rest)
    (hok : f.IndexIsOwn p.shared) (h : step cfg t p.shared f = some (m', new)) :
    FlagInv cfg (p.set t m' (new ++ rest)) := by
  rw [FlagInv, heldBy_set, Threads.set_shared, List.flatMap_append]
  exact hI.step (heldBy_eq ht) (step_flags hok h)

theorem flagInv_of_runsTo (h : RunsTo cfg OwnIndex p) : FlagInv cfg p := by
  refine Stacks.invariant (I := FlagInv cfg) ?_ (fun s t c m f hI _ hc => FlagInv.call hI hc) ?_ h
  · rintro ⟨shared, locals⟩ ⟨-, hlocals⟩ t
    have hheld : heldBy cfg ⟨shared, locals⟩ t = [] := by
      rw [heldBy, hlocals t]
      rfl
    rw [hheld]
    exact ⟨List.nodup_nil, fun a ha => nomatch ha⟩
  · intro s t _ m f rest new hI hok ht hs
    exact FlagInv.next hI ht ((Stacks.forall_head ht).1 hok) hs

theorem FlagInv.leavesFlags (hI : FlagInv cfg p) {a : StackAction (Call α ς J) Unit}
    {p' : State τ α ς J} (hok : OwnIndex p t a) (h : (machine cfg).step p (.thread t a) = some p') :
    LeavesFlags p p' t := by
  intro b u hu hb
  obtain ⟨⟨m', fs⟩, hact, rfl⟩ := Option.map_eq_some_iff.1 h
  obtain ⟨c, f, rfl, hc, rfl⟩ | ⟨_, f, rest, new, rfl, ht, hs, rfl⟩ := Stacks.act_cases hact
  · exact (held_enter cfg hc).1 ▸ hb
  · exact OwnLocks.step_other hI (heldBy_eq ht)
      (step_flags ((Stacks.forall_head ht).1 hok) hs) hu hb

omit [DecidableEq α] [DecidableEq ς] [DecidableEq τ] in
theorem executing_held {x : ActorRef α ς} {a : α} (h : Executing p t x) (ha : a ∈ cfg.members x) :
    a ∈ heldBy cfg p t := by
  obtain ⟨pJob, n, hf⟩ := h
  exact List.mem_flatMap.2 ⟨_, hf, ha⟩

/-- **Exclusive execution**: in the runs in which each thread finds its own index. -/
theorem exclusive (h : RunsTo cfg OwnIndex p) :
    Exclusive cfg p ∧ ∀ t a p', OwnIndex p t a → (machine cfg).step p (.thread t a) = some p' →
      LeavesFlags p p' t := by
  have hI := flagInv_of_runsTo h
  refine ⟨⟨?_, ?_⟩, fun t a p' hok hs => hI.leavesFlags hok hs⟩
  · intro t u x y a ht hu hax hay
    exact hI.unique (executing_held ht hax) (executing_held hu hay)
  · intro t x ht a ha
    refine (hI t).2 a (List.mem_flatMap.2 ⟨_, List.mem_of_mem_head? ht, ha⟩)

end Run

/-! ## One scoped actor -/

/-- A scoped actor with one member, which tries it once. -/
def oneMember : ActorConfig Unit Unit :=
  { mActors := fun _ => [()], mSpinCount := fun _ => 1, mExecuteJobCount := 50 }

/-- Two threads dispatch one scoped actor: one has set the flag when the other comes to it, which
fails and goes back before the first has stored its index. -/
theorem exclusive_two :
    ∃ p : State Bool Unit Unit Nat, Executing p false (.scopedActor ()) ∧ p.locals true = [] ∧
      Exclusive oneMember p := by
  have hrun : RunsTo oneMember OwnIndex _ :=
    Machine.ReachableIf.exec
      (.thread false (.call (.post (.scopedActor ()) 7)) ::
        List.replicate 4 (.thread false (.next ())) ++
        .thread true (.call (.post (.scopedActor ()) 8)) ::
        List.replicate 4 (.thread true (.next ())) ++
        .thread false (.call (.dispatch (.scopedActor ()))) ::
        List.replicate 2 (.thread false (.next ())) ++
        .thread true (.call (.dispatch (.scopedActor ()))) ::
        List.replicate 5 (.thread true (.next ())) ++
        List.replicate 4 (.thread false (.next ())))
      (.init (s := ⟨initial, fun _ : Bool => []⟩) ⟨rfl, fun _ => rfl⟩) ?_ rfl
  · exact ⟨_, ⟨7, 1, List.mem_cons_self⟩, rfl, (exclusive hrun).1⟩
  · repeat' refine And.intro ?_ ?_
    any_goals exact trivial
    all_goals rintro f ⟨⟩
    all_goals first
      | exact trivial
      | exact fun _ => rfl
      | exact fun h => absurd h (by decide)
      | exact Int.negSucc_lt_zero 0

/-- Two completions of one scoped actor: the second thread finds the index of the first. -/
theorem not_exclusive :
    ∃ p : State Bool Unit Unit Unit, RunsTo oneMember (fun _ _ _ => True) p ∧
      ¬ Exclusive oneMember p := by
  have hrun : RunsTo oneMember (fun _ _ _ => True) _ :=
    Machine.ReachableIf.exec
      [.thread false (.call (.post (.scopedActor ()) ())), .thread false (.next ()),
        .thread false (.next ()), .thread false (.next ()), .thread false (.next ()),
        .thread false (.call (.post (.scopedActor ()) ())), .thread false (.next ()),
        .thread false (.next ()), .thread false (.next ()), .thread false (.next ()),
        .thread false (.call (.dispatch (.scopedActor ()))), .thread false (.next ()),
        .thread false (.next ()), .thread false (.next ()), .thread false (.next ()),
        .thread false (.next ()), .thread false (.next ()),
        .thread true (.call (.dispatch (.scopedActor ()))), .thread true (.next ()),
        .thread true (.next ()), .thread true (.next ()), .thread true (.next ()),
        .thread true (.next ())]
      (.init (s := ⟨initial, fun _ : Bool => []⟩) ⟨rfl, fun _ => rfl⟩) ?_ rfl
  · refine ⟨_, hrun, fun h => ?_⟩
    have := h.executing false true (.scopedActor ()) (.scopedActor ()) ()
      ⟨(), 1, List.mem_cons_self⟩ ⟨(), 0, List.mem_cons_self⟩ List.mem_cons_self List.mem_cons_self
    cases this
  · refine ⟨?_, ?_, ?_, ?_, ?_, ?_, ?_, ?_, ?_, ?_, ?_, ?_, ?_, ?_, ?_, ?_, ?_, ?_, ?_, ?_, ?_, ?_,
      ?_, trivial⟩ <;> trivial

end ActorScheduler

end CppNetEngine
