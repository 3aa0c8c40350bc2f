import CppNetEngine.Actor.Proof.Wakeup

/-!
# A completion in flight has an owner

`SetOwner` keeps an actor alive for the completion that follows it. All completions of an actor
share one `ActorOverlapped`, and `Dispatch` clears its owner after the first of them. `owned`: if
the owner is only cleared with no other completion in the port, and no thread on the way from
`SetOwner` to `PostQueuedCompletionStatus`, every completion has its owner. `not_owned`: two posts
and one dispatch, one call after the other.
-/

namespace CppNetEngine

namespace ActorScheduler

variable {τ α ς J : Type}

/-- Every completion in the port has an owner. -/
def Owned (p : State τ α ς J) : Prop := ∀ x, 0 < p.shared.port x → p.shared.mpOwner x = true

/-- The thread has set the owner of `x` and may post a completion. -/
def Frame.Posts (x : ActorRef α ς) : Frame α ς J → Prop
  | .scheduleTryAcquire a => .actor a = x
  | .schedulePost y => y = x
  | _ => False

/-- `ClearActorOverlapped` runs when no other completion of the actor is in the port or about to be
posted. -/
def ClearsUnused (p : State τ α ς J) (t : τ) (_ : StackAction (Call α ς J) Unit) : Prop :=
  ∀ x, (p.locals t).head? = some (.dispatchClear x) →
    p.shared.port x = 0 ∧ ¬ Stacks.HasFrame p (Frame.Posts x)

/-! ## Steps -/

/-- What a statement does to the owner of `x`, and to what needs the owner. -/
structure OwnerStep (x : ActorRef α ς) (m : ActorMemory τ α ς J) (f : Frame α ς J)
    (m' : ActorMemory τ α ς J) (new : List (Frame α ς J)) : Prop where
  owner : m.mpOwner x = true → m'.mpOwner x = true ∨ f = .dispatchClear x
  port : 0 < m'.port x → 0 < m.port x ∨ f.Posts x
  posts : ∀ g ∈ new, g.Posts x → m'.mpOwner x = true ∨ f.Posts x

section Steps

variable [DecidableEq α] [DecidableEq ς] {cfg : ActorConfig α ς} {t : τ}
  {m m' : ActorMemory τ α ς J} {f : Frame α ς J} {new : List (Frame α ς J)}

omit [DecidableEq α] [DecidableEq ς] in
/-- A statement that leaves owners and port, before ones that do not post. -/
theorem OwnerStep.of_same {x : ActorRef α ς} (howner : m'.mpOwner = m.mpOwner)
    (hport : m'.port = m.port) (hnew : ∀ g ∈ new, ¬ g.Posts x) : OwnerStep x m f m' new where
  owner h := .inl (howner ▸ h)
  port h := .inl (hport ▸ h)
  posts g hg h := absurd h (hnew g hg)

omit [DecidableEq α] [DecidableEq ς] in
theorem not_posts_acquireMember (x : ActorRef α ς) (s : ς) (i : Nat) :
    ¬ (acquireMember cfg s i : Frame α ς J).Posts x := by
  unfold acquireMember
  split
  · split <;> exact id
  · exact id

theorem step_owner (x : ActorRef α ς) (h : step cfg t m f = some (m', new)) :
    OwnerStep x m f m' new := by
  cases f with
  | pushJob y pJob | registerCount y =>
    simp only [step] at h
    split at h <;> cases h <;> exact .of_same rfl rfl (by simp [Frame.Posts])
  | scheduleSetOwner y =>
    cases h
    refine ⟨fun howner => .inl ?_, .inl, fun g hg hposts => .inl ?_⟩
    · by_cases hy : x = y <;> simp [hy, ← howner]
    · cases y <;> rw [List.mem_singleton.1 hg] at hposts <;> subst hposts <;>
        exact Function.update_self _ _ _
  | scheduleTryAcquire a =>
    rcases tryAcquire_cases m t a with ⟨-, htry⟩ | ⟨-, htry⟩ <;> simp only [step, htry] at h <;>
      cases h
    · exact .of_same rfl rfl (by simp)
    · refine ⟨.inl, .inl, fun g hg hposts => .inr ?_⟩
      rw [List.mem_singleton.1 hg] at hposts
      exact hposts
  | dispatchTryAcquire a =>
    rcases tryAcquire_cases m t a with ⟨-, htry⟩ | ⟨-, htry⟩ <;> simp only [step, htry] at h <;>
      cases h <;> exact .of_same rfl rfl (by simp [Frame.Posts])
  | schedulePost y =>
    cases h
    refine ⟨.inl, fun hport => ?_, fun g hg hposts => ?_⟩
    · by_cases hy : y = x
      · exact .inr hy
      · exact .inl (by simpa [Ne.symm hy] using hport)
    · cases y <;> simp_all [Frame.Posts]
  | scheduleRelease a | dispatchCount y | running y pJob n | dispatchRelease a
  | memberStoreIndex s i =>
    cases h
    exact .of_same rfl rfl (by simp [Frame.Posts])
  | dispatchGetOwner y =>
    cases h
    refine .of_same rfl rfl ?_
    split
    · cases y with
      | actor a => simp [Frame.Posts]
      | scopedActor s => exact List.forall_mem_singleton.2 (not_posts_acquireMember x s 0)
    · exact fun g hg => absurd hg List.not_mem_nil
  | memberTryAcquire s i curSpin =>
    obtain ⟨a, -, hr⟩ := Option.map_eq_some_iff.1 h
    rcases tryAcquire_cases m t a with ⟨-, htry⟩ | ⟨-, htry⟩ <;> simp only [htry] at hr <;>
      cases hr
    · refine .of_same rfl rfl ?_
      split <;> simp [Frame.Posts]
    · exact .of_same rfl rfl (by simp [Frame.Posts])
  | memberLoadIndex s i acquired =>
    cases h
    refine .of_same rfl rfl (List.forall_mem_singleton.2 ?_)
    split
    · exact not_posts_acquireMember x s (i + 1)
    · exact id
  | dispatchExecute y n =>
    cases n with
    | zero =>
      cases h
      exact .of_same rfl rfl (by simp [Frame.Posts])
    | succ n =>
      simp only [step] at h
      split at h <;> cases h <;> exact .of_same rfl rfl (by simp [Frame.Posts])
  | dispatchClear y =>
    cases h
    refine ⟨fun howner => ?_, .inl, fun g hg hposts => ?_⟩
    · by_cases hy : y = x
      · exact .inr (by rw [hy])
      · exact .inl (by simpa [Ne.symm hy] using howner)
    · cases y <;> simp_all [Frame.Posts]
  | releaseLoadIndex s count dispatched =>
    cases h
    refine .of_same rfl rfl ?_
    split <;> simp [Frame.Posts]
  | releaseMember s i dispatched =>
    obtain ⟨a, -, hr⟩ := Option.map_eq_some_iff.1 h
    cases hr
    refine .of_same rfl rfl ?_
    cases i <;> simp [Frame.Posts]
  | releaseStoreIndex s dispatched =>
    cases h
    refine .of_same rfl rfl ?_
    split <;> simp [Frame.Posts]

end Steps

/-! ## Runs -/

section Run

variable [DecidableEq τ] [DecidableEq α] [DecidableEq ς] {cfg : ActorConfig α ς}
  {p : State τ α ς J} {t : τ}

/-- What needs the owner of `x` has it. -/
def CompletionInv (p : State τ α ς J) : Prop :=
  ∀ x, 0 < p.shared.port x ∨ Stacks.HasFrame p (Frame.Posts x) → p.shared.mpOwner x = true

theorem CompletionInv.call (hI : CompletionInv p) {c : Call α ς J} {m : ActorMemory τ α ς J}
    {f : Frame α ς J} (h : enter c p.shared (p.locals t) = some (m, f)) :
    CompletionInv (p.set t m (f :: p.locals t)) := by
  intro x hneeds
  have hstep : (0 < m.port x → 0 < p.shared.port x) ∧ ¬ f.Posts x ∧
      m.mpOwner = p.shared.mpOwner := by
    obtain ⟨y, pJob, -, rfl, rfl⟩ | ⟨y, -, -, hport, rfl, rfl⟩ := enter_cases h
    · exact ⟨id, id, rfl⟩
    · refine ⟨fun hpos => ?_, id, rfl⟩
      by_cases hy : x = y
      · exact hy ▸ hport
      · simpa [hy] using hpos
  rw [Threads.set_shared, hstep.2.2]
  rcases hneeds with hport | hframe
  · exact hI x (.inl (hstep.1 hport))
  · exact hI x (.inr ((Stacks.HasFrame.push_iff hstep.2.1).1 hframe))

theorem CompletionInv.next (hI : CompletionInv p) (hok : ClearsUnused p t (.next ()))
    {f : Frame α ς J} {rest new : List (Frame α ς J)} (ht : p.locals t = f :: rest)
    {m : ActorMemory τ α ς J} (h : step cfg t p.shared f = some (m, new)) :
    CompletionInv (p.set t m (new ++ rest)) := by
  intro x hneeds
  have hstep := step_owner x h
  -- something needed the owner before the step, or the step has just set it
  have hbefore : m.mpOwner x = true ∨
      (0 < p.shared.port x ∨ Stacks.HasFrame p (Frame.Posts x)) := by
    have hself : f.Posts x → Stacks.HasFrame p (Frame.Posts x) :=
      Stacks.HasFrame.of_innermost ht
    rcases hneeds with hport | hframe
    · exact .inr ((hstep.port hport).imp_right hself)
    · rcases hframe.of_next ht with hframe | ⟨g, hg, hposts⟩
      · exact .inr (.inr hframe)
      · exact (hstep.posts g hg hposts).imp_right fun hf => .inr (hself hf)
  rcases hbefore with howner | hbefore
  · exact howner
  rcases hstep.owner (hI x hbefore) with howner | hclear
  · exact howner
  · obtain ⟨hport, hframe⟩ := hok x (by rw [ht, hclear]; rfl)
    rcases hbefore with hpos | hposts
    · exact absurd hport (Nat.ne_of_gt hpos)
    · exact absurd hposts hframe

/-- **Every completion in flight has an owner** in the runs in which no owner is cleared while a
completion is in the port or about to be posted. -/
theorem owned (h : RunsTo cfg ClearsUnused p) : Owned p := by
  have hI : CompletionInv p := by
    refine Stacks.invariant (I := CompletionInv) ?_ (fun s t c m f hI _ => hI.call)
      (fun s t _ m f rest new hI hok ht => hI.next hok ht) h
    rintro ⟨shared, locals⟩ ⟨rfl, hlocals⟩ x (hport | hframe)
    · cases hport
    · exact absurd hframe (Stacks.HasFrame.not_of_idle hlocals)
  exact fun x hport => hI x (.inl hport)

end Run

/-! ## One actor -/

/-- A job that is posted and dispatched, and then a second one. -/
theorem owned_post : ∃ p : State Bool Unit Empty Unit, p.shared.port (.actor ()) = 1 ∧ Owned p := by
  have hrun : RunsTo oneActor ClearsUnused _ :=
    Machine.ReachableIf.exec
      [.thread false (.call (.post (.actor ()) ())), .thread false (.next ()),
        .thread false (.next ()), .thread false (.next ()), .thread false (.next ()),
        .thread false (.next ()), .thread false (.next ()),
        .thread false (.call (.dispatch (.actor ()))), .thread false (.next ()),
        .thread false (.next ()), .thread false (.next ()), .thread false (.next ()),
        .thread false (.next ()), .thread false (.next ()), .thread false (.next ()),
        .thread false (.next ()), .thread false (.next ()),
        .thread false (.call (.post (.actor ()) ())), .thread false (.next ()),
        .thread false (.next ()), .thread false (.next ()), .thread false (.next ()),
        .thread false (.next ()), .thread false (.next ())]
      (.init (s := ⟨initial, fun _ : Bool => []⟩) ⟨rfl, fun _ => rfl⟩) ?_ rfl
  · exact ⟨_, rfl, owned hrun⟩
  · refine ⟨?_, ?_, ?_, ?_, ?_, ?_, ?_, ?_, ?_, ?_, ?_, ?_, ?_, ?_, ?_, ?_, ?_, ?_, ?_, ?_, ?_, ?_,
      ?_, ?_, trivial⟩ <;> rintro x ⟨⟩
    -- the thread that clears the owner is in no other call, and the other one in none
    refine ⟨rfl, ?_⟩
    rintro ⟨u, f, hf, hposts⟩
    cases u with
    | false =>
      rw [List.mem_singleton.1 hf] at hposts
      exact hposts
    | true => cases hf

/-- Two posts and a dispatch, one call after the other. -/
theorem not_owned : ∃ p : State Bool Unit Empty Unit,
    RunsTo oneActor (fun _ _ _ => True) p ∧ (∀ t, p.locals t = []) ∧ ¬ Owned p := by
  have hrun : RunsTo oneActor (fun _ _ _ => True) _ :=
    Machine.ReachableIf.exec
      ([.call (.post (.actor ()) ()), .next (), .next (), .next (), .next (), .next (), .next (),
        .call (.post (.actor ()) ()), .next (), .next (), .next (), .next (), .next (), .next (),
        .call (.dispatch (.actor ())), .next (), .next (), .next (), .next (), .next (), .next (),
        .next (), .next (), .next (), .next (), .next ()].map (.thread true))
      (.init (s := ⟨initial, fun _ : Bool => []⟩) ⟨rfl, fun _ => rfl⟩)
      (Machine.allowed_of Threads.guard_true _ _) rfl
  refine ⟨_, hrun, fun t => ?_, fun h => ?_⟩
  · cases t <;> rfl
  · exact absurd (h (.actor ()) (by decide)) (by decide)

end ActorScheduler

end CppNetEngine
