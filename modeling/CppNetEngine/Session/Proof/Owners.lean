import CppNetEngine.Session.Session

/-!
# Operations in flight and their owners

An operation is issued with an event whose owner must stay the session until `IocpCore::Dispatch`
has read it. `Register` tests `mpOwner` of the component, not the owner of the event, and `Clear`
resets both on error paths and when the session is disconnected, whatever is in flight. In the runs
in which no owner of an event is reset while the event is used (`OwnerGuard`), `ownersKept` says
that every completion finds its owner. `not_ownersKept` is a run in which `processDisconnect`
clears the receiver while its `WSARecv` is in flight.
-/

namespace CppNetEngine.Session

variable {τ : Type}

/-- **Owners are kept** in a state. -/
structure OwnersKept (p : State τ) : Prop where
  /-- The event of an operation that has not been dequeued has its owner. -/
  inFlight : ∀ c, 0 < p.shared.inFlight c → p.shared.mEventOwner c = true
  /-- A completion that has just been dequeued is not dropped. -/
  dispatched : ∀ t c n, (p.locals t).head? = some (.getOwner c n) → p.shared.mEventOwner c = true

namespace Stmt

/-- The thread is between the test of `mpOwner` and the call that issues the operation, or has
dequeued a completion and not yet read its owner. The sender sets the owner of its event itself
before `WSASend`. -/
def Uses (c : Component) : Stmt → Prop
  | .testService | .bindSocket => c = .connector
  | .testFreeSize => c = .receiver
  | .issue d => c = d
  | .getOwner d _ => c = d
  | _ => False

end Stmt

/-- The owner of an event is reset only while no operation is in flight with it, no thread is about
to issue one or to read the owner, and the component has no owner, so that no thread can pass the
test again (but for the sender, which sets the owner of its event again). No thread passes the test
between the two assignments of `SetOwner`. -/
def Stmt.Guarded (p : State τ) : Stmt → Prop
  | .resetEventOwner c =>
    p.shared.inFlight c = 0 ∧ ¬ Stacks.HasFrame p (Stmt.Uses c) ∧
      (c = .sender ∨ p.shared.mpOwner c = false)
  | .setSendOwner => p.shared.mpOwner .sender = true
  | .testOwner op =>
    op.passes p.shared = true → ¬ Stacks.HasFrame p (· = .setEventOwner op.component)
  | _ => True

/-- The condition on the actions of a run. -/
def OwnerGuard (p : State τ) (t : τ) (_ : StackAction Call Outside) : Prop :=
  ∀ f ∈ (p.locals t).head?, f.Guarded p

/-! ## The invariant -/

/-- What holds of each component. -/
structure OwnerInv (p : State τ) (c : Component) : Prop where
  inFlight : 0 < p.shared.inFlight c → p.shared.mEventOwner c = true
  uses : Stacks.HasFrame p (Stmt.Uses c) → p.shared.mEventOwner c = true
  owner : c ≠ .sender ∧ p.shared.mpOwner c = true ∧ p.shared.mEventOwner c = false →
    Stacks.HasFrame p (· = .setEventOwner c)

/-! ## Steps -/

/-- The statement that resets the owner of an event. -/
def Resets (s : Session) (c : Component) : Stmt → Prop
  | .resetEventOwner d => c = d
  | .setSendOwner => c = .sender ∧ s.mpOwner .sender = false
  | _ => False

/-- **What a statement does to a component.** -/
structure Effect (s : Session) (f : Stmt) (s' : Session) (new : List Stmt) (c : Component) :
    Prop where
  /-- The event keeps its owner, unless the statement resets it. -/
  eventOwner : s.mEventOwner c = true → ¬ Resets s c f → s'.mEventOwner c = true
  /-- Only a statement that uses the event issues an operation. -/
  inFlight : s'.inFlight c ≤ s.inFlight c ∨ f.Uses c
  /-- The event comes into use after a test of the owner, or after the sender has set it. -/
  uses : ∀ g ∈ new, g.Uses c → f.Uses c ∨
    (c = .sender ∧ f = .setSendOwner ∧ s'.mEventOwner c = s.mpOwner c) ∨
    (c ≠ .sender ∧ ∃ op, f = .testOwner op ∧ op.component = c ∧ op.passes s = true ∧
      s.mpOwner c = true)
  /-- The component gets an owner by `SetOwner`. -/
  owner : s'.mpOwner c = true → s.mpOwner c = true ∨ .setEventOwner c ∈ new
  setEventOwner : f = .setEventOwner c → s'.mEventOwner c = true

/-- No statement of the list uses the event. -/
def Idle (c : Component) (new : List Stmt) : Prop := ∀ g ∈ new, ¬ g.Uses c

theorem Idle.nil {c : Component} : Idle c [] := fun _ h => nomatch h

theorem Idle.cons {c : Component} {f : Stmt} {new : List Stmt} (hf : ¬ f.Uses c)
    (h : Idle c new) : Idle c (f :: new) := List.forall_mem_cons.2 ⟨hf, h⟩

theorem Idle.append {c : Component} {l₁ l₂ : List Stmt} (h₁ : Idle c l₁) (h₂ : Idle c l₂) :
    Idle c (l₁ ++ l₂) := List.forall_mem_append.2 ⟨h₁, h₂⟩

theorem Idle.of_clearsUp {c : Component} {new : List Stmt} (h : ∀ g ∈ new, g.ClearsUp) :
    Idle c new := by
  intro g hg
  have hclears := h g hg
  cases g <;> first | exact id | exact hclears.elim

theorem idle_clear (c d : Component) : Idle c (clear d) := .of_clearsUp (clearsUp_clear d)

theorem idle_kick (c d : Component) (reason : DisconnectReason) : Idle c (kick d reason) :=
  .of_clearsUp (clearsUp_kick d reason)

theorem idle_issueFailed (c d : Component) (errorCode : Nat) :
    Idle c (issueFailed errorCode d) := .of_clearsUp (clearsUp_issueFailed d errorCode)

theorem idle_dispatch (c d : Component) (n : Nat) : Idle c (dispatch n d) := by
  cases d with
  | connector => exact (idle_clear c _).append (.cons id .nil)
  | disconnector =>
    exact ((idle_clear c _).append (.cons id (.cons id .nil))).append
      (.of_clearsUp clearsUp_clearSession)
  | receiver | sender => exact .cons id .nil

theorem Effect.quiet {s s' : Session} {f : Stmt} {new : List Stmt} {c : Component}
    (hevent : s'.mEventOwner = s.mEventOwner) (hflight : s'.inFlight = s.inFlight)
    (howner : s'.mpOwner = s.mpOwner) (hset : f ≠ .setEventOwner c) (hnew : Idle c new) :
    Effect s f s' new c where
  eventOwner he _ := by rw [hevent, he]
  inFlight := .inl (Nat.le_of_eq (congrFun hflight c))
  uses g hg hu := absurd hu (hnew g hg)
  owner ho := .inl (by rw [← howner, ho])
  setEventOwner hf := absurd hf hset

/-- The functions that may issue an operation right after their test of the owner. -/
theorem Op.body_uses {s : Session} {op : Op} {c : Component} {g : Stmt} (hpass : op.passes s = true)
    (hg : g ∈ op.body) (hu : g.Uses c) :
    c ≠ .sender ∧ op.component = c ∧ s.mpOwner c = true := by
  cases op with
  | connectorRegister =>
    cases List.mem_singleton.1 hg
    cases (hu : c = .connector)
    exact ⟨by decide, rfl, (Bool.and_eq_true_iff.1 hpass).1⟩
  | disconnectorRegister =>
    cases List.mem_singleton.1 hg
    cases (hu : c = .disconnector)
    exact ⟨by decide, rfl, hpass⟩
  | receiverRegister =>
    cases List.mem_singleton.1 hg
    cases (hu : c = .receiver)
    exact ⟨by decide, rfl, (Bool.and_eq_true_iff.1 hpass).1⟩
  | receiverProcess n =>
    simp only [Op.body] at hg
    split at hg
    · exact absurd hu (idle_kick c _ _ g hg)
    · cases List.mem_singleton.1 hg
      exact hu.elim
  | senderSend | senderRegister =>
    cases List.mem_singleton.1 hg
    exact hu.elim
  | senderProcess n =>
    simp only [Op.body] at hg
    split at hg
    · exact absurd hu (idle_kick c _ _ g hg)
    · simp only [List.mem_cons, List.not_mem_nil, or_false] at hg
      rcases hg with rfl | rfl | rfl <;> exact hu.elim

theorem step_effect {k : Outside} {s s' : Session} {f : Stmt} {new : List Stmt}
    (h : step k s f = some (s', new)) (c : Component) : Effect s f s' new c := by
  cases f with
  | setOwner d =>
    cases h
    refine ⟨fun he _ => he, .inl (Nat.le_refl _), by simp [Stmt.Uses], fun ho => ?_, nofun⟩
    by_cases hd : c = d
    · exact .inr (hd ▸ List.mem_singleton_self _)
    · exact .inl (by simpa [hd] using ho)
  | setEventOwner d =>
    cases h
    refine ⟨fun he _ => ?_, .inl (Nat.le_refl _), fun g hg => (nomatch hg), .inl, fun hf => ?_⟩
    · simp [Function.update_apply, he]
    · cases hf
      simp
  | resetOwner d =>
    cases h
    refine ⟨fun he _ => he, .inl (Nat.le_refl _), fun g hg => (nomatch hg), fun ho => .inl ?_,
      nofun⟩
    by_cases hd : c = d
    · subst hd
      simp at ho
    · simpa [hd] using ho
  | resetEventOwner d =>
    cases h
    refine ⟨fun he hr => ?_, .inl (Nat.le_refl _), fun g hg => (nomatch hg), .inl, nofun⟩
    simpa [show c ≠ d from hr] using he
  | setSendOwner =>
    cases h
    refine ⟨fun he hr => ?_, .inl (Nat.le_refl _), fun g hg hu => ?_, .inl, nofun⟩
    · by_cases hc : c = .sender
      · subst hc
        simpa [Resets] using hr
      · simpa [hc] using he
    · cases List.mem_singleton.1 hg
      cases (hu : c = .sender)
      exact .inr (.inl ⟨rfl, rfl, by simp⟩)
  | testOwner op =>
    cases h
    refine ⟨fun he _ => he, .inl (Nat.le_refl _), fun g hg hu => ?_, .inl, nofun⟩
    split at hg <;> rename_i hpass
    · obtain ⟨hc, hop, howner⟩ := op.body_uses hpass hg hu
      exact .inr (.inr ⟨hc, op, rfl, hop, hpass, howner⟩)
    · exact absurd hu (idle_clear c _ g hg)
  | issue d =>
    simp only [step] at h
    split at h <;> obtain ⟨-, hr⟩ := follow_eq_some.1 h <;> cases hr
    · exact .quiet rfl rfl rfl nofun (idle_issueFailed c d _)
    · refine ⟨fun he _ => he, ?_, fun g hg => (nomatch hg), .inl, nofun⟩
      by_cases hd : c = d
      · exact .inr hd
      · exact .inl (by simp [hd])
  | testService =>
    simp only [step] at h
    split at h <;> cases h
    · refine ⟨fun he _ => he, .inl (Nat.le_refl _), fun g hg hu => .inl ?_, .inl, nofun⟩
      cases List.mem_singleton.1 hg
      exact hu
    · exact .quiet rfl rfl rfl nofun (idle_clear c _)
  | bindSocket =>
    obtain ⟨-, hr⟩ := follow_eq_some.1 h
    cases hr
    refine ⟨fun he _ => he, .inl (Nat.le_refl _), fun g hg hu => .inl ?_, .inl, nofun⟩
    split at hg
    · cases List.mem_singleton.1 hg
      exact hu
    · exact absurd hu (idle_clear c _ g hg)
  | testFreeSize =>
    cases h
    refine ⟨fun he _ => he, .inl (Nat.le_refl _), fun g hg hu => .inl ?_, .inl, nofun⟩
    split at hg
    · exact absurd hu (idle_kick c _ _ g hg)
    · cases List.mem_singleton.1 hg
      exact hu
  | getOwner d n =>
    cases h
    refine .quiet rfl rfl rfl nofun ?_
    split
    · exact idle_dispatch c d n
    · exact .nil
  | resetConnectorService | clearReceiveBuffer | storeRegistered | clearSendQueue | resetService
  | callback | moveWritePos | moveReadPos | getService | removeSession | managerRemoveSession
  | releaseKeepTicket =>
    cases h
    exact .quiet rfl rfl rfl nofun (by simp [Idle, Stmt.Uses])
  | ownerCallback | ownerDisconnect | ownerOnReceive | registerReap | serviceRemoveSession =>
    obtain ⟨-, hr⟩ := follow_eq_some.1 h
    cases hr
    exact .quiet rfl rfl rfl nofun (by simp [Idle, Stmt.Uses])
  | onReceive =>
    cases h
    refine .quiet rfl rfl rfl nofun ?_
    split
    · exact idle_kick c _ _
    · exact .cons id (.cons id .nil)
  | enqueue =>
    simp only [step] at h
    split at h <;> cases h
    · exact .quiet rfl rfl rfl nofun ((idle_clear c _).append (.cons id .nil))
    · exact .quiet rfl rfl rfl nofun (.cons id .nil)
  | dequeue n =>
    simp only [step] at h
    split at h <;> cases h <;> refine .quiet rfl rfl rfl nofun ?_ <;> split <;>
      simp [Idle, Stmt.Uses]
  | exchangeRegistered | testSendQueue | exchangeDisconnected | admitWaiting | admitOther =>
    cases h
    refine .quiet rfl rfl rfl nofun ?_
    split <;> simp [Idle, Stmt.Uses]
  | processConnect =>
    cases h
    exact .quiet rfl rfl rfl nofun (idle_dispatch c .connector 0)
  | swapInGame =>
    simp only [step] at h
    split at h <;> cases h <;> exact .quiet rfl rfl rfl nofun .nil
  | addSession =>
    obtain ⟨-, hr⟩ := follow_eq_some.1 h
    split at hr <;> cases hr <;> exact .quiet rfl rfl rfl nofun (.cons id .nil)
  | swapConnected | swapWaitingToConnected | swapWaiting | swapAdmitted =>
    simp only [step] at h
    split at h <;> cases h <;>
      exact .quiet rfl rfl rfl nofun (by simp [Idle, Stmt.Uses, sessionAdded, sessionFailed])

theorem enter_cases {c : Call} {s s' : Session} {fs : List Stmt} {f : Stmt}
    (h : enter c s fs = some (s', f)) :
    (s'.mEventOwner = s.mEventOwner ∧ s'.inFlight = s.inFlight ∧ s'.mpOwner = s.mpOwner ∧
      ∀ d, ¬ f.Uses d) ∨
    ∃ d n, f = .getOwner d n ∧ 0 < s.inFlight d ∧
      s' = { s with inFlight := Function.update s.inFlight d (s.inFlight d - 1) } := by
  have hapi : (api c).map (fun f => (s, f)) = some (s', f) → s'.mEventOwner = s.mEventOwner ∧
      s'.inFlight = s.inFlight ∧ s'.mpOwner = s.mpOwner ∧ ∀ d, ¬ f.Uses d := by
    intro hc
    obtain ⟨g, hg, hr⟩ := Option.map_eq_some_iff.1 hc
    cases hr
    refine ⟨rfl, rfl, rfl, fun d => ?_⟩
    cases c <;> cases hg <;> exact id
  unfold enter at h
  split at h
  · split at h
    · split at h <;> cases h
      exact .inl ⟨rfl, rfl, rfl, fun _ => id⟩
    · split at h <;> cases h
      exact .inl ⟨rfl, rfl, rfl, fun _ => id⟩
    · split at h <;> cases h
      rename_i hpos
      exact .inr ⟨_, _, rfl, hpos, rfl⟩
    · exact .inl (hapi h)
  · exact .inl (hapi h)
  · exact .inl (hapi h)
  · cases h

/-! ## Runs -/

section Run

variable [DecidableEq τ] {p : State τ} {t : τ} {c : Component}

theorem OwnerInv.call (hI : OwnerInv p c) {a : Call} {s : Session} {f : Stmt}
    (h : enter a p.shared (p.locals t) = some (s, f)) :
    OwnerInv (p.set t s (f :: p.locals t)) c := by
  obtain ⟨hevent, hflight, howner, hf⟩ | ⟨d, n, rfl, hpos, rfl⟩ := enter_cases h
  · refine ⟨?_, fun hu => ?_, Stacks.HasFrame.of_call hI.owner ?_⟩
    · rw [Threads.set_shared, hevent, hflight]
      exact hI.inFlight
    · rw [Threads.set_shared, hevent]
      exact hI.uses (hu.of_push.resolve_left (hf c))
    · rw [Threads.set_shared, hevent, howner]
      exact .inr
  · refine ⟨fun hc => ?_, fun hu => ?_, Stacks.HasFrame.of_call hI.owner .inr⟩
    · refine hI.inFlight ?_
      by_cases hd : c = d
      · exact hd ▸ hpos
      · simpa [hd] using hc
    · rcases hu.of_push with hu | hu
      · exact hI.inFlight ((hu : c = d) ▸ hpos)
      · exact hI.uses hu

omit [DecidableEq τ] in
theorem Stmt.Guarded.not_resets {f : Stmt} (hf : f.Guarded p)
    (hused : 0 < p.shared.inFlight c ∨ Stacks.HasFrame p (Stmt.Uses c)) :
    ¬ Resets p.shared c f := by
  intro hr
  cases f with
  | resetEventOwner d =>
    cases (hr : c = d)
    obtain ⟨hflight, huses, -⟩ := hf
    rcases hused with hpos | hu
    · omega
    · exact huses hu
  | setSendOwner =>
    have howner : p.shared.mpOwner .sender = true := hf
    rw [hr.2] at howner
    cases howner
  | _ => exact hr

omit [DecidableEq τ] in
theorem Stmt.Guarded.eventOwner {f : Stmt} (hf : f.Guarded p) (hc : c ≠ .sender)
    (howner : p.shared.mpOwner c = true) : ¬ Resets p.shared c f := by
  intro hr
  cases f with
  | resetEventOwner d =>
    cases (hr : c = d)
    rcases hf.2.2 with hs | hnone
    · exact hc hs
    · rw [hnone] at howner
      cases howner
  | setSendOwner => exact hc hr.1
  | _ => exact hr

theorem OwnerInv.next (hI : OwnerInv p c) {k : Outside} {f : Stmt} (hf : f.Guarded p)
    {rest new : List Stmt} (ht : p.locals t = f :: rest) {s : Session}
    (h : step k p.shared f = some (s, new)) : OwnerInv (p.set t s (new ++ rest)) c := by
  have heffect := step_effect h c
  have hmem : f ∈ p.locals t := by
    rw [ht]
    exact List.mem_cons_self
  -- an event that was used before the step keeps its owner
  have hkeep (hused : 0 < p.shared.inFlight c ∨ Stacks.HasFrame p (Stmt.Uses c)) :
      s.mEventOwner c = true :=
    heffect.eventOwner (hused.elim hI.inFlight hI.uses) (hf.not_resets hused)
  refine ⟨fun hpos => ?_, fun hu => ?_, Stacks.HasFrame.of_step hI.owner ht fun hA => ?_⟩
  · rcases heffect.inFlight with hle | hu
    · exact hkeep (.inl (Nat.lt_of_lt_of_le hpos hle))
    · exact hkeep (.inr ⟨t, f, hmem, hu⟩)
  · obtain hu | ⟨g, hg, hu⟩ := hu.of_next ht
    · exact hkeep (.inr hu)
    · obtain hu | ⟨rfl, rfl, hset⟩ | ⟨hc, op, rfl, rfl, hpass, howner⟩ := heffect.uses g hg hu
      · exact hkeep (.inr ⟨t, f, hmem, hu⟩)
      · rw [Threads.set_shared, hset]
        exact hf
      · refine heffect.eventOwner (eq_true_of_ne_false fun hnone => ?_) id
        exact hf hpass (hI.owner ⟨hc, howner, hnone⟩)
  · obtain ⟨hc, howner, hnone⟩ := hA
    rw [Threads.set_shared] at howner hnone
    rcases heffect.owner howner with howner | hset
    · refine .inr ⟨⟨hc, howner, eq_false_of_ne_true fun he => ?_⟩, fun hset => ?_⟩
      · rw [heffect.eventOwner he (hf.eventOwner hc howner)] at hnone
        cases hnone
      · rw [heffect.setEventOwner hset] at hnone
        cases hnone
    · exact .inl ⟨_, hset, rfl⟩

theorem ownerInv_of_runsTo (h : RunsTo OwnerGuard p) (c : Component) : OwnerInv p c := by
  refine Stacks.invariant (I := fun p => OwnerInv p c) ?_ (fun s t a m f hI _ ha => hI.call ha)
    (fun s t k m f rest new hI hok ht hs => hI.next ((Stacks.forall_head ht).1 hok) ht hs) h
  rintro ⟨shared, locals⟩ ⟨⟨isClient, maxCount, rfl⟩, -⟩
  exact ⟨fun _ => rfl, fun _ => rfl, fun hA => nomatch hA.2.2⟩

/-- **Every completion finds its owner**, in the runs that reset no owner of an event in use. -/
theorem ownersKept (h : RunsTo OwnerGuard p) : OwnersKept p where
  inFlight c := (ownerInv_of_runsTo h c).inFlight
  dispatched t c n ht :=
    (ownerInv_of_runsTo h c).uses ⟨t, .getOwner c n, List.mem_of_mem_head? ht, rfl⟩

end Run

/-! ## Two sessions -/

/-- Every call succeeds. -/
def agrees : Outside :=
  { wsaResult := .pending, granted := true, processLen := 0, admission := .added,
    spurious := false }

/-- The `ConnectEx` of a client session completes: its `Connector` is cleared by the thread that
dispatches the completion, which then posts the first `WSARecv`. -/
theorem ownersKept_established :
    ∃ p : State Bool, p.shared.mEventOwner .connector = false ∧ p.shared.inFlight .receiver = 1 ∧
      p.shared.mEventOwner .receiver = true := by
  have hrun : RunsTo OwnerGuard _ :=
    Machine.ReachableIf.exec
      (.thread false (.call .connect) :: List.replicate 4 (.thread false (.next agrees)) ++
        .thread true (.call (.dispatch .connector 0)) ::
          List.replicate 16 (.thread true (.next agrees)))
      (.init (s := ⟨create true 10, fun _ : Bool => []⟩) ⟨⟨true, 10, rfl⟩, fun _ => rfl⟩) ?_ rfl
  · exact ⟨_, rfl, rfl, (ownersKept hrun).inFlight .receiver (by decide)⟩
  · repeat' refine And.intro ?_ ?_
    any_goals exact trivial
    all_goals rintro f ⟨⟩
    any_goals exact trivial
    · -- no thread is in `SetOwner` when `Register` of the connector tests the owner
      rintro - ⟨t, g, hg, rfl⟩
      cases t with
      | false =>
        have hmem : Stmt.setEventOwner .connector ∈ [Stmt.testOwner .connectorRegister] := hg
        cases List.mem_singleton.1 hmem
      | true => cases hg
    · -- nothing uses the event of the connector when it is reset
      refine ⟨rfl, ?_, .inr rfl⟩
      rintro ⟨t, g, hg, huse⟩
      cases t with
      | false => cases hg
      | true =>
        have hmem : g ∈ [.resetEventOwner .connector, .getService] := hg
        rcases List.mem_pair.1 hmem with rfl | rfl <;> exact huse
    · rintro - ⟨t, g, hg, rfl⟩
      cases t with
      | false => cases hg
      | true =>
        have hmem : Stmt.setEventOwner .receiver ∈ [Stmt.testOwner .receiverRegister] := hg
        cases List.mem_singleton.1 hmem

/-- A session is accepted and posts its first `WSARecv`; then it is disconnected, and the
completion of `DisconnectEx` is dequeued before that of `WSARecv`. -/
theorem not_ownersKept :
    ∃ p : State Bool, RunsTo (fun _ _ _ => True) p ∧ ¬ OwnersKept p := by
  have hrun := Machine.Reachable.exec (M := machine Bool)
    (.thread false (.call .accepted) :: List.replicate 16 (.thread false (.next agrees)) ++
      .thread true (.call (.disconnect .clientRequest)) ::
        List.replicate 4 (.thread true (.next agrees)) ++
      .thread false (.call (.dispatch .disconnector 0)) ::
        List.replicate 16 (.thread false (.next agrees)))
    (.init (s := ⟨create false 10, fun _ : Bool => []⟩) ⟨⟨false, 10, rfl⟩, fun _ => rfl⟩) rfl
  refine ⟨_, hrun.mono fun _ a _ => ?_, fun h => ?_⟩
  · cases a <;> trivial
  · exact absurd (h.inFlight .receiver (by decide)) (by decide)

end CppNetEngine.Session
