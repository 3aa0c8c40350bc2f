import CppNetEngine.Session.Proof.Disconnection
import CppNetEngine.Session.Reaper

/-!
# The reaper and `Clear`

`ReapSession` holds the session, not its service: `Clear` resets `mpService` whatever the reaper
does. It is reset before the expiry test, or between the test and `registerReap`, or not at all
while the reaper needs it, so those two are all that can go wrong (`serviced_iff`). `not_serviced`
is a run in which `processDisconnect` clears the session between the test and `registerReap`.
-/

namespace CppNetEngine.Session

theorem step_mpService {k : Outside} {s s' : Session} {f : Stmt} {new : List Stmt}
    (h : step k s f = some (s', new)) : f = .resetService ∨ s'.mpService = s.mpService := by
  refine (step_progress h).service.imp_left fun hended => ?_
  unfold seen at hended
  split at hended
  case h_10 => rfl
  all_goals first | (split at hended <;> simp at hended) | simp at hended

theorem enter_mpService {c : Call} {s s' : Session} {fs : List Stmt} {f : Stmt}
    (h : enter c s fs = some (s', f)) : s'.mpService = s.mpService := by
  obtain ⟨-, -, -, -, -, hservice⟩ | ⟨d, n, -, -, rfl⟩ := enter_plain h
  · exact hservice
  · rfl

namespace Reaped

/-- `ReapSession` will call `registerReap`. -/
def Frame.Rearms : Frame → Prop
  | .registerReap => True
  | _ => False

/-- The service of a session that a reaper will arm again is not null. -/
def Serviced {τ : Type} (p : State τ) : Prop :=
  Stacks.HasFrame p Frame.Rearms → p.shared.session.mpService = true

/-- The session that a reaper finds not expired has its service, and the service is not reset while
a reaper will arm the session again. -/
def Frame.Guarded {τ : Type} (p : State τ) (k : Answer) : Frame → Prop
  | .testExpired => k.expired = false → p.shared.session.mpService = true
  | .session .resetService => ¬ Stacks.HasFrame p Frame.Rearms
  | _ => True

/-- The condition on the actions of a run. -/
def ReapGuard {τ : Type} (p : State τ) (t : τ) : StackAction Call Answer → Prop
  | .call _ => True
  | .next k => ∀ f ∈ (p.locals t).head?, f.Guarded p k

instance : DecidablePred Frame.Rearms
  | .registerReap => .isTrue trivial
  | .session _ | .lock | .testExpired => .isFalse id

instance {τ : Type} [Fintype τ] (p : State τ) (k : Answer) (f : Frame) :
    Decidable (f.Guarded p k) := by
  unfold Frame.Guarded
  split <;> infer_instance

instance {τ : Type} [Fintype τ] (p : State τ) (t : τ) : ∀ a, Decidable (ReapGuard p t a)
  | .call _ => .isTrue trivial
  | .next k => inferInstanceAs (Decidable (∀ f ∈ (p.locals t).head?, f.Guarded p k))

theorem not_rearms_session {new : List Stmt} : ∀ g ∈ new.map Frame.session, ¬ g.Rearms := by
  intro g hg
  obtain ⟨f, -, rfl⟩ := List.mem_map.1 hg
  exact id

section Run

variable {τ : Type} [DecidableEq τ] {p : State τ} {t : τ}

theorem Serviced.call (hI : Serviced p) {c : Call} {s : Reaped} {f : Frame}
    (h : enter c p.shared (p.locals t) = some (s, f)) :
    Serviced (p.set t s (f :: p.locals t)) := by
  have hsame : s.session.mpService = p.shared.session.mpService ∧ ¬ f.Rearms := by
    cases c with
    | session c =>
      obtain ⟨l, -, hrest⟩ := Option.bind_eq_some_iff.1 h
      obtain ⟨r, hr, he⟩ := Option.map_eq_some_iff.1 hrest
      cases he
      exact ⟨enter_mpService hr, id⟩
    | reapSession =>
      simp only [enter] at h
      split at h
      · cases h
        exact ⟨rfl, id⟩
      · cases h
  intro hframe
  rw [Stacks.HasFrame.push_iff hsame.2] at hframe
  rw [Threads.set_shared, hsame.1]
  exact hI hframe

theorem Serviced.next (hI : Serviced p) {k : Answer} (hok : ReapGuard p t (.next k)) {f : Frame}
    {rest new : List Frame} (ht : p.locals t = f :: rest) {s : Reaped}
    (h : step k p.shared f = some (s, new)) : Serviced (p.set t s (new ++ rest)) := by
  have hguard : f.Guarded p k := (Stacks.forall_head ht).1 hok
  intro hframe
  rw [Threads.set_shared]
  cases f with
  | session f =>
    obtain ⟨⟨s', new'⟩, hstep, he⟩ := Option.map_eq_some_iff.1 h
    cases he
    have hbefore := (Stacks.HasFrame.next_iff ht id not_rearms_session).1 hframe
    rcases step_mpService hstep with rfl | hservice
    · exact absurd hbefore hguard
    · exact hservice.trans (hI hbefore)
  | lock =>
    cases h
    refine hI ((Stacks.HasFrame.next_iff ht id ?_).1 hframe)
    split <;> simp [Frame.Rearms]
  | testExpired =>
    cases h
    cases hexpired : k.expired
    · exact hguard hexpired
    · refine hI ((Stacks.HasFrame.next_iff ht id ?_).1 hframe)
      simp [hexpired, Frame.Rearms]
  | registerReap =>
    simp only [step] at h
    split at h <;> rename_i hservice <;> cases h
    exact hservice

/-- What the condition excludes is what goes wrong. -/
theorem not_serviced_of_not_guard {a : StackAction Call Answer}
    (hno : ¬ ReapGuard p t a) {s : Reaped} {fs : List Frame}
    (h : Stacks.act enter (fun _ k s f => step k s f) t a p.shared (p.locals t) = some (s, fs)) :
    ¬ Serviced (p.set t s fs) := by
  obtain ⟨c, f, rfl, -, -⟩ | ⟨k, f, rest, new, rfl, ht, hstep, rfl⟩ := Stacks.act_cases h
  · exact absurd trivial hno
  have hbad : ¬ f.Guarded p k := fun hf => hno ((Stacks.forall_head ht).2 hf)
  intro hserviced
  unfold Frame.Guarded at hbad
  split at hbad
  · -- the reaper goes on without a service
    cases hstep
    obtain ⟨hexpired, hnull⟩ := Classical.not_imp.1 hbad
    refine hnull (hserviced ⟨t, .registerReap, ?_, trivial⟩)
    rw [Threads.set_self, hexpired]
    exact List.mem_cons_self
  · -- the service is reset before the reaper's next statement
    cases hstep
    have hframe := Classical.not_not.1 hbad
    exact Bool.false_ne_true (hserviced ((hframe.next ht).resolve_left id))
  · exact hbad trivial

end Run

/-- **When the reaper only acts on sessions with a service**: a run follows no null service in
`ReapSession` if and only if no reaper finds a session without service not expired, and no `Clear`
resets the service of a session that a reaper will arm again. -/
theorem serviced_iff {τ : Type} [DecidableEq τ] {p p' : State τ}
    {as : List (ThreadAction τ (StackAction Call Answer) Empty)} (hinit : (machine τ).init p)
    (hexec : (machine τ).exec p as = some p') :
    (machine τ).Always Serviced p as ↔
      (machine τ).Allowed (Threads.Guard ReapGuard fun _ _ => True) p as := by
  have hstart : Serviced p := by
    obtain ⟨⟨isClient, maxCount, hshared⟩, -⟩ := hinit
    intro _
    rw [hshared]
    rfl
  exact Stacks.always_iff (fun _ => id) (fun s t c m f hI _ hc => hI.call hc)
    (fun s t k m f rest new hI hok ht hk => hI.next hok ht hk) (fun _ e => e.elim)
    (fun s t a m fs _ hno hact => not_serviced_of_not_guard hno hact) as hstart hexec

/-! ## Two reapers -/

/-- The answers while a session is not expired. -/
def active : Answer := ⟨agrees, true, false⟩

/-- A session is accepted, which posts its first `WSARecv` and a job for the reaper. -/
def accepts : List (ThreadAction Bool (StackAction Call Answer) Empty) :=
  .thread false (.call (.session .accepted)) :: List.replicate 16 (.thread false (.next active))

/-- The job is run, up to the test of the session. -/
def locksAndTests : List (ThreadAction Bool (StackAction Call Answer) Empty) :=
  .thread true (.call .reapSession) :: List.replicate 2 (.thread true (.next active))

/-- A session that has been accepted is armed again. -/
theorem serviced_iff_active : ∃ (as : _) (p p' : State Bool),
    (machine Bool).exec p as = some p' ∧ p'.shared.reaps = 1 ∧
      (machine Bool).Always Serviced p as := by
  let as := accepts ++ locksAndTests ++ [.thread true (.next active)]
  have hinit : (machine Bool).init ⟨⟨create false 10, 0⟩, fun _ => []⟩ :=
    ⟨⟨false, 10, rfl⟩, fun _ => rfl⟩
  have hexec : (machine Bool).exec ⟨⟨create false 10, 0⟩, fun _ => []⟩ as = some _ := rfl
  exact ⟨as, _, _, hexec, rfl, (serviced_iff hinit hexec).2 (by decide +kernel)⟩

/-- A session is accepted, and the reaper finds it not expired. Then it is disconnected, and the
thread that has dequeued its `DisconnectEx` clears it; the reaper's next statement follows a null
pointer. -/
theorem not_serviced : ∃ p : State Bool, (machine Bool).Reachable p ∧
    p.locals true = [.registerReap] ∧ p.shared.session.mpService = false ∧
      step active p.shared .registerReap = none := by
  have hrun := Machine.Reachable.exec (M := machine Bool)
    (accepts ++ locksAndTests ++ .thread false (.call (.session (.disconnect .clientRequest))) ::
      List.replicate 4 (.thread false (.next active)) ++
      .thread false (.call (.session (.dispatch .disconnector 0))) ::
      List.replicate 9 (.thread false (.next active)))
    (.init (s := ⟨⟨create false 10, 0⟩, fun _ => []⟩) ⟨⟨false, 10, rfl⟩, fun _ => rfl⟩) rfl
  exact ⟨_, hrun, rfl, rfl, rfl⟩

end Reaped

end CppNetEngine.Session
