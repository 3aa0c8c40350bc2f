import CppNetEngine.Session.Client
import CppNetEngine.Session.Proof.Admission
import CppNetEngine.Session.Proof.Disconnection
import CppNetEngine.Session.Proof.Released

/-!
# Connections that failed

Nothing of what `GetQueuedCompletionStatus` returned gets to `processConnect`, so a session whose
`ConnectEx` failed is handed to `AddSession` like any other, and joins if the `SessionManager` has
room. It is kept out exactly when the manager is full (`established_iff`). `not_established` is a
failed `ConnectEx` of the first session of a service.
-/

namespace CppNetEngine.Session

variable {ι τ : Type} [DecidableEq ι] {me : ι}

def Stmt.CallsOnConnected : Stmt → Prop
  | .callback .onConnected => True
  | _ => False

theorem Stmt.CallsOnConnected.joins {f : Stmt} (h : f.CallsOnConnected) : f.Joins := by
  unfold CallsOnConnected at h
  split at h
  · trivial
  · exact h.elim

namespace Client

/-- The session is connected, has `OnConnected` called and is a member only if its `ConnectEx`
completed successfully. -/
def OnlyEstablished (me : ι) (p : State ι τ) : Prop :=
  p.shared.established = true ∨
    (p.shared.member.session.mSessionState ≠ .connected ∧
      ¬ Stacks.HasFrame p Stmt.CallsOnConnected ∧ me ∉ p.shared.member.manager.mSessions)

/-- Before a `ConnectEx` has completed successfully, the manager has no room for the session. -/
def Refuses (s : Client ι) : Stmt → Prop
  | .addSession _ => s.established = true ∨
      s.member.manager.mMaxSessionCount ≤ s.member.manager.mCurrentSessionCount
  | _ => True

/-- The condition on the actions of a run. -/
def ConnectGuard (p : State ι τ) (t : τ) : StackAction Call Outside → Prop
  | .call _ => True
  | .next _ => ∀ f ∈ (p.locals t).head?, Refuses p.shared f

instance (s : Client ι) (f : Stmt) : Decidable (Refuses s f) := by
  unfold Refuses
  split <;> infer_instance

instance (p : State ι τ) (t : τ) : ∀ a, Decidable (ConnectGuard p t a)
  | .call _ => .isTrue trivial
  | .next _ => inferInstanceAs (Decidable (∀ f ∈ (p.locals t).head?, Refuses p.shared f))

/-! ## The invariant -/

/-- A session that has nothing to do with the manager. -/
structure Outsider (me : ι) (p : State ι τ) : Prop where
  state : p.shared.member.session.mSessionState = .disconnected
  notMem : me ∉ p.shared.member.manager.mSessions
  notWaiting : p.shared.member.session.inWaitQueue = false
  joins : ¬ Stacks.HasFrame p Stmt.Joins

/-- What holds in all runs that meet the condition. -/
def ClientInv (me : ι) (p : State ι τ) : Prop := p.shared.established = true ∨ Outsider me p

omit [DecidableEq ι] in
theorem ClientInv.onlyEstablished {p : State ι τ} (h : ClientInv me p) : OnlyEstablished me p := by
  refine h.imp_right fun hout =>
    ⟨?_, fun hframe => hout.joins (hframe.imp fun _ => ?_), hout.notMem⟩
  · rw [hout.state]
    decide
  · exact Stmt.CallsOnConnected.joins

/-- What `AddSession` of the manager answers is what the service goes by. -/
theorem added_of_manage {k : Outside} {s : Member ι} {pService : Bool}
    {m : SessionManager ι × Int} (h : s.manage me k (.addSession pService) = some m) :
    k.admission = .added ↔ (s.manager.addSession me).2 = true := by
  simp only [Member.manage] at h
  split at h <;> rename_i hadmission <;> split at h <;> cases h
  · exact ⟨fun _ => by assumption, fun _ => hadmission⟩
  · exact ⟨fun hadded => absurd hadded hadmission, fun htrue => absurd htrue (by assumption)⟩

theorem step_eq_some {k : Outside} {s s' : Client ι} {f : Stmt} {new : List Stmt}
    (h : s.step me k f = some (s', new)) :
    noWaitQueue k f = true ∧ s.member.step me k f = some (s'.member, new) ∧
      s'.established = s.established := by
  unfold step at h
  split at h
  · obtain ⟨r, hr, he⟩ := Option.map_eq_some_iff.1 h
    cases he
    exact ⟨by assumption, hr, rfl⟩
  · cases h

section Run

variable [DecidableEq τ] {p : State ι τ} {t : τ}

omit [DecidableEq ι] in
theorem ClientInv.call (hI : ClientInv me p) {c : Call} {s : Client ι} {f : Stmt}
    (h : p.shared.enter c (p.locals t) = some (s, f)) :
    ClientInv me (p.set t s (f :: p.locals t)) := by
  obtain ⟨⟨member, f'⟩, henter, he⟩ := Option.map_eq_some_iff.1 h
  cases he
  obtain ⟨hsession, hmanager, -⟩ := Member.enter_eq_some henter
  have hentered := enter_admission hsession
  rcases hI with hestablished | hout
  · refine .inl ?_
    simp only [Threads.set_shared, handleError]
    split
    · rw [hestablished, Bool.true_or]
    · exact hestablished
  · refine .inr ?_
    obtain ⟨hwaiting, hjoins⟩ := hentered.joins.resolve_right (by rw [hout.notWaiting]; decide)
    refine ⟨hentered.state.trans hout.state, ?_, hwaiting.trans hout.notWaiting, ?_⟩
    · show me ∉ member.manager.mSessions
      rw [hmanager]
      exact hout.notMem
    · rw [Stacks.HasFrame.push_iff hjoins]
      exact hout.joins

theorem ClientInv.next (hI : ClientInv me p) {k : Outside} (hok : ConnectGuard p t (.next k))
    {f : Stmt} {rest new : List Stmt} (ht : p.locals t = f :: rest) {s : Client ι}
    (h : p.shared.step me k f = some (s, new)) : ClientInv me (p.set t s (new ++ rest)) := by
  have hrefuses : Refuses p.shared f := (Stacks.forall_head ht).1 hok
  obtain ⟨hqueue, hmember, hestablished⟩ := step_eq_some h
  obtain ⟨hstep, hmanage⟩ := Member.step_eq_some hmember
  rcases hI with hI | hout
  · exact .inl (hestablished.trans hI)
  by_cases hnow : p.shared.established = true
  · exact .inl (hestablished.trans hnow)
  have hjoins : ¬ f.Joins := fun hf => hout.joins (.of_innermost ht hf)
  -- the manager has refused the session, so it is not added
  have hadded : ¬ ∃ pService, f = .addSession pService ∧ k.admission = .added := by
    rintro ⟨pService, rfl, hadmission⟩
    have hfull := p.shared.member.manager.addSession_full me (Or.resolve_left hrefuses hnow)
    rw [(added_of_manage hmanage).1 hadmission] at hfull
    cases hfull
  refine .inr ⟨?_, fun hmem => ?_, ?_, fun hframe => ?_⟩
  · refine (step_disconnected hout.state ?_ hstep).1
    rintro rfl
    exact hjoins trivial
  · obtain ⟨hbefore, -⟩ | hnew | ⟨rfl, -⟩ := Member.manage_mem hmanage hmem
    · exact hout.notMem hbefore
    · exact hadded hnew
    · exact hjoins trivial
  · rcases (step_kept hstep).inWaitQueue with ⟨pService, rfl⟩ | hsame
    · obtain ⟨-, hr⟩ := follow_eq_some.1 hstep
      simp only [noWaitQueue] at hqueue
      cases hadmission : k.admission with
      | added => exact absurd ⟨pService, rfl, hadmission⟩ hadded
      | entered myTicket =>
        rw [hadmission] at hqueue
        cases hqueue
      | refused =>
        rw [hadmission] at hr
        have hsame : s.member.session = p.shared.member.session := (congrArg Prod.fst hr).symm
        rw [Threads.set_shared, hsame]
        exact hout.notWaiting
    · exact hsame.trans hout.notWaiting
  · rcases hframe.of_next ht with hframe | ⟨g, hg, hgjoins⟩
    · exact hout.joins hframe
    · rcases step_joins hout.state hjoins hstep with hnone | hnew
      · exact hnone g hg hgjoins
      · exact hadded hnew

omit [DecidableEq τ] in
theorem ClientInv.othersChange (hI : ClientInv me p) {m : SessionManager ι} {s : Client ι}
    (h : p.shared.othersChange me m = some s) : ClientInv me { p with shared := s } := by
  obtain ⟨member, hmember, rfl⟩ := Option.map_eq_some_iff.1 h
  unfold Member.othersChange at hmember
  split at hmember <;> rename_i hsame <;> cases hmember
  refine hI.imp_right fun hout => ⟨hout.state, ?_, hout.notWaiting, hout.joins⟩
  exact fun hmem => hout.notMem (hsame.1 hmem)

/-- What the condition excludes is what goes wrong. -/
theorem ClientInv.not_onlyEstablished (hI : ClientInv me p) {a : StackAction Call Outside}
    (hno : ¬ ConnectGuard p t a) {s : Client ι} {fs : List Stmt}
    (h : Stacks.act enter (fun _ k s f => step me k s f) t a p.shared (p.locals t) = some (s, fs)) :
    ¬ OnlyEstablished me (p.set t s fs) := by
  obtain ⟨c, f, rfl, -, -⟩ | ⟨k, f, rest, new, rfl, ht, hstep, rfl⟩ := Stacks.act_cases h
  · exact absurd trivial hno
  have hbad : ¬ Refuses p.shared f := fun hf => hno ((Stacks.forall_head ht).2 hf)
  obtain ⟨-, hmember, hestablished⟩ := step_eq_some hstep
  obtain ⟨-, hmanage⟩ := Member.step_eq_some hmember
  unfold Refuses at hbad
  split at hbad
  · rename_i pService
    obtain ⟨hnot, hroom⟩ := not_or.1 hbad
    have hnotMem := (hI.resolve_left hnot).notMem
    obtain ⟨hadds, hmem⟩ := p.shared.member.manager.addSession_room me hroom hnotMem
    have hadmission := (added_of_manage hmanage).2 hadds
    simp only [Member.manage, hadmission, if_pos hadds] at hmanage
    rintro (hnow | ⟨-, -, hapart⟩)
    · exact hnot (hestablished.symm.trans hnow)
    · have hmanager : s.member.manager = (p.shared.member.manager.addSession me).1 :=
        (congrArg Prod.fst (Option.some.inj hmanage)).symm
      refine hapart ?_
      rw [Threads.set_shared, hmanager]
      exact hmem
  · exact absurd trivial hbad

/-- **When only established connections become sessions**: a session of a client service without a
successful `ConnectEx` never joins in a run if and only if the manager is full whenever `AddSession`
is called for it before a `ConnectEx` has completed successfully. -/
theorem established_iff {p' : State ι τ}
    {as : List (ThreadAction τ (StackAction Call Outside) (SessionManager ι))}
    (hinit : (machine me τ).init p) (hexec : (machine me τ).exec p as = some p') :
    (machine me τ).Always (OnlyEstablished me) p as ↔
      (machine me τ).Allowed (Threads.Guard ConnectGuard fun _ _ => True) p as := by
  have hstart : ClientInv me p := by
    obtain ⟨⟨⟨⟨isClient, maxCount, hsession⟩, hnotMem, -⟩, -⟩, hidle⟩ := hinit
    refine .inr ⟨by rw [hsession]; rfl, hnotMem, by rw [hsession]; rfl, ?_⟩
    exact Stacks.HasFrame.not_of_idle hidle
  exact Stacks.always_iff (fun _ hI => hI.onlyEstablished) (fun s t c m f hI _ hc => hI.call hc)
    (fun s t k m f rest new hI hok ht hk => hI.next hok ht hk)
    (fun s m s' hI henv => hI.othersChange henv)
    (fun s t a m fs hI hno hact => hI.not_onlyEstablished hno hact) as hstart hexec

end Run

/-! ## Two clients -/

/-- A client session that has just been created, in a service with room for it. -/
def alone : State Unit Unit := ⟨⟨⟨create true 10, ⟨1, 0, ∅⟩, 0⟩, false, 0⟩, fun _ => []⟩

theorem alone_init : (machine () Unit).init alone :=
  ⟨⟨⟨⟨true, 10, rfl⟩, by decide, rfl⟩, rfl, rfl, rfl⟩, fun _ => rfl⟩

/-- The session calls `ConnectEx`, whose completion is dispatched, and is handed to `AddSession`. -/
def connects (gqcsRet : Bool) :
    List (ThreadAction Unit (StackAction Call Outside) (SessionManager Unit)) :=
  .thread () (.call ⟨.connect, true⟩) :: List.replicate 4 (.thread () (.next agrees)) ++
    .thread () (.call ⟨.dispatch .connector 0, gqcsRet⟩) ::
    List.replicate 11 (.thread () (.next agrees))

/-- A session that is connected after its `ConnectEx` completed successfully. -/
theorem established_iff_success : ∃ p', (machine () Unit).exec alone (connects true) = some p' ∧
    p'.shared.member.session.mSessionState = .connected ∧
      (machine () Unit).Always (OnlyEstablished ()) alone (connects true) := by
  have hexec : (machine () Unit).exec alone (connects true) = some _ := rfl
  exact ⟨_, hexec, rfl, (established_iff alone_init hexec).2 (by decide +kernel)⟩

/-- The peer refuses the connection: `mpOnHandleError` is called, and the session is connected. -/
theorem not_established : ∃ p', (machine () Unit).exec alone (connects false) = some p' ∧
    p'.shared.established = false ∧ p'.shared.handledErrors = 1 ∧
      p'.shared.member.session.mSessionState = .connected ∧
      () ∈ p'.shared.member.manager.mSessions ∧
      p'.locals () = .callback .onConnected :: sessionAdded ∧ ¬ OnlyEstablished () p' := by
  refine ⟨_, rfl, rfl, rfl, rfl, by decide, rfl, ?_⟩
  rintro (hestablished | ⟨hstate, -⟩)
  · cases hestablished
  · exact hstate rfl

end Client

end CppNetEngine.Session
