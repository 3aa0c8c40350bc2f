import CppNetEngine.Service.Service
import CppNetEngine.Session.Session

/-!
# A session among the members

The session of `Session.machine` together with the `SessionManager` of its service: what the
statements of `AddSession`, `RemoveSession` and `admitWaitingSession` do there. The other sessions
come and go as they like (`othersChange`). How much of the session count is theirs is kept in
`others`; a slot kept for a session that waits is theirs from when it gets it.
-/

namespace CppNetEngine.Session

variable {ι : Type} [DecidableEq ι]

/-- A session, and the manager of its service. -/
structure Member (ι : Type) where
  session : Session
  manager : SessionManager ι
  /-- What the other sessions have of `mCurrentSessionCount`. -/
  others : Int

namespace Member

/-- What a statement of the session does to the session manager. -/
def manage (me : ι) (k : Outside) (s : Member ι) : Stmt → Option (SessionManager ι × Int)
  | .addSession _ =>
    let r := s.manager.addSession me
    -- `AddSession` of the service goes by what that of the manager answers
    match k.admission with
    | .added => if r.2 then some (r.1, s.others) else none
    | _ => if r.2 then none else some (r.1, s.others)
  | .removeSession => some (s.manager.removeSession me true, s.others)
  | .admitWaiting =>
    let r := s.manager.addWaitingSession me
    -- the slot was kept by the `RemoveSession` of another session
    if r.2 = k.granted then some (r.1, s.others - 1) else none
  | .managerRemoveSession => some (s.manager.removeSession me false, s.others)
  | .admitOther => some (s.manager, if k.granted then s.others + 1 else s.others)
  | .releaseKeepTicket => some (s.manager.releaseKeepTicket, s.others)
  | _ => some (s.manager, s.others)

def step (me : ι) (k : Outside) (s : Member ι) (f : Stmt) : Option (Member ι × List Stmt) :=
  (Session.step k s.session f).bind fun r =>
    (s.manage me k f).map fun m => (⟨r.1, m.1, m.2⟩, r.2)

def enter (c : Call) (s : Member ι) (fs : List Stmt) : Option (Member ι × Stmt) :=
  (Session.enter c s.session fs).map fun r => ({ s with session := r.1 }, r.2)

/-- The other sessions change the manager, but not whether this one is a member. -/
def othersChange (me : ι) (m : SessionManager ι) (s : Member ι) : Option (Member ι) :=
  if me ∈ m.mSessions ↔ me ∈ s.manager.mSessions then
    some { s with
      manager := m
      others := s.others + (m.mCurrentSessionCount - s.manager.mCurrentSessionCount) }
  else none

/-- The session has just been created, and is not a member yet. -/
def Created (me : ι) (s : Member ι) : Prop :=
  (∃ isClient maxCount, s.session = create isClient maxCount) ∧ me ∉ s.manager.mSessions ∧
    s.manager.mCurrentSessionCount = s.others

/-- Threads that use a session, while other sessions come and go. -/
abbrev machine (me : ι) (τ : Type) [DecidableEq τ] :
    Machine (Threads τ (List Stmt) (Member ι))
      (ThreadAction τ (StackAction Call Outside) (SessionManager ι)) :=
  Threads.machine (Stacks.act enter fun _ k s f => step me k s f) (othersChange me)
    fun p => Created me p.shared ∧ ∀ t, p.locals t = []

/-- The states of the runs in which every action of a thread meets `ok`. -/
abbrev RunsTo (me : ι) {τ : Type} [DecidableEq τ]
    (ok : Threads τ (List Stmt) (Member ι) → τ → StackAction Call Outside → Prop) :
    Threads τ (List Stmt) (Member ι) → Prop :=
  (machine me τ).ReachableIf (Threads.Guard ok fun _ _ => True)

theorem step_eq_some {me : ι} {k : Outside} {s s' : Member ι} {f : Stmt} {new : List Stmt}
    (h : s.step me k f = some (s', new)) :
    Session.step k s.session f = some (s'.session, new) ∧
      s.manage me k f = some (s'.manager, s'.others) := by
  obtain ⟨⟨session, new'⟩, hstep, hrest⟩ := Option.bind_eq_some_iff.1 h
  obtain ⟨⟨manager, others⟩, hmanage, hs⟩ := Option.map_eq_some_iff.1 hrest
  cases hs
  exact ⟨hstep, hmanage⟩

omit [DecidableEq ι] in
theorem enter_eq_some {c : Call} {s s' : Member ι} {fs : List Stmt} {f : Stmt}
    (h : s.enter c fs = some (s', f)) :
    Session.enter c s.session fs = some (s'.session, f) ∧ s'.manager = s.manager ∧
      s'.others = s.others := by
  obtain ⟨⟨session, f'⟩, henter, hs⟩ := Option.map_eq_some_iff.1 h
  cases hs
  exact ⟨henter, rfl, rfl⟩

end Member

end CppNetEngine.Session
