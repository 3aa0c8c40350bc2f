import CppNetEngine.Session.Proof.Duties
import CppNetEngine.Session.Proof.Owners

/-!
# Disconnection

`exchange(Disconnected)` makes one of the calls of `Disconnect` the one that goes on. If
`setSessionConnected` is attempted at most once, the state changes to `Disconnected` at most once;
until then nobody clears the disconnector, so the completion of its `DisconnectEx` finds the owner
of the event, and the session its service (`disconnected_once`).
-/

namespace CppNetEngine.Session

variable {τ : Type}

/-! ## Until the disconnector is cleared -/

/-- `1` in the states from which a session can be disconnected. -/
def live (s : Session) : Nat := if s.mSessionState = .disconnected then 0 else 1

/-- The disconnector has begun to be cleared. -/
def Cleared (l : List Event) : Prop := .cleared ∈ l ∨ .failed ∈ l ∨ .processed ∈ l

def Stmt.Clears : Stmt → Prop
  | .resetOwner .disconnector | .resetEventOwner .disconnector => True
  | _ => False

/-- The service is still needed by statements that come before those that reset it. -/
def RemovesFirst : List Stmt → Prop
  | [] => True
  | f :: fs => (f = .serviceRemoveSession → .resetService ∈ fs) ∧ RemovesFirst fs

theorem RemovesFirst.append {fs rest : List Stmt} (h : RemovesFirst fs)
    (hrest : RemovesFirst rest) : RemovesFirst (fs ++ rest) := by
  induction fs with
  | nil => exact hrest
  | cons f fs ih => exact ⟨fun hf => List.mem_append_left _ (h.1 hf), ih h.2⟩

theorem RemovesFirst.of_ne {fs : List Stmt} (h : ∀ f ∈ fs, f ≠ .serviceRemoveSession) :
    RemovesFirst fs := by
  induction fs with
  | nil => trivial
  | cons f fs ih =>
    obtain ⟨hf, hfs⟩ := List.forall_mem_cons.1 h
    exact ⟨fun he => absurd he hf, ih hfs⟩

/-- **What a statement does** to the state, the owners and the service. -/
structure Progress (s : Session) (e : List Event) (f : Stmt) (s' : Session) (new : List Stmt) :
    Prop where
  /-- A session is disconnected once for every time it is connected. -/
  changed : e.countP Duty.registerDisconnect.due + live s' ≤ e.count .admission + live s
  /-- The disconnector keeps its owners until it is cleared. -/
  owners : Cleared e ∨ f.Clears ∨
    ((s.mpOwner .disconnector = true → s'.mpOwner .disconnector = true) ∧
      (s.mEventOwner .disconnector = true → s'.mEventOwner .disconnector = true) ∧
      ∀ g ∈ new, ¬ g.Clears)
  service : .ended ∈ e ∨ s'.mpService = s.mpService
  removesFirst : RemovesFirst new

/-- A statement that touches neither the state, nor the owners, nor the service. -/
theorem Progress.same {s : Session} {e : List Event} {f : Stmt} {new : List Stmt}
    (he : e.countP Duty.registerDisconnect.due = 0) (hnew : ∀ g ∈ new, ¬ g.Clears)
    (hremoves : ∀ g ∈ new, g ≠ .serviceRemoveSession) : Progress s e f s new where
  changed := by omega
  owners := .inr (.inr ⟨id, id, hnew⟩)
  service := .inr rfl
  removesFirst := .of_ne hremoves

theorem Stmt.Plain.not_clears {f : Stmt} (h : f.Plain) : ¬ f.Clears := by
  intro hc
  cases f with
  | resetOwner c | resetEventOwner c => cases c <;> first | exact hc | exact h
  | _ => exact hc

theorem Stmt.Plain.ne_serviceRemoveSession {f : Stmt} (h : f.Plain) :
    f ≠ .serviceRemoveSession := by
  rintro rfl
  exact h

theorem step_progress {k : Outside} {s s' : Session} {f : Stmt} {new : List Stmt}
    (h : step k s f = some (s', new)) : Progress s (seen s k f) f s' new := by
  by_cases hquiet : f.Plain ∧ ¬ f.Begins
  · have hq := hquiet.1.quiet hquiet.2 h
    refine ⟨?_, .inr (.inr ⟨hq.owner, hq.eventOwner, fun g hg => (hq.new g hg).not_clears⟩),
      .inr hq.service, .of_ne fun g hg => (hq.new g hg).ne_serviceRemoveSession⟩
    rw [hq.seen]
    simp [live, hq.state]
  cases f with
  | exchangeDisconnected reason =>
    cases h
    refine ⟨?_, .inr (.inr ⟨id, id, ?_⟩), .inr rfl, .of_ne ?_⟩
    · simp only [seen]
      split <;> rename_i hstate <;> simp [live, hstate, Duty.due, List.countP_cons]
    · split <;> simp [Stmt.Clears]
    · split <;> simp
  | swapConnected =>
    simp only [step] at h
    split at h <;> cases h
    · refine ⟨?_, .inr (.inr ⟨id, id, ?_⟩), .inr rfl, .of_ne ?_⟩
      · simp [seen, live, Duty.due]
      · simp [sessionAdded, Stmt.Clears]
      · simp [sessionAdded]
    · exact .same rfl (by simp [Stmt.Clears]) (by simp)
  | swapWaitingToConnected =>
    simp only [step] at h
    split at h <;> rename_i hswaps <;> cases h
    · refine ⟨?_, .inr (.inr ⟨id, id, ?_⟩), .inr rfl, .of_ne ?_⟩
      · simp [seen, hswaps, live, of_swaps hswaps, StateSwap.expected]
      · simp [sessionAdded, Stmt.Clears]
      · simp [sessionAdded]
    · refine .same ?_ (by simp [sessionFailed, Stmt.Clears]) (by simp [sessionFailed])
      simp [seen, hswaps, Duty.due]
  | testOwner op =>
    cases op with
    | disconnectorRegister =>
      cases h
      cases howner : s.mpOwner .disconnector
      · refine ⟨?_, .inl (.inl ?_), .inr rfl, .of_ne ?_⟩
        · simp [seen, howner, Duty.due]
        · simp [seen, howner]
        · simp [Op.passes, howner, Op.component, clear]
      · refine .same ?_ ?_ ?_
        · simp [seen, howner, Duty.due]
        · simp [Op.passes, howner, Op.body, Stmt.Clears]
        · simp [Op.passes, howner, Op.body]
    | _ => exact absurd ⟨trivial, id⟩ hquiet
  | issue c =>
    cases c with
    | disconnector =>
      simp only [step] at h
      cases hwsa : k.wsaResult with
      | error errorCode =>
        simp only [hwsa] at h
        obtain ⟨-, hr⟩ := follow_eq_some.1 h
        cases hr
        refine ⟨?_, .inl (.inr (.inl ?_)), .inr rfl, .of_ne ?_⟩
        · simp [seen, hwsa, Duty.due]
        · simp [seen, hwsa]
        · simp [issueFailed, clear]
      | ok | pending =>
        simp only [hwsa] at h
        obtain ⟨-, hr⟩ := follow_eq_some.1 h
        cases hr
        refine ⟨?_, .inr (.inr ⟨id, id, by simp⟩), .inr rfl, .of_ne (by simp)⟩
        simp [seen, hwsa, Duty.due, live]
    | _ => exact absurd ⟨trivial, id⟩ hquiet
  | getOwner c n =>
    cases c with
    | disconnector =>
      cases h
      cases hevent : s.mEventOwner .disconnector
      · exact .same (by simp [seen, hevent, Duty.due]) (by simp) (by simp)
      · refine ⟨?_, .inl (.inr (.inr ?_)), .inr rfl, ?_⟩
        · simp [seen, hevent, Duty.due]
        · simp [seen, hevent]
        · simp [dispatch, processDisconnect, clearSession, clear, RemovesFirst]
    | _ => exact absurd ⟨trivial, id⟩ hquiet
  | callback callback =>
    cases h
    cases callback with
    | onDisconnecting reason | onDisconnected => exact .same rfl (by simp) (by simp)
    | _ => exact absurd ⟨trivial, id⟩ hquiet
  | ownerCallback c callback =>
    obtain ⟨-, hr⟩ := follow_eq_some.1 h
    cases hr
    exact .same rfl (by simp [Stmt.Clears]) (by simp)
  | serviceRemoveSession =>
    obtain ⟨-, hr⟩ := follow_eq_some.1 h
    cases hr
    exact .same rfl (by simp [Stmt.Clears]) (by simp)
  | removeSession =>
    cases h
    exact .same rfl (by simp [Stmt.Clears]) (by simp)
  | resetService =>
    cases h
    exact ⟨by simp [seen, live, Duty.due], .inr (.inr ⟨id, id, by simp⟩),
      .inl List.mem_cons_self, trivial⟩
  | resetOwner c | resetEventOwner c =>
    cases c with
    | disconnector =>
      cases h
      exact ⟨by simp [seen, live], .inr (.inl trivial), .inr rfl, trivial⟩
    | _ => exact absurd ⟨trivial, id⟩ hquiet
  | _ => exact absurd ⟨trivial, id⟩ hquiet

theorem live_eq_zero {s : Session} : live s = 0 ↔ s.mSessionState = .disconnected := by
  unfold live
  split <;> simp [*]

theorem count_admission {s : Session} {k : Outside} {f : Stmt} (hf : f ≠ .swapConnected) :
    (seen s k f).count .admission = 0 := by
  refine List.count_eq_zero.2 fun hmem => ?_
  unfold seen at hmem
  split at hmem
  · exact hf rfl
  all_goals first | (split at hmem <;> simp at hmem) | simp at hmem

/-- Only `setSessionConnected` connects a session that is `Disconnected`. -/
theorem step_disconnected {k : Outside} {s s' : Session} {f : Stmt} {new : List Stmt}
    (hs : s.mSessionState = .disconnected) (hf : f ≠ .swapConnected)
    (h : step k s f = some (s', new)) :
    s'.mSessionState = .disconnected ∧ (seen s k f).countP Duty.registerDisconnect.due = 0 := by
  have hchanged := (step_progress h).changed
  rw [count_admission hf, live_eq_zero.2 hs] at hchanged
  exact ⟨live_eq_zero.1 (by omega), by omega⟩

/-! ## Runs -/

/-- What holds in all runs. -/
structure DisconnectInv (l : List Event) (p : State τ) : Prop where
  changed : l.countP Duty.registerDisconnect.due + live p.shared ≤ l.count .admission
  owners : Cleared l ∨ (p.shared.mpOwner .disconnector = true ∧
    p.shared.mEventOwner .disconnector = true ∧ ¬ Stacks.HasFrame p Stmt.Clears)
  service : .ended ∈ l ∨ p.shared.mpService = true
  removesFirst : ∀ t, RemovesFirst (p.locals t)

theorem Cleared.append {l : List Event} (e : List Event) (h : Cleared l ∨ Cleared e) :
    Cleared (l ++ e) := by
  simp only [Cleared, List.mem_append] at h ⊢
  tauto

section Run

variable [DecidableEq τ] {l : List Event} {p : State τ} {t : τ}

theorem DisconnectInv.call (hI : DisconnectInv l p) {c : Call} {s : Session} {f : Stmt}
    (h : enter c p.shared (p.locals t) = some (s, f)) :
    DisconnectInv l (p.set t s (f :: p.locals t)) := by
  have hsame : s.mSessionState = p.shared.mSessionState ∧ s.mpOwner = p.shared.mpOwner ∧
      s.mEventOwner = p.shared.mEventOwner ∧ s.mpService = p.shared.mpService ∧
      ¬ f.Clears ∧ f ≠ .serviceRemoveSession := by
    obtain ⟨hf, hstate, howner, hevent, -, hservice⟩ | ⟨d, n, rfl, -, rfl⟩ := enter_plain h
    · exact ⟨hstate, howner, hevent, hservice, hf.not_clears, hf.ne_serviceRemoveSession⟩
    · exact ⟨rfl, rfl, rfl, rfl, id, nofun⟩
  obtain ⟨hstate, howner, hevent, hservice, hclears, hremoves⟩ := hsame
  refine ⟨?_, ?_, ?_, fun u => ?_⟩
  · rw [Threads.set_shared, live, hstate]
    exact hI.changed
  · rw [Threads.set_shared, howner, hevent, Stacks.HasFrame.push_iff hclears]
    exact hI.owners
  · rw [Threads.set_shared, hservice]
    exact hI.service
  · by_cases hu : u = t
    · subst hu
      rw [Threads.set_self]
      exact ⟨fun he => absurd he hremoves, hI.removesFirst u⟩
    · rw [Threads.set_other _ _ _ _ hu]
      exact hI.removesFirst u

theorem DisconnectInv.next (hI : DisconnectInv l p) {k : Outside} {f : Stmt} {rest new : List Stmt}
    (ht : p.locals t = f :: rest) {s : Session} (h : step k p.shared f = some (s, new)) :
    DisconnectInv (l ++ seen p.shared k f) (p.set t s (new ++ rest)) := by
  have hstep := step_progress h
  refine ⟨?_, ?_, ?_, fun u => ?_⟩
  · have hone := hstep.changed
    have hbefore := hI.changed
    rw [List.countP_append, List.count_append, Threads.set_shared]
    omega
  · rcases hI.owners with hcleared | ⟨howner, hevent, hnone⟩
    · exact .inl (.append _ (.inl hcleared))
    rcases hstep.owners with hcleared | hclears | ⟨howner', hevent', hnew⟩
    · exact .inl (.append _ (.inr hcleared))
    · exact absurd (.of_innermost ht hclears) hnone
    · refine .inr ⟨howner' howner, hevent' hevent, fun hframe => ?_⟩
      rcases hframe.of_next ht with hframe | ⟨g, hg, hclears⟩
      · exact hnone hframe
      · exact hnew g hg hclears
  · rcases hstep.service with hended | hsame
    · exact .inl (List.mem_append_right _ hended)
    · rw [Threads.set_shared, hsame]
      exact hI.service.imp_left (List.mem_append_left _)
  · by_cases hu : u = t
    · subst hu
      have hall := hI.removesFirst u
      rw [ht] at hall
      rw [Threads.set_self]
      exact hstep.removesFirst.append hall.2
    · rw [Threads.set_other _ _ _ _ hu]
      exact hI.removesFirst u

theorem disconnectInv_of_observed (h : Observed l p) : DisconnectInv l p := by
  refine Stacks.observed (I := DisconnectInv) ?_ (fun l s t c m f _ hI _ hc => ?_)
    (fun l s t k m f rest new _ hI _ ht hs => hI.next ht hs) h
  · rintro ⟨shared, locals⟩ ⟨⟨isClient, maxCount, rfl⟩, hidle⟩
    refine ⟨Nat.le_refl _, .inr ⟨rfl, rfl, Stacks.HasFrame.not_of_idle hidle⟩, .inr rfl, fun t => ?_⟩
    rw [hidle t]
    trivial
  · rw [List.append_nil]
    exact hI.call hc

/-! ## At most one disconnection -/

omit [DecidableEq τ] in
theorem countP_disconnectEx_done (l : List Event) : l.countP Duty.disconnectEx.done =
    l.countP Duty.completion.due + l.count .cleared + l.count .failed := by
  induction l with
  | nil => rfl
  | cons e l ih =>
    simp only [List.countP_cons, List.count_cons, ih]
    cases e <;> simp [Duty.done, Duty.due] <;> omega

theorem countP_completion_done (l : List Event) : l.countP Duty.completion.done =
    l.count .processed + l.count .dropped := by
  induction l with
  | nil => rfl
  | cons e l ih =>
    simp only [List.countP_cons, List.count_cons, ih]
    cases e <;> simp [Duty.done] <;> omega

theorem countP_clear_due (l : List Event) : l.countP Duty.clear.due = l.count .processed := by
  refine List.countP_congr fun e _ => ?_
  cases e <;> simp [Duty.due]

/-- Every disconnection that has got to its end, or is on its way, has an admission of its own. -/
theorem spent_le (h : Observed l p) : ∃ n₁ n₃, Stacks.Total p Duty.registerDisconnect.pending n₁ ∧
    Stacks.Total p Duty.completion.pending n₃ ∧
    l.count .cleared + l.count .failed + l.count .processed + n₁ + n₃ ≤ l.count .admission := by
  have hchanged := (disconnectInv_of_observed h).changed
  obtain ⟨n₁, htotal₁, h₁⟩ := conserved h .registerDisconnect
  obtain ⟨n₂, -, h₂⟩ := conserved h .disconnectEx
  obtain ⟨n₃, htotal₃, h₃⟩ := conserved h .completion
  have hregistered : Duty.disconnectEx.due = Duty.registerDisconnect.done := by
    funext e
    cases e <;> rfl
  rw [hregistered, countP_disconnectEx_done] at h₂
  rw [countP_completion_done] at h₃
  exact ⟨n₁, n₃, htotal₁, htotal₃, by omega⟩

/-- While a thread is about to call `Register`, or to process a completion, the disconnector has
not begun to be cleared. -/
theorem not_cleared (h : Observed l p) (hadmission : l.count .admission ≤ 1) {f : Stmt}
    (hf : f ∈ p.locals t)
    (hpending : 1 ≤ Duty.registerDisconnect.pending f ∨ 1 ≤ Duty.completion.pending f) :
    ¬ Cleared l := by
  intro hcleared
  obtain ⟨n₁, n₃, htotal₁, htotal₃, hle⟩ := spent_le h
  have hle₁ := htotal₁.le hf
  have hle₃ := htotal₃.le hf
  have hspent : 1 ≤ l.count .cleared + l.count .failed + l.count .processed := by
    rcases hcleared with hmem | hmem | hmem <;>
      have hpos := List.count_pos_iff.2 hmem <;> omega
  omega

omit [DecidableEq τ] in
theorem of_lost {s : Session} {k : Outside} {f : Stmt}
    (h : .cleared ∈ seen s k f ∨ .dropped ∈ seen s k f) :
    (1 ≤ Duty.registerDisconnect.pending f ∧ s.mpOwner .disconnector = false) ∨
    (1 ≤ Duty.completion.pending f ∧ s.mEventOwner .disconnector = false) := by
  unfold seen at h
  split at h
  case h_4 =>
    cases howner : s.mpOwner .disconnector
    · exact .inl ⟨Nat.le_refl 1, rfl⟩
    · simp [howner] at h
  case h_6 =>
    cases hevent : s.mEventOwner .disconnector
    · exact .inr ⟨Nat.le_refl 1, rfl⟩
    · simp [hevent] at h
  case h_2 | h_5 | h_8 => split at h <;> simp at h
  all_goals simp at h

/-- Every `Register` finds the owner of the disconnector, and every completion that of its event. -/
theorem not_lost (h : Observed l p) (hadmission : l.count .admission ≤ 1) :
    .cleared ∉ l ∧ .dropped ∉ l := by
  refine Stacks.observed (I := fun l _ => l.count .admission ≤ 1 → .cleared ∉ l ∧ .dropped ∉ l)
    (fun s _ _ => ⟨nofun, nofun⟩) (fun l s t c m f _ hI _ _ => ?_)
    (fun l s t k m f rest new hr hI _ ht _ hle => ?_) h hadmission
  · rw [List.append_nil]
    exact hI
  · have hbefore : l.count .admission ≤ 1 :=
      Nat.le_trans (List.Sublist.count_le _ (List.sublist_append_left _ _)) hle
    obtain ⟨hcleared, hdropped⟩ := hI hbefore
    have hmem : f ∈ s.locals t := by
      rw [ht]
      exact List.mem_cons_self
    have hfound : ¬ (.cleared ∈ seen s.shared k f ∨ .dropped ∈ seen s.shared k f) := by
      intro hlost
      have hkeep : ∀ hpending, (s.shared.mpOwner .disconnector = true ∧
          s.shared.mEventOwner .disconnector = true ∧ ¬ Stacks.HasFrame s Stmt.Clears) :=
        fun hpending => (disconnectInv_of_observed hr).owners.resolve_left
          (not_cleared hr hbefore hmem hpending)
      rcases of_lost hlost with ⟨hpending, hnone⟩ | ⟨hpending, hnone⟩
      · rw [(hkeep (.inl hpending)).1] at hnone
        cases hnone
      · rw [(hkeep (.inr hpending)).2.1] at hnone
        cases hnone
    exact ⟨fun hmem => (List.mem_append.1 hmem).elim hcleared fun hs => hfound (.inl hs),
      fun hmem => (List.mem_append.1 hmem).elim hdropped fun hs => hfound (.inr hs)⟩

theorem service_of_removes (h : Observed l p) (hadmission : l.count .admission ≤ 1)
    {fs : List Stmt} (ht : p.locals t = .serviceRemoveSession :: fs) :
    p.shared.mpService = true := by
  have hI := disconnectInv_of_observed h
  refine hI.service.resolve_left fun hended => ?_
  have hfirst := hI.removesFirst t
  rw [ht] at hfirst
  have hmem : .resetService ∈ p.locals t := by
    rw [ht]
    exact List.mem_cons_of_mem _ (hfirst.1 rfl)
  -- a `Clear` that has begun and one that is still to come are two disconnections
  obtain ⟨n₁, n₃, -, -, hspent⟩ := spent_le h
  obtain ⟨n, htotal, hn⟩ := conserved h .clear
  have hle : 1 ≤ n := htotal.le hmem
  have hdone : 1 ≤ l.countP Duty.clear.done := List.countP_pos_iff.2 ⟨_, hended, rfl⟩
  rw [countP_clear_due] at hn
  omega

/-- **A session is disconnected once.** -/
structure DisconnectedOnce (l : List Event) (p : State τ) : Prop where
  /-- The state changes to `Disconnected` at most once. -/
  once : l.countP Duty.registerDisconnect.due ≤ 1
  /-- What becomes due has been done as often, or is in flight or still to be run. -/
  conserved : ∀ what : Duty, ∃ n, Stacks.Total p what.pending n ∧
    l.countP what.due = l.countP what.done + what.held p.shared + n
  /-- When no call is in progress, only an operation in flight is left. -/
  idle : (∀ t, p.locals t = []) →
    ∀ what : Duty, l.countP what.due = l.countP what.done + what.held p.shared
  /-- `registerDisconnect` finds its owner, and so does the completion. -/
  found : .cleared ∉ l ∧ .dropped ∉ l
  service : ∀ t fs, p.locals t = .serviceRemoveSession :: fs → p.shared.mpService = true
  /-- The call of `Disconnect` that changes the state goes on; no other has an effect. -/
  disconnect : ∀ k reason, step k p.shared (.exchangeDisconnected reason) =
    some (if p.shared.mSessionState = .disconnected then (p.shared, [])
      else ({ p.shared with mSessionState := .disconnected },
        [.callback (.onDisconnecting reason), .testOwner .disconnectorRegister]))

/-- **Disconnection happens exactly once**, in every run that attempts `setSessionConnected` at
most once. -/
theorem disconnected_once (h : Observed l p) (hadmission : l.count .admission ≤ 1) :
    DisconnectedOnce l p where
  once := by
    have hchanged := (disconnectInv_of_observed h).changed
    omega
  conserved := conserved h
  idle := by
    intro hidle what
    obtain ⟨n, htotal, hn⟩ := conserved h what
    rw [hn, htotal.idle hidle, Nat.add_zero]
  found := not_lost h hadmission
  service _ _ := service_of_removes h hadmission
  disconnect k reason := by
    by_cases hstate : p.shared.mSessionState = .disconnected
    · rw [if_pos hstate]
      simp only [step, if_pos hstate]
      rw [← hstate]
    · rw [if_neg hstate]
      simp only [step, if_neg hstate]

end Run

/-- Two threads disconnect an accepted session; one of them goes on, and the completion of its
`DisconnectEx` is processed. -/
theorem disconnected_once_two : ∃ (l : List Event) (p : State Bool),
    l.filter (· = .removed) = [.removed] ∧ DisconnectedOnce l p := by
  have hrun : Observed _ (_ : State Bool) :=
    Machine.Observed.exec
      (.thread false (.call .accepted) :: List.replicate 16 (.thread false (.next agrees)) ++
        .thread true (.call (.disconnect .clientRequest)) ::
        .thread false (.call (.disconnect .timeout)) :: .thread true (.next agrees) ::
        .thread false (.next agrees) :: List.replicate 3 (.thread true (.next agrees)) ++
        .thread true (.call (.dispatch .disconnector 0)) ::
        List.replicate 6 (.thread true (.next agrees)))
      (.init (s := ⟨create false 10, fun _ => []⟩) ⟨⟨false, 10, rfl⟩, fun _ => rfl⟩)
      (Machine.allowed_of Threads.guard_true _ _) rfl
  exact ⟨_, _, by decide, disconnected_once hrun (by decide)⟩

end CppNetEngine.Session
