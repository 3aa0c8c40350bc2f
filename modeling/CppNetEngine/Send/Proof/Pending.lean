import CppNetEngine.Send.Proof.Sending

/-!
# The buffers being sent

`mSendPendingBuffer` keeps the buffers of the `WSASend` in flight. Only the holder of
`mbSendRegistered` fills it, and `Process` empties it; but `Clear` empties it and lowers the flag
too, for a caller that only saw that the session is disconnected. In the runs in which `Clear` does
neither while the list is in use (`ClearsUnheld`), the pending list is the list that was passed to
the `WSASend` in flight (`pending_eq`). `not_pending_eq` is a `Send` after a `Disconnect`.
-/

namespace CppNetEngine.Sender

variable {τ β : Type}

/-- The pending list of every `WSASend` in flight is the list of its buffers. -/
def PendingKept (s : Threads τ (Pc β) (Sender β)) : Prop :=
  ∀ wsabufs ∈ s.shared.outstanding, s.shared.sendPendingBuffer = wsabufs

/-- `Clear` empties the pending list only while no `WSASend` is in flight and no thread has taken
buffers for one. It lowers the flag only while no `WSASend` is in flight, no thread holds the flag,
in `Register` or `Process`, and the list is empty. -/
def ClearsUnheld (s : Threads τ (Pc β) (Sender β)) (t : τ) (_ : SessionAct β) : Prop :=
  ∀ c todo thenDisconnect, s.locals t = .clear (c :: todo) thenDisconnect →
    (c = .clearPending → s.shared.outstanding = [] ∧
      ∀ u wsabufs, (s.locals u).taken = some wsabufs → wsabufs = []) ∧
    (c = .storeRegistered → s.shared.outstanding = [] ∧ (∀ u, (s.locals u).taken = none) ∧
      s.shared.sendPendingBuffer = [])

/-! ## The invariant -/

/-- Where the flag and the pending list are. -/
inductive Pending (s : Threads τ (Pc β) (Sender β)) : Prop
  /-- Nobody uses the list; if the flag is down, it is empty. -/
  | unheld : s.shared.outstanding = [] → (∀ u, (s.locals u).taken = none) →
      (s.shared.mbSendRegistered = false → s.shared.sendPendingBuffer = []) → Pending s
  /-- A thread holds the flag, and has put the buffers it took into the list; or it has just
  dequeued a completion. -/
  | held (t : τ) (wsabufs : List β) : s.shared.outstanding = [] →
      s.shared.mbSendRegistered = true → (s.locals t).taken = some wsabufs →
      (∀ u, u ≠ t → (s.locals u).taken = none) →
      (s.shared.sendPendingBuffer = wsabufs ∨ ∃ n, s.locals t = .processClear n) → Pending s
  | sending : s.shared.outstanding = [s.shared.sendPendingBuffer] →
      s.shared.mbSendRegistered = true → (∀ u, (s.locals u).taken = none) → Pending s

namespace Pending

variable [DecidableEq τ] {s : Threads τ (Pc β) (Sender β)} {t : τ} {shared : Sender β} {l : Pc β}

/-- A step of a thread that does not hold the flag, before or after it. -/
theorem other (h : Pending s) (ht : (s.locals t).taken = none) (hl : l.taken = none)
    (hout : shared.outstanding = s.shared.outstanding)
    (hflag : shared.mbSendRegistered = s.shared.mbSendRegistered)
    (hpending : shared.sendPendingBuffer = s.shared.sendPendingBuffer) :
    Pending (s.set t shared l) := by
  have htaken : ∀ u, ((s.set t shared l).locals u).taken = (s.locals u).taken := by
    intro u
    by_cases hu : u = t
    · subst hu
      rw [Threads.set_self, hl, ht]
    · rw [Threads.set_other _ _ _ _ hu]
  cases h with
  | unheld h1 h2 h3 =>
    exact .unheld (hout.trans h1) (fun u => (htaken u).trans (h2 u))
      fun hdown => hpending.trans (h3 (hflag.symm.trans hdown))
  | held u wsabufs h1 h2 h3 h4 h5 =>
    have hu : u ≠ t := by
      rintro rfl
      rw [ht] at h3
      cases h3
    refine .held u wsabufs (hout.trans h1) (hflag.trans h2) ((htaken u).trans h3)
      (fun v hv => (htaken v).trans (h4 v hv)) ?_
    rw [Threads.set_other _ _ _ _ hu]
    exact h5.imp_left hpending.trans
  | sending h1 h2 h3 =>
    refine .sending ?_ (hflag.trans h2) fun u => (htaken u).trans (h3 u)
    rw [Threads.set_shared, hout, hpending]
    exact h1

theorem of_taken (h : Pending s) {wsabufs : List β} (ht : (s.locals t).taken = some wsabufs) :
    s.shared.outstanding = [] ∧ s.shared.mbSendRegistered = true ∧
      (∀ u, u ≠ t → (s.locals u).taken = none) ∧
      (s.shared.sendPendingBuffer = wsabufs ∨ ∃ n, s.locals t = .processClear n) := by
  cases h with
  | unheld _ hnone _ =>
    rw [hnone t] at ht
    cases ht
  | sending _ _ hnone =>
    rw [hnone t] at ht
    cases ht
  | held u bufs h1 h2 h3 h4 h5 =>
    by_cases htu : t = u
    · subst htu
      rw [h3] at ht
      cases ht
      exact ⟨h1, h2, h4, h5⟩
    · rw [h4 t htu] at ht
      cases ht

/-- A thread that holds the flag has taken what is pending, unless it is about to clear that. -/
theorem of_holder (h : Pending s) {wsabufs : List β} (ht : (s.locals t).taken = some wsabufs)
    (hclear : ∀ n, s.locals t ≠ .processClear n) :
    s.shared.outstanding = [] ∧ s.shared.mbSendRegistered = true ∧
      (∀ u, u ≠ t → (s.locals u).taken = none) ∧ s.shared.sendPendingBuffer = wsabufs := by
  obtain ⟨hout, hflag, hother, hpending⟩ := h.of_taken ht
  exact ⟨hout, hflag, hother, hpending.resolve_right fun ⟨n, hn⟩ => hclear n hn⟩

/-- A step after which the thread holds the flag, with these buffers. -/
theorem take (wsabufs : List β) (hl : l.taken = some wsabufs)
    (hother : ∀ u, u ≠ t → (s.locals u).taken = none) (hout : shared.outstanding = [])
    (hflag : shared.mbSendRegistered = true)
    (hpending : shared.sendPendingBuffer = wsabufs ∨ ∃ n, l = .processClear n) :
    Pending (s.set t shared l) := by
  refine .held t wsabufs hout hflag (by rw [Threads.set_self, hl]) (fun u hu => ?_) ?_
  · rw [Threads.set_other _ _ _ _ hu]
    exact hother u hu
  · rw [Threads.set_self]
    exact hpending

end Pending

/-! ## Steps -/

section Steps

variable [DecidableEq τ] {s : Threads τ (Pc β) (Sender β)} {t : τ} {shared : Sender β} {l : Pc β}

theorem clearStep_pending (h : Pending s) {c : ClearStep} {todo : List ClearStep}
    {thenDisconnect : Option DisconnectReason} {a : SessionAct β} (hok : ClearsUnheld s t a)
    (ht : s.locals t = .clear (c :: todo) thenDisconnect) :
    Pending (s.set t (s.shared.clearStep c) (.clear todo thenDisconnect)) := by
  have htaken : (s.locals t).taken = none := by rw [ht]; rfl
  cases c with
  | clearPending =>
    obtain ⟨hout, hnothing⟩ := (hok _ _ _ ht).1 rfl
    cases h with
    | unheld _ hnone _ =>
      exact .unheld hout (Flag.none_taken rfl fun u _ => hnone u) fun _ => rfl
    | sending hsending => rw [hout] at hsending; cases hsending
    | held u wsabufs _ hflag hu hother _ =>
      -- the holder has taken nothing yet
      obtain rfl := hnothing u wsabufs hu
      have hut : u ≠ t := by
        rintro rfl
        rw [htaken] at hu
        cases hu
      refine .held u [] hout hflag ?_ (fun v hv => ?_) (.inl rfl)
      · rw [Threads.set_other _ _ _ _ hut]
        exact hu
      · by_cases hvt : v = t
        · subst hvt
          rw [Threads.set_self]
          rfl
        · rw [Threads.set_other _ _ _ _ hvt]
          exact hother v hv
  | storeRegistered =>
    obtain ⟨hout, hnone, hempty⟩ := (hok _ _ _ ht).2 rfl
    exact .unheld hout (Flag.none_taken rfl fun u _ => hnone u) fun _ => hempty
  | resetOwner | resetEventOwner | clearQueue => exact h.other htaken rfl rfl rfl rfl

theorem exec_pending (h : Pending s) {a : SessionAct β} (hok : ClearsUnheld s t a)
    {wsaSend : WsaResult} (hs : exec wsaSend s.shared (s.locals t) = some (shared, l)) :
    Pending (s.set t shared l) := by
  cases hpc : s.locals t <;> rw [hpc] at hs
  case idle => cases hs
  case nullOwner => cases hs
  case sendOwner b | registerOwner =>
    cases hs
    refine h.other (by rw [hpc]; rfl) ?_ rfl rfl rfl
    split <;> rfl
  case sendEnqueue b =>
    simp only [exec] at hs
    split at hs <;> cases hs <;> exact h.other (by rw [hpc]; rfl) rfl rfl rfl rfl
  case registerExchange =>
    cases hs
    cases hflag : s.shared.mbSendRegistered with
    | true => exact h.other (by rw [hpc]; rfl) rfl rfl hflag.symm rfl
    | false =>
      cases h with
      | unheld hout hnone hempty =>
        exact Pending.take [] rfl (fun u _ => hnone u) hout rfl (.inl (hempty hflag))
      | held u bufs _ hup => exact absurd (hflag.symm.trans hup) (by decide)
      | sending _ hup => exact absurd (hflag.symm.trans hup) (by decide)
  case registerDequeue wsabufs =>
    obtain ⟨hout, hflag, hother, hlist⟩ := h.of_holder (t := t) (by rw [hpc]; rfl) (by simp [hpc])
    simp only [exec] at hs
    split at hs <;> cases hs
    · refine Pending.take wsabufs ?_ hother hout hflag (.inl hlist)
      split
      · rename_i hlen
        rw [List.eq_nil_of_length_eq_zero hlen]
        rfl
      · rfl
    · rename_i b rest _
      refine Pending.take (wsabufs ++ [b]) ?_ hother hout hflag (.inl ?_)
      · split <;> rfl
      · rw [hlist]
  case registerStore | processStore =>
    obtain ⟨hout, -, hother, hlist⟩ := h.of_holder (t := t) (by rw [hpc]; rfl) (by simp [hpc])
    cases hs
    exact .unheld hout (Flag.none_taken rfl hother) fun _ => hlist
  case registerIsEmpty | processIsEmpty =>
    cases hs
    refine h.other (by rw [hpc]; rfl) ?_ rfl rfl rfl
    split <;> rfl
  case registerSend wsabufs =>
    obtain ⟨hout, hflag, hother, hlist⟩ := h.of_holder (t := t) (by rw [hpc]; rfl) (by simp [hpc])
    cases wsaSend with
    | error errorCode =>
      cases hs
      exact .unheld hout (Flag.none_taken rfl hother) fun hdown =>
        absurd (hdown.symm.trans hflag) (by decide)
    | ok | pending =>
      cases hs
      refine .sending ?_ hflag (Flag.none_taken rfl hother)
      simp [hout, hlist]
  case processClear n =>
    obtain ⟨hout, hflag, hother, -⟩ := h.of_taken (t := t) (by rw [hpc]; rfl)
    cases hs
    exact Pending.take [] rfl hother hout hflag (.inl rfl)
  case processOwner n =>
    obtain ⟨hout, hflag, hother, hlist⟩ := h.of_holder (t := t) (by rw [hpc]; rfl) (by simp [hpc])
    have hgone : ∀ l : Pc β, l.taken = none → Pending (s.set t s.shared l) := fun l hl =>
      .unheld hout (Flag.none_taken hl hother) fun hdown =>
        absurd (hdown.symm.trans hflag) (by decide)
    simp only [exec] at hs
    split at hs
    · cases hs
      exact hgone _ rfl
    · split at hs <;> cases hs
      · exact hgone _ rfl
      · exact Pending.take [] rfl hother hout hflag (.inl hlist)
  case disconnect reason thenClear =>
    simp only [exec] at hs
    split at hs <;> cases hs
    · refine h.other (by rw [hpc]; rfl) ?_ ?_ ?_ ?_
      · split <;> rfl
      all_goals
        unfold Sender.disconnect
        split <;> rfl
    · exact h.other (by rw [hpc]; rfl) rfl rfl rfl rfl
  case clear todo thenDisconnect =>
    cases todo with
    | nil =>
      cases hs
      refine h.other (by rw [hpc]; rfl) ?_ rfl rfl rfl
      split <;> rfl
    | cons c todo =>
      cases hs
      exact clearStep_pending h hok hpc

theorem sessionAct_pending {a : SessionAct β} (h : Pending s) (hok : ClearsUnheld s t a)
    (hs : sessionAct a s.shared (s.locals t) = some (shared, l)) : Pending (s.set t shared l) := by
  cases a with
  | processDisconnect =>
    cases hpc : s.locals t <;> rw [hpc] at hs <;> try cases hs
    simp only [sessionAct] at hs
    split at hs <;> cases hs
    exact h.other (by rw [hpc]; rfl) rfl rfl rfl rfl
  | act a =>
    cases a with
    | next wsaSend =>
      have hexec : exec wsaSend s.shared (s.locals t) = some (shared, l) := by
        cases hpc : s.locals t <;> rw [hpc] at hs <;> exact hs
      exact exec_pending h hok hexec
    | send b =>
      cases hpc : s.locals t <;> rw [hpc] at hs <;> try cases hs
      exact h.other (by rw [hpc]; rfl) rfl rfl rfl rfl
    | process k n =>
      cases hpc : s.locals t <;> rw [hpc] at hs <;> try cases hs
      simp only [sessionAct, act] at hs
      split at hs <;> rename_i hk <;> cases hs
      -- there is one `WSASend` in flight, and the thread takes the flag over
      cases h with
      | unheld hout => rw [hout] at hk; cases hk
      | held _ _ hout => rw [hout] at hk; cases hk
      | sending hout hflag hnone =>
        refine Pending.take [] rfl (fun u _ => hnone u) ?_ hflag (.inr ⟨n, rfl⟩)
        rw [hout] at hk
        have hzero : k = 0 := Nat.lt_one_iff.1 hk
        simp [hout, hzero]

end Steps

/-- **The pending list is that of the `WSASend` in flight**, of which there is at most one, in the
runs in which `Clear` touches neither the list nor the flag while they are in use. -/
theorem pending_eq [DecidableEq τ] {s : Threads τ (Pc β) (Sender β)}
    (h : (sessionMachine τ β).ReachableIf (Threads.Guard ClearsUnheld fun _ _ => True) s) :
    PendingKept s ∧ s.shared.outstanding.length ≤ 1 := by
  have hinv : Pending s := by
    refine Threads.invariant (I := Pending) ?_ (fun s t a shared l hI => sessionAct_pending hI) ?_ h
    · rintro s ⟨⟨maxCount, hs⟩, hidle⟩
      refine .unheld (by rw [hs]; rfl) (fun u => by rw [hidle u]; rfl) fun _ => by rw [hs]; rfl
    · intro s reason shared hI _ hs
      cases hs
      have hsame : (s.shared.disconnect reason).outstanding = s.shared.outstanding ∧
          (s.shared.disconnect reason).mbSendRegistered = s.shared.mbSendRegistered ∧
          (s.shared.disconnect reason).sendPendingBuffer = s.shared.sendPendingBuffer := by
        unfold Sender.disconnect
        split <;> exact ⟨rfl, rfl, rfl⟩
      obtain ⟨hout, hflag, hpending⟩ := hsame
      cases hI with
      | unheld h1 h2 h3 =>
        exact .unheld (hout.trans h1) h2 fun hdown => hpending.trans (h3 (hflag.symm.trans hdown))
      | held t wsabufs h1 h2 h3 h4 h5 =>
        exact .held t wsabufs (hout.trans h1) (hflag.trans h2) h3 h4 (h5.imp_left hpending.trans)
      | sending h1 h2 h3 =>
        exact .sending (hout.trans (by rw [hpending]; exact h1)) (hflag.trans h2) h3
  cases hinv with
  | unheld hout => simp [PendingKept, hout]
  | held _ _ hout => simp [PendingKept, hout]
  | sending hout =>
    refine ⟨fun wsabufs hmem => ?_, Nat.le_of_eq (by rw [hout]; rfl)⟩
    rw [hout] at hmem
    exact (List.mem_singleton.1 hmem).symm

/-! ## Runs -/

/-- The session is disconnected while the second of two buffers is on its way. One thread begins to
clear the session then, and is done with it when the other has processed the completion and cleared
it as well. -/
theorem pending_eq_cleared : ∃ s s' : Threads Bool (Pc Nat) (Sender Nat),
    s.shared.outstanding = [[8]] ∧ s.shared.mpOwner = false ∧ PendingKept s ∧
      (∀ t, s'.locals t = .idle) ∧ s'.shared.submitted = [7, 8] ∧ PendingKept s' := by
  let next (t : Bool) : ThreadAction Bool (SessionAct Nat) DisconnectReason :=
    .thread t (.act (.next .pending))
  have hrun : (sessionMachine Bool Nat).ReachableIf (Threads.Guard ClearsUnheld fun _ _ => True)
      _ := Machine.ReachableIf.exec
    (.thread false (.act (.send 7)) :: List.replicate 7 (next false) ++
      .thread false (.act (.process 0 100)) :: List.replicate 4 (next false) ++
      .thread false (.act (.send 8)) :: List.replicate 7 (next false) ++
      .env .kicked :: .thread true .processDisconnect :: List.replicate 2 (next true))
    (.init (s := ⟨new Nat 1000, fun _ : Bool => .idle⟩) ⟨⟨1000, rfl⟩, fun _ => rfl⟩) ?_ rfl
  · have hrest := Machine.ReachableIf.exec
      (.thread false (.act (.process 0 100)) :: List.replicate 8 (next false) ++
        List.replicate 4 (next true)) hrun ?_ rfl
    · refine ⟨_, _, rfl, rfl, (pending_eq hrun).1, fun t => ?_, rfl, (pending_eq hrest).1⟩
      cases t <;> rfl
    · repeat' refine And.intro ?_ ?_
      any_goals exact trivial
      all_goals rintro c todo thenDisconnect ⟨⟩
      all_goals refine ⟨fun h => ?_, fun h => ?_⟩ <;> cases h
      -- no thread holds the flag any more
      · exact ⟨rfl, fun u wsabufs hu => by cases u <;> cases hu⟩
      · exact ⟨rfl, fun u => by cases u <;> rfl, rfl⟩
      · exact ⟨rfl, fun u wsabufs hu => by cases u <;> cases hu⟩
      · exact ⟨rfl, fun u => by cases u <;> rfl, rfl⟩
  · repeat' refine And.intro ?_ ?_
    any_goals exact trivial
    all_goals rintro c todo thenDisconnect ⟨⟩
    all_goals refine ⟨fun h => ?_, fun h => ?_⟩ <;> cases h

/-- A `Send` on a session that was disconnected while a `WSASend` is in flight. -/
theorem not_pending_eq : ∃ s : Threads Unit (Pc Nat) (Sender Nat),
    (sessionMachine Unit Nat).Reachable s ∧ s.shared.outstanding = [[7]] ∧ ¬ PendingKept s := by
  let next : ThreadAction Unit (SessionAct Nat) DisconnectReason :=
    .thread () (.act (.next .pending))
  have hrun := Machine.Reachable.exec (M := sessionMachine Unit Nat)
    [.thread () (.act (.send 7)), next, next, next, next, next, next, next, .env .kicked,
      .thread () (.act (.send 8)), next, next, next, next]
    (.init (s := ⟨new Nat 1000, fun _ : Unit => .idle⟩) ⟨⟨1000, rfl⟩, fun _ => rfl⟩) rfl
  refine ⟨_, hrun, rfl, fun hkept => ?_⟩
  have hlist := hkept [7] List.mem_cons_self
  cases hlist

end CppNetEngine.Sender
