import CppNetEngine.Send.Sender

/-!
# Sending in order, one at a time, to the end

On a session that stays connected, with a queue that is never full and `WSASend`s that are accepted
(`Assumed`), the flag `mbSendRegistered` has one holder at a time (`Flag`): a thread in `Register`
or `Process`, with the buffers it took from the queue, or the `WSASend` in flight. While the flag
is down and the queue is not empty, some thread is about to look at the queue again (`watched`).
`sender_correct` follows.
-/

namespace CppNetEngine.Sender

variable {τ β : Type} [DecidableEq τ]

/-- The session stays connected, the queue is not full when a buffer comes, `WSASend` is accepted
and completions report bytes. -/
def Assumed : Sender β → Pc β → Act β → Prop
  | _, _, .send _ => True
  | _, _, .process _ n => 0 < n
  | s, .sendEnqueue _, .next _ => s.mSendQueue.length < s.mMaxCount
  | _, .registerSend _, .next wsaSend => wsaSend.Accepted
  | _, _, .next _ => True

/-- The runs the assumptions allow; nobody disconnects the session. -/
abbrev Connected (s : Threads τ (Pc β) (Sender β)) : Prop :=
  (machine τ β).ReachableIf
    (Threads.Guard (fun s t => Assumed s.shared (s.locals t)) fun _ _ => False) s

/-! ## Threads -/

namespace Pc

/-- The buffers a holder of the flag has taken from the queue, if the thread is one. -/
def taken : Pc β → Option (List β)
  | .registerDequeue wsabufs => some wsabufs
  | .registerSend wsabufs => some wsabufs
  | .registerStore => some []
  | .processClear _ => some []
  | .processOwner _ => some []
  | .processStore => some []
  | _ => none

/-- The thread will look at the queue again, or try to take the flag. -/
def Watching : Pc β → Prop
  | .registerOwner => True
  | .registerExchange => True
  | .registerIsEmpty => True
  | .processIsEmpty => True
  | _ => False

/-- The thread is on no error path. -/
def Regular : Pc β → Prop
  | .processClear n => 0 < n
  | .processOwner n => 0 < n
  | .disconnect _ _ => False
  | .clear _ _ => False
  | .nullOwner => False
  | _ => True

end Pc

/-! ## The invariant -/

/-- Where the flag is, and how the buffers enqueued divide up. -/
inductive Flag (s : Threads τ (Pc β) (Sender β)) : Prop
  | down : s.shared.mbSendRegistered = false → s.shared.outstanding = [] →
      (∀ t, (s.locals t).taken = none) →
      s.shared.submitted ++ s.shared.mSendQueue = s.shared.enqueued → Flag s
  | held (t : τ) (wsabufs : List β) : s.shared.mbSendRegistered = true →
      s.shared.outstanding = [] → (s.locals t).taken = some wsabufs →
      (∀ u, u ≠ t → (s.locals u).taken = none) →
      s.shared.submitted ++ (wsabufs ++ s.shared.mSendQueue) = s.shared.enqueued → Flag s
  | sending : s.shared.mbSendRegistered = true → s.shared.outstanding.length = 1 →
      (∀ t, (s.locals t).taken = none) →
      s.shared.submitted ++ s.shared.mSendQueue = s.shared.enqueued → Flag s

structure Inv (s : Threads τ (Pc β) (Sender β)) : Prop where
  owner : s.shared.mpOwner = true
  connected : s.shared.isDisconnected = false
  regular : ∀ t, (s.locals t).Regular
  flag : Flag s
  watched : s.shared.mbSendRegistered = false → s.shared.mSendQueue ≠ [] →
    ∃ t, (s.locals t).Watching

namespace Flag

variable {s : Threads τ (Pc β) (Sender β)} {t : τ} {shared : Sender β} {l : Pc β}

theorem of_taken (h : Flag s) {wsabufs : List β} (ht : (s.locals t).taken = some wsabufs) :
    s.shared.mbSendRegistered = true ∧ s.shared.outstanding = [] ∧
      (∀ u, u ≠ t → (s.locals u).taken = none) ∧
      s.shared.submitted ++ (wsabufs ++ s.shared.mSendQueue) = s.shared.enqueued := by
  cases h with
  | down _ _ hnone _ =>
    rw [hnone t] at ht
    cases ht
  | sending _ _ hnone _ =>
    rw [hnone t] at ht
    cases ht
  | held u bufs hflag hout hu hother horder =>
    by_cases htu : t = u
    · subst htu
      rw [hu] at ht
      cases ht
      exact ⟨hflag, hout, hother, horder⟩
    · rw [hother t htu] at ht
      cases ht

/-- A step that leaves the flag with its holder, and may enqueue. -/
theorem keep (h : Flag s) {new : List β} (hl : l.taken = (s.locals t).taken)
    (hflag : shared.mbSendRegistered = s.shared.mbSendRegistered)
    (hout : shared.outstanding = s.shared.outstanding)
    (hsub : shared.submitted = s.shared.submitted)
    (hqueue : shared.mSendQueue = s.shared.mSendQueue ++ new)
    (henq : shared.enqueued = s.shared.enqueued ++ new) : Flag (s.set t shared l) := by
  have htaken : ∀ u, ((s.set t shared l).locals u).taken = (s.locals u).taken := by
    intro u
    by_cases hu : u = t
    · subst hu
      rw [Threads.set_self, hl]
    · rw [Threads.set_other _ _ _ _ hu]
  cases h with
  | down h1 h2 h3 h4 =>
    refine .down (hflag.trans h1) (hout.trans h2) (fun u => (htaken u).trans (h3 u)) ?_
    simp only [Threads.set_shared]
    rw [hsub, hqueue, henq, ← h4, List.append_assoc]
  | held u bufs h1 h2 h3 h4 h5 =>
    refine .held u bufs (hflag.trans h1) (hout.trans h2) ((htaken u).trans h3)
      (fun v hv => (htaken v).trans (h4 v hv)) ?_
    simp only [Threads.set_shared]
    rw [hsub, hqueue, henq, ← h5, List.append_assoc, List.append_assoc]
  | sending h1 h2 h3 h4 =>
    refine .sending (hflag.trans h1) (by rw [Threads.set_shared, hout, h2])
      (fun u => (htaken u).trans (h3 u)) ?_
    simp only [Threads.set_shared]
    rw [hsub, hqueue, henq, ← h4, List.append_assoc]

/-- A step after which the thread holds the flag, with these buffers. -/
theorem take (wsabufs : List β) (hl : l.taken = some wsabufs)
    (hother : ∀ u, u ≠ t → (s.locals u).taken = none)
    (hflag : shared.mbSendRegistered = true) (hout : shared.outstanding = [])
    (horder : shared.submitted ++ (wsabufs ++ shared.mSendQueue) = shared.enqueued) :
    Flag (s.set t shared l) := by
  refine .held t wsabufs hflag hout (by rw [Threads.set_self, hl]) (fun u hu => ?_) horder
  rw [Threads.set_other _ _ _ _ hu]
  exact hother u hu

/-- Nobody has taken buffers after a step of the holder that gives the flag away. -/
theorem none_taken (hl : l.taken = none) (hother : ∀ u, u ≠ t → (s.locals u).taken = none) (u : τ) :
    ((s.set t shared l).locals u).taken = none := by
  by_cases hu : u = t
  · subst hu
    rw [Threads.set_self, hl]
  · rw [Threads.set_other _ _ _ _ hu]
    exact hother u hu

end Flag

namespace Inv

variable {s : Threads τ (Pc β) (Sender β)} {t : τ} {shared : Sender β} {l : Pc β}

theorem set (h : Inv s) (ho : shared.mpOwner = true) (hc : shared.isDisconnected = false)
    (hl : l.Regular) (hf : Flag (s.set t shared l))
    (hw : shared.mbSendRegistered = false → shared.mSendQueue ≠ [] →
      ∃ u, ((s.set t shared l).locals u).Watching) : Inv (s.set t shared l) := by
  refine ⟨ho, hc, fun u => ?_, hf, hw⟩
  by_cases hu : u = t
  · subst hu
    rw [Threads.set_self]
    exact hl
  · rw [Threads.set_other _ _ _ _ hu]
    exact h.regular u

theorem watching_self (hl : l.Watching) : ∃ u, ((s.set t shared l).locals u).Watching :=
  ⟨t, by rwa [Threads.set_self]⟩

theorem watching_other (h : Inv s) (ht : ¬ (s.locals t).Watching)
    (hflag : s.shared.mbSendRegistered = false) (hqueue : s.shared.mSendQueue ≠ []) :
    ∃ u, ((s.set t shared l).locals u).Watching := by
  obtain ⟨u, hu⟩ := h.watched hflag hqueue
  by_cases hut : u = t
  · subst hut
    exact (ht hu).elim
  · refine ⟨u, ?_⟩
    rw [Threads.set_other _ _ _ _ hut]
    exact hu

omit [DecidableEq τ] in
theorem isGone (h : Inv s) : s.shared.isGone = false := by
  simp [Sender.isGone, h.owner, h.connected]

theorem move (h : Inv s) (hshared : (shared.mpOwner, shared.isDisconnected) =
      (s.shared.mpOwner, s.shared.isDisconnected))
    (hflag : shared.mbSendRegistered = s.shared.mbSendRegistered)
    (hout : shared.outstanding = s.shared.outstanding)
    (hqueue : (shared.submitted, shared.mSendQueue, shared.enqueued) =
      (s.shared.submitted, s.shared.mSendQueue, s.shared.enqueued))
    (hl : l.Regular) (htaken : l.taken = (s.locals t).taken)
    (hwatching : (s.locals t).Watching → l.Watching) : Inv (s.set t shared l) := by
  obtain ⟨hown, hdis⟩ := Prod.mk.inj hshared
  obtain ⟨hsub, hrest⟩ := Prod.mk.inj hqueue
  obtain ⟨hq, henq⟩ := Prod.mk.inj hrest
  refine h.set (hown.trans h.owner) (hdis.trans h.connected) hl ?_ fun hdown hne => ?_
  · exact h.flag.keep htaken hflag hout hsub (by rw [hq, List.append_nil])
      (by rw [henq, List.append_nil])
  · by_cases ht : (s.locals t).Watching
    · exact watching_self (hwatching ht)
    · exact h.watching_other ht (hflag.symm.trans hdown) (hq ▸ hne)

/-- A look at the queue, after which the thread is done or tries to take the flag again. -/
theorem isEmpty (h : Inv s) (ht : (s.locals t).taken = none) :
    Inv (s.set t s.shared (if s.shared.mSendQueue.isEmpty then .idle else .registerOwner)) := by
  cases hqueue : s.shared.mSendQueue with
  | nil =>
    refine h.set h.owner h.connected trivial ?_ fun _ hne => absurd hqueue hne
    exact h.flag.keep ht.symm rfl rfl rfl (List.append_nil _).symm
      (List.append_nil _).symm
  | cons b rest =>
    refine h.set h.owner h.connected trivial ?_ fun _ _ => watching_self trivial
    exact h.flag.keep ht.symm rfl rfl rfl (List.append_nil _).symm
      (List.append_nil _).symm

theorem store (h : Inv s) (ht : (s.locals t).taken = some []) (hl : l.Watching) (hr : l.Regular)
    (hnone : l.taken = none) :
    Inv (s.set t { s.shared with mbSendRegistered := false } l) := by
  obtain ⟨-, hout, hother, horder⟩ := h.flag.of_taken ht
  refine h.set h.owner h.connected hr ?_ fun _ _ => watching_self hl
  exact .down rfl hout (Flag.none_taken hnone hother) horder

end Inv

/-! ## Steps -/

theorem process_inv {s : Threads τ (Pc β) (Sender β)} (t : τ) (h : Inv s) {k n : Nat}
    (hk : k < s.shared.outstanding.length) (hn : 0 < n) :
    Inv (s.set t { s.shared with outstanding := s.shared.outstanding.eraseIdx k }
      (.processClear n)) := by
  cases h.flag with
  | down _ hout _ _ =>
    rw [hout] at hk
    cases hk
  | held _ _ _ hout _ _ _ =>
    rw [hout] at hk
    cases hk
  | sending hflag hone hnone horder =>
    refine h.set h.owner h.connected hn ?_ fun hdown _ => ?_
    · refine Flag.take [] rfl (fun u _ => hnone u) hflag ?_ horder
      apply List.eq_nil_of_length_eq_zero
      simp only [List.length_eraseIdx, if_pos hk]
      omega
    · exact absurd (hdown.symm.trans hflag) (by decide)

theorem exchange_inv {s : Threads τ (Pc β) (Sender β)} {t : τ} (h : Inv s)
    (ht : s.locals t = .registerExchange) :
    Inv (s.set t { s.shared with mbSendRegistered := true }
      (if s.shared.mbSendRegistered then .idle else .registerDequeue [])) := by
  cases hflag : s.shared.mbSendRegistered with
  | true =>
    refine h.set h.owner h.connected trivial ?_ fun hdown _ => by cases hdown
    exact h.flag.keep (by rw [ht]; rfl) hflag.symm rfl rfl (List.append_nil _).symm
      (List.append_nil _).symm
  | false =>
    refine h.set h.owner h.connected trivial ?_ fun hdown _ => by cases hdown
    cases h.flag with
    | held _ _ hup _ _ _ _ => exact absurd (hflag.symm.trans hup) (by decide)
    | sending hup _ _ _ => exact absurd (hflag.symm.trans hup) (by decide)
    | down _ hout hnone horder => exact Flag.take [] rfl (fun u _ => hnone u) rfl hout horder

/-- The holder takes a buffer from the queue, or finds it empty. -/
theorem dequeue_inv {s : Threads τ (Pc β) (Sender β)} {t : τ} {shared : Sender β} {l : Pc β}
    {wsabufs : List β} {wsaSend : WsaResult} (h : Inv s)
    (ht : s.locals t = .registerDequeue wsabufs)
    (hs : exec wsaSend s.shared (.registerDequeue wsabufs) = some (shared, l)) :
    Inv (s.set t shared l) := by
  obtain ⟨hflag, hout, hother, horder⟩ := h.flag.of_taken (t := t) (by rw [ht]; rfl)
  cases hqueue : s.shared.mSendQueue with
  | nil =>
    simp only [exec, hqueue] at hs
    cases hs
    refine h.move rfl rfl rfl rfl ?_ ?_ (by rw [ht]; exact False.elim)
    · split <;> trivial
    · rw [ht]
      split
      · rename_i hlen
        rw [List.eq_nil_of_length_eq_zero hlen]
        rfl
      · rfl
  | cons b rest =>
    simp only [exec, hqueue] at hs
    cases hs
    refine h.set h.owner h.connected ?_ ?_ fun hdown _ => ?_
    · split <;> trivial
    · refine Flag.take (wsabufs ++ [b]) ?_ hother hflag hout ?_
      · split <;> rfl
      · rw [← horder, hqueue, List.append_assoc]
        rfl
    · exact absurd (hdown.symm.trans hflag) (by decide)

theorem wsaSend_inv {s : Threads τ (Pc β) (Sender β)} {t : τ} {wsabufs : List β} (h : Inv s)
    (ht : s.locals t = .registerSend wsabufs) :
    Inv (s.set t { s.shared with
      mSendEventOwner := s.shared.mpOwner
      outstanding := s.shared.outstanding ++ [wsabufs]
      submitted := s.shared.submitted ++ wsabufs } .idle) := by
  obtain ⟨hflag, hout, hother, horder⟩ := h.flag.of_taken (t := t) (by rw [ht]; rfl)
  refine h.set h.owner h.connected trivial ?_ fun hdown _ => ?_
  · refine .sending hflag ?_ (Flag.none_taken rfl hother) ?_
    · simp [hout]
    · simpa using horder
  · exact absurd (hdown.symm.trans hflag) (by decide)

theorem exec_inv {s : Threads τ (Pc β) (Sender β)} {t : τ} {shared : Sender β} {l : Pc β}
    {wsaSend : WsaResult} (h : Inv s) (hok : Assumed s.shared (s.locals t) (.next wsaSend))
    (hs : exec wsaSend s.shared (s.locals t) = some (shared, l)) : Inv (s.set t shared l) := by
  have hreg := h.regular t
  cases hpc : s.locals t <;> rw [hpc] at hs hok hreg
  case idle => cases hs
  case nullOwner => cases hs
  case disconnect => exact hreg.elim
  case clear => exact hreg.elim
  case sendOwner b =>
    simp only [exec, h.isGone] at hs
    cases hs
    exact h.move rfl rfl rfl rfl trivial (by rw [hpc]; rfl) (by rw [hpc]; exact False.elim)
  case sendEnqueue b =>
    rw [exec, if_neg (Nat.not_le.2 hok)] at hs
    cases hs
    refine h.set h.owner h.connected trivial ?_ fun _ _ => Inv.watching_self trivial
    exact h.flag.keep (by rw [hpc]; rfl) rfl rfl rfl rfl rfl
  case registerOwner =>
    simp only [exec, h.isGone] at hs
    cases hs
    exact h.move rfl rfl rfl rfl trivial (by rw [hpc]; rfl) fun _ => trivial
  case registerExchange =>
    cases hs
    exact exchange_inv h hpc
  case registerDequeue wsabufs => exact dequeue_inv h hpc hs
  case registerStore =>
    cases hs
    exact h.store (by rw [hpc]; rfl) trivial trivial rfl
  case registerIsEmpty =>
    cases hs
    exact h.isEmpty (by rw [hpc]; rfl)
  case registerSend wsabufs =>
    cases wsaSend with
    | error errorCode => exact hok.elim
    | ok =>
      cases hs
      exact wsaSend_inv h hpc
    | pending =>
      cases hs
      exact wsaSend_inv h hpc
  case processClear n =>
    cases hs
    exact h.move rfl rfl rfl rfl hreg (by rw [hpc]; rfl) (by rw [hpc]; exact False.elim)
  case processOwner n =>
    rw [exec, h.isGone, if_neg (by decide), if_neg (Nat.ne_of_gt hreg)] at hs
    cases hs
    exact h.move rfl rfl rfl rfl trivial (by rw [hpc]; rfl) (by rw [hpc]; exact False.elim)
  case processStore =>
    cases hs
    exact h.store (by rw [hpc]; rfl) trivial trivial rfl
  case processIsEmpty =>
    cases hs
    exact h.isEmpty (by rw [hpc]; rfl)

theorem act_inv (s : Threads τ (Pc β) (Sender β)) (t : τ) (a : Act β) (shared : Sender β)
    (l : Pc β) (h : Inv s) (hok : Assumed s.shared (s.locals t) a)
    (hs : act a s.shared (s.locals t) = some (shared, l)) : Inv (s.set t shared l) := by
  cases a with
  | next wsaSend =>
    have hexec : exec wsaSend s.shared (s.locals t) = some (shared, l) := by
      cases hpc : s.locals t <;> rw [hpc] at hs <;> exact hs
    exact exec_inv h hok hexec
  | send b =>
    cases hpc : s.locals t <;> rw [hpc] at hs <;> try cases hs
    exact h.move rfl rfl rfl rfl trivial (by rw [hpc]; rfl) (by rw [hpc]; exact False.elim)
  | process k n =>
    cases hpc : s.locals t <;> rw [hpc] at hs hok <;> try cases hs
    rw [act] at hs
    split at hs
    · rename_i hk
      cases hs
      exact process_inv t h hk hok
    · cases hs

theorem connected_inv {s : Threads τ (Pc β) (Sender β)} (h : Connected s) : Inv s := by
  refine Threads.invariant (I := Inv) ?_ act_inv (fun _ _ _ _ hok _ => hok.elim) h
  rintro s ⟨⟨maxCount, hs⟩, hidle⟩
  refine ⟨by rw [hs]; rfl, by rw [hs]; rfl, fun t => by rw [hidle t]; trivial, ?_, ?_⟩
  · exact .down (by rw [hs]; rfl) (by rw [hs]; rfl) (fun t => by rw [hidle t]; rfl)
      (by rw [hs]; rfl)
  · intro _ hne
    rw [hs] at hne
    exact absurd rfl hne

/-! ## Correctness -/

/-- **The sender**: at most one `WSASend` is in flight; what was submitted is the beginning of what
was enqueued; and when nothing is in progress or in flight, nothing is left. -/
theorem sender_correct {s : Threads τ (Pc β) (Sender β)} (h : Connected s) :
    s.shared.outstanding.length ≤ 1 ∧ s.shared.submitted <+: s.shared.enqueued ∧
      ((∀ t, s.locals t = .idle) → s.shared.outstanding = [] →
        s.shared.mSendQueue = [] ∧ s.shared.mbSendRegistered = false) := by
  have hinv := connected_inv h
  refine ⟨?_, ?_, fun hidle hout => ?_⟩
  · cases hinv.flag with
    | down _ hout _ _ => simp [hout]
    | held _ _ _ hout _ _ _ => simp [hout]
    | sending _ hone _ _ => exact Nat.le_of_eq hone
  · cases hinv.flag with
    | down _ _ _ horder => exact ⟨_, horder⟩
    | held _ _ _ _ _ _ horder => exact ⟨_, horder⟩
    | sending _ _ _ horder => exact ⟨_, horder⟩
  · have hdown : s.shared.mbSendRegistered = false := by
      cases hinv.flag with
      | down hdown _ _ _ => exact hdown
      | held t _ _ _ ht _ _ =>
        rw [hidle t] at ht
        cases ht
      | sending _ hone _ _ =>
        rw [hout] at hone
        cases hone
    refine ⟨?_, hdown⟩
    by_contra hne
    obtain ⟨t, ht⟩ := hinv.watched hdown hne
    rw [hidle t] at ht
    exact ht

/-- Two buffers sent by one thread, the second while the first is on its way. -/
theorem sender_correct_two : ∃ s : Threads Unit (Pc Nat) (Sender Nat),
    s.shared.enqueued = [7, 8] ∧ s.shared.outstanding.length ≤ 1 ∧
      s.shared.submitted <+: s.shared.enqueued ∧ s.shared.mSendQueue = [] ∧
      s.shared.mbSendRegistered = false := by
  let next : ThreadAction Unit (Act Nat) DisconnectReason := .thread () (.next .pending)
  have hinit : Connected ⟨new Nat 1000, fun _ : Unit => .idle⟩ :=
    .init ⟨⟨1000, rfl⟩, fun _ => rfl⟩
  have hrun := Machine.ReachableIf.exec
    [.thread () (.send 7), next, next, next, next, next, next, next,
      .thread () (.send 8), next, next, next, next,
      .thread () (.process 0 100), next, next, next, next, next, next, next, next, next,
      .thread () (.process 0 100), next, next, next, next] hinit
    (by simp [Machine.Allowed, next, Threads.Guard, Assumed, machine, Threads.machine, act, exec,
      Threads.set, new, isGone, maxSendWsabufSize, WsaResult.Accepted]) rfl
  obtain ⟨hone, hprefix, hdone⟩ := sender_correct hrun
  exact ⟨_, rfl, hone, hprefix, hdone (fun _ => rfl) rfl⟩

end CppNetEngine.Sender
