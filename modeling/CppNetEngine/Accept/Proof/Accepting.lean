import CppNetEngine.Accept.Listener
import Mathlib.Algebra.BigOperators.Group.List.Basic
import Mathlib.Algebra.Ring.Nat

/-!
# Accepting degrades with every bad client

Each acceptor is armed, with one `AcceptEx` outstanding for a new session, or it is dead, with none
(`AcceptInv`). A completion whose `SetUpdateAcceptSocket` and `getpeername` succeed arms it again,
whatever `AddSession` answers; any other leaves it dead (`step_armed`). So the acceptors are all
armed exactly as long as no client was bad (`accepting_iff`).
-/

namespace CppNetEngine

/-- The acceptor can process the completion of its one `AcceptEx`. -/
def Acceptor.Ready (a : Acceptor) : Prop :=
  a.mpOwner = true ∧ a.mpService = true ∧ a.mEventOwner = true ∧
    ∃ pSession, a.mpClientSession = some pSession ∧ a.outstanding = [pSession]

namespace Listener

/-- The client of the completion is still there. -/
def Completion.Good (c : Completion) : Bool :=
  c.answers.setUpdateAcceptSocket && c.answers.getpeername

/-- The acceptor `i` has exactly one `AcceptEx` outstanding, for a session that is in its event, was
accepted by none before and is with no other acceptor. -/
def Armed (l : Listener) (i : Nat) : Prop :=
  ∃ a pSession, l.mAcceptors[i]? = some a ∧ a.outstanding = [pSession] ∧
    a.mpClientSession = some pSession ∧ pSession ∉ l.accepted ∧
    ∀ (j : Nat) b, l.mAcceptors[j]? = some b → pSession ∈ b.outstanding → j = i

/-- The number of `AcceptEx` outstanding. -/
def outstandingCount (l : Listener) : Nat := (l.mAcceptors.map (·.outstanding.length)).sum

/-! ## The invariant -/

structure AcceptInv (n : Nat) (l : Listener) : Prop where
  length : l.mAcceptors.length = n
  acceptor : ∀ a ∈ l.mAcceptors, a.Ready ∨ a.outstanding = []
  outstanding : ∀ a ∈ l.mAcceptors, ∀ s ∈ a.outstanding, s < l.created ∧ s ∉ l.accepted
  accepted : ∀ s ∈ l.accepted, s < l.created
  distinct : ∀ (i j : Nat) a b s, l.mAcceptors[i]? = some a → l.mAcceptors[j]? = some b →
    s ∈ a.outstanding → s ∈ b.outstanding → i = j

theorem sum_map_set {α : Type} (f : α → Nat) {xs : List α} (y : α) {x : α} {i : Nat}
    (h : xs[i]? = some x) : ((xs.set i y).map f).sum + f x = (xs.map f).sum + f y := by
  induction xs generalizing i with
  | nil => simp at h
  | cons z xs ih =>
    cases i with
    | zero =>
      cases h
      simp only [List.set_cons_zero, List.map_cons, List.sum_cons]
      omega
    | succ i =>
      have := ih h
      simp only [List.set_cons_succ, List.map_cons, List.sum_cons]
      omega

theorem sum_map_le_length {α : Type} {f : α → Nat} {xs : List α} (hle : ∀ x ∈ xs, f x ≤ 1) :
    (xs.map f).sum ≤ xs.length := by
  induction xs with
  | nil => exact Nat.le_refl _
  | cons x xs ih =>
    obtain ⟨hx, hxs⟩ := List.forall_mem_cons.1 hle
    have := ih hxs
    rw [List.map_cons, List.sum_cons, List.length_cons]
    omega

theorem sum_map_eq_length {α : Type} {f : α → Nat} {xs : List α} (hle : ∀ x ∈ xs, f x ≤ 1) :
    (∀ x ∈ xs, f x = 1) ↔ (xs.map f).sum = xs.length := by
  induction xs with
  | nil => simp
  | cons x xs ih =>
    obtain ⟨hx, hxs⟩ := List.forall_mem_cons.1 hle
    have hsum := sum_map_le_length hxs
    have hiff := ih hxs
    rw [List.forall_mem_cons, List.map_cons, List.sum_cons, List.length_cons, hiff]
    omega

variable {n i : Nat} {l l' : Listener} {a b : Acceptor} {c : Completion}

theorem AcceptInv.armed_iff (hI : AcceptInv n l) :
    l.Armed i ↔ ∃ a, l.mAcceptors[i]? = some a ∧ a.outstanding.length = 1 := by
  refine ⟨?_, ?_⟩
  · rintro ⟨a, s, ha, hout, -⟩
    exact ⟨a, ha, by rw [hout]; rfl⟩
  · rintro ⟨a, ha, hout⟩
    have hmem := List.mem_of_getElem? ha
    rcases hI.acceptor a hmem with ⟨-, -, -, s, hs, hout'⟩ | hnone
    · have hsa : s ∈ a.outstanding := by rw [hout']; exact List.mem_singleton_self s
      exact ⟨a, s, ha, hout', hs, (hI.outstanding a hmem s hsa).2,
        fun j b hb hsb => hI.distinct j i b a s hb ha hsb hsa⟩
    · rw [hnone] at hout
      cases hout

theorem AcceptInv.set (hI : AcceptInv n l) (ha : l.mAcceptors[i]? = some a)
    (hlist : l'.mAcceptors = l.mAcceptors.set i b) (hcreated : l.created ≤ l'.created)
    (haccepted : ∀ s ∈ l'.accepted, s ∈ l.accepted ∨ s ∈ a.outstanding)
    (hb : b.Ready ∨ b.outstanding = [])
    (hnew : ∀ s ∈ b.outstanding, l.created ≤ s ∧ s < l'.created) : AcceptInv n l' := by
  have hlt : i < l.mAcceptors.length := (List.getElem?_eq_some_iff.1 ha).1
  have hget : ∀ (j : Nat) d, l'.mAcceptors[j]? = some d →
      (j = i ∧ d = b) ∨ (j ≠ i ∧ l.mAcceptors[j]? = some d) := by
    intro j d hd
    by_cases hj : j = i
    · subst hj
      rw [hlist, List.getElem?_set_self hlt] at hd
      exact .inl ⟨rfl, (Option.some.inj hd).symm⟩
    · rw [hlist, List.getElem?_set_ne (Ne.symm hj)] at hd
      exact .inr ⟨hj, hd⟩
  have hcases : ∀ d ∈ l'.mAcceptors, d = b ∨ ∃ j, j ≠ i ∧ l.mAcceptors[j]? = some d := by
    intro d hd
    obtain ⟨j, hj⟩ := List.mem_iff_getElem?.1 hd
    rcases hget j d hj with ⟨-, rfl⟩ | ⟨hj, hd⟩
    · exact .inl rfl
    · exact .inr ⟨j, hj, hd⟩
  have hold : ∀ s ∈ l'.accepted, s < l.created := by
    intro s hs
    rcases haccepted s hs with hs | hs
    · exact hI.accepted s hs
    · exact (hI.outstanding a (List.mem_of_getElem? ha) s hs).1
  refine ⟨?_, ?_, ?_, fun s hs => Nat.lt_of_lt_of_le (hold s hs) hcreated, ?_⟩
  · rw [hlist, List.length_set]
    exact hI.length
  · intro d hd
    rcases hcases d hd with rfl | ⟨j, -, hd⟩
    · exact hb
    · exact hI.acceptor d (List.mem_of_getElem? hd)
  · intro d hd s hs
    rcases hcases d hd with rfl | ⟨j, hj, hd⟩
    · refine ⟨(hnew s hs).2, fun hmem => ?_⟩
      have := hold s hmem
      have := (hnew s hs).1
      omega
    · obtain ⟨hlts, hnot⟩ := hI.outstanding d (List.mem_of_getElem? hd) s hs
      refine ⟨Nat.lt_of_lt_of_le hlts hcreated, fun hmem => ?_⟩
      rcases haccepted s hmem with hmem | hmem
      · exact hnot hmem
      · exact hj (hI.distinct j i d a s hd ha hs hmem)
  · -- a session in two acceptors is not a new one
    have hother : ∀ (j : Nat) d s, j ≠ i → l.mAcceptors[j]? = some d → s ∈ d.outstanding →
        s ∈ b.outstanding → False := by
      intro j d s _ hd hs hsb
      have := (hI.outstanding d (List.mem_of_getElem? hd) s hs).1
      have := (hnew s hsb).1
      omega
    intro j k d e s hd he hsd hse
    rcases hget j d hd with ⟨rfl, rfl⟩ | ⟨hj, hd⟩ <;> rcases hget k e he with ⟨rfl, rfl⟩ | ⟨hk, he⟩
    · rfl
    · exact (hother k e s hk he hse hsd).elim
    · exact (hother j d s hj hd hsd hse).elim
    · exact hI.distinct j k d e s hd he hsd hse

/-! ## Steps -/

/-- **What `Process` leaves of an acceptor that was ready**: it is ready for a new session if the
client was good, and dead otherwise. -/
theorem step_ready (ha : l.mAcceptors[c.acceptorIndex]? = some a) (hready : a.Ready)
    (hk : c.answers.register.Succeeds) :
    ∃ l' b, step l c = some l' ∧ l'.mAcceptors = l.mAcceptors.set c.acceptorIndex b ∧
      l.created ≤ l'.created ∧ l'.accepted = l.accepted ++ a.outstanding ∧
      if c.Good then b.Ready ∧ b.outstanding = [l.created] ∧ l.created < l'.created
      else b.outstanding = [] := by
  obtain ⟨howner, hservice, hevent, s, hs, hout⟩ := hready
  obtain ⟨hcreate, haccept⟩ := hk
  have hlt : c.acceptorIndex < l.mAcceptors.length := (List.getElem?_eq_some_iff.1 ha).1
  have hdead : c.Good = false → step l c = some
      { l.set c.acceptorIndex { a.clear with mpClientSession := none, outstanding := [] } with
        accepted := l.accepted ++ a.outstanding } := by
    intro hbad
    unfold step
    cases hupdate : c.answers.setUpdateAcceptSocket <;>
      simp_all [dispatch, process, set, Completion.Good, Acceptor.clear]
  have harmed : c.Good = true → step l c = some
      { l.set c.acceptorIndex
          { a with mpClientSession := some l.created, outstanding := [l.created] } with
        accepted := l.accepted ++ a.outstanding
        created := l.created + 1
        connected := l.connected ++ [(s, c.answers.addSession)] } := by
    intro hgood
    unfold step
    cases hresult : c.answers.register.acceptEx with
    | error errorCode =>
      rw [hresult] at haccept
      exact haccept.elim
    | ok | pending => simp_all [dispatch, process, register, set, Completion.Good]
  cases hgood : c.Good with
  | false => exact ⟨_, _, hdead hgood, rfl, Nat.le_refl _, rfl, rfl⟩
  | true =>
    exact ⟨_, _, harmed hgood, rfl, Nat.le_succ _, rfl, ⟨howner, hservice, hevent, _, rfl, rfl⟩,
      rfl, Nat.lt_succ_self _⟩

/-- An acceptor with a completion is ready, and processes it. -/
theorem AcceptInv.step (hI : AcceptInv n l) (hk : c.answers.register.Succeeds)
    (ha : l.mAcceptors[c.acceptorIndex]? = some a) (hout : a.outstanding ≠ []) :
    ∃ l', step l c = some l' ∧ AcceptInv n l' ∧
      l'.outstandingCount + (if c.Good then 0 else 1) = l.outstandingCount := by
  have hready := (hI.acceptor a (List.mem_of_getElem? ha)).resolve_right hout
  obtain ⟨l', b, hstep, hlist, hcreated, haccepted, hb⟩ := step_ready ha hready hk
  obtain ⟨-, -, -, s, -, hs⟩ := hready
  refine ⟨l', hstep, hI.set ha hlist hcreated ?_ ?_ ?_, ?_⟩
  · intro s hs
    rw [haccepted] at hs
    exact List.mem_append.1 hs
  · split at hb
    · exact .inl hb.1
    · exact .inr hb
  · intro s hs
    split at hb
    · rw [hb.2.1, List.mem_singleton] at hs
      rw [hs]
      exact ⟨Nat.le_refl _, hb.2.2⟩
    · rw [hb] at hs
      cases hs
  · have hsum := sum_map_set (fun a : Acceptor => a.outstanding.length) b ha
    rw [outstandingCount, outstandingCount, hlist]
    rw [hs] at hsum
    split at hb <;> rename_i hgood
    · rw [hb.2.1] at hsum
      simp only [hgood, if_true]
      exact Nat.add_right_cancel hsum
    · rw [hb] at hsum
      simpa [hgood] using hsum

/-! ## Runs -/

theorem run_count (cs : List Completion) : ∀ {l l' : Listener}, AcceptInv n l →
    (∀ c ∈ cs, c.answers.register.Succeeds) → (machine n).exec l cs = some l' →
    AcceptInv n l' ∧ l'.outstandingCount + cs.countP (!·.Good) = l.outstandingCount := by
  induction cs with
  | nil =>
    intro l l' hI _ h
    cases h
    exact ⟨hI, rfl⟩
  | cons c cs ih =>
    intro l l' hI hk h
    obtain ⟨l1, h1, h2⟩ := Option.bind_eq_some_iff.1 h
    -- only an acceptor with a completion takes a step
    obtain ⟨a, ha, hout⟩ : ∃ a, l.mAcceptors[c.acceptorIndex]? = some a ∧ a.outstanding ≠ [] := by
      obtain ⟨a, ha, hs⟩ := Option.bind_eq_some_iff.1 h1
      refine ⟨a, ha, fun hout => ?_⟩
      simp only [hout] at hs
      cases hs
    obtain ⟨l1', h1', hI1, hcount⟩ := hI.step (hk c List.mem_cons_self) ha hout
    cases Option.some.inj (h1.symm.trans h1')
    obtain ⟨hI', hcount'⟩ := ih hI1 (fun d hd => hk d (List.mem_cons_of_mem _ hd)) h2
    refine ⟨hI', ?_⟩
    rw [List.countP_cons, ← hcount, ← hcount']
    cases c.Good with
    | false =>
      simp
      omega
    | true => simp

theorem AcceptInv.append (hI : AcceptInv n l) :
    AcceptInv (n + 1) { l with mAcceptors := l.mAcceptors ++ [Acceptor.new] } := by
  have hget : ∀ (i : Nat) a s, (l.mAcceptors ++ [Acceptor.new])[i]? = some a → s ∈ a.outstanding →
      l.mAcceptors[i]? = some a := by
    intro i a s ha hs
    rcases Nat.lt_or_ge i l.mAcceptors.length with hi | hi
    · rwa [List.getElem?_append_left hi] at ha
    · rw [List.getElem?_append_right hi] at ha
      obtain rfl := List.mem_singleton.1 (List.mem_of_getElem? ha)
      cases hs
  have hmem : ∀ a ∈ l.mAcceptors ++ [Acceptor.new], a ∈ l.mAcceptors ∨ a.outstanding = [] := by
    intro a ha
    rcases List.mem_append.1 ha with ha | ha
    · exact .inl ha
    · exact .inr (by rw [List.mem_singleton.1 ha]; rfl)
  refine ⟨by simp [hI.length], fun a ha => ?_, fun a ha s hs => ?_, hI.accepted, ?_⟩
  · rcases hmem a ha with ha | hout
    · exact hI.acceptor a ha
    · exact .inr hout
  · rcases hmem a ha with ha | hout
    · exact hI.outstanding a ha s hs
    · rw [hout] at hs
      cases hs
  · exact fun i j a b s ha hb hsa hsb =>
      hI.distinct i j a b s (hget i a s ha hsa) (hget j b s hb hsb) hsa hsb

theorem startAccept_inv (k : Nat → RegisterAnswers) (hk : ∀ i, (k i).Succeeds) (m : Nat) :
    ∀ {n : Nat} {l : Listener}, AcceptInv n l → l.outstandingCount = n →
      ∃ l', startAccept k m l = some l' ∧ AcceptInv (n + m) l' ∧ l'.outstandingCount = n + m := by
  induction m with
  | zero => exact fun {n l} hI hcount => ⟨l, rfl, hI, hcount⟩
  | succ m ih =>
    intro n l hI hcount
    have hlast : (l.mAcceptors ++ [Acceptor.new])[l.mAcceptors.length]? = some Acceptor.new := by
      simp
    obtain ⟨hcreate, haccept⟩ := hk l.mAcceptors.length
    let b : Acceptor :=
      { Acceptor.new with mpClientSession := some l.created, outstanding := [l.created] }
    have hreg : register { l with mAcceptors := l.mAcceptors ++ [Acceptor.new] } l.mAcceptors.length
        (k l.mAcceptors.length) = some
          { l with
            mAcceptors := (l.mAcceptors ++ [Acceptor.new]).set l.mAcceptors.length b
            created := l.created + 1 } := by
      unfold register
      simp only [hlast, Option.bind_some, hcreate]
      cases hresult : (k l.mAcceptors.length).acceptEx with
      | error errorCode =>
        rw [hresult] at haccept
        exact haccept.elim
      | ok | pending => rfl
    have hI' : AcceptInv (n + 1) { l with
        mAcceptors := (l.mAcceptors ++ [Acceptor.new]).set l.mAcceptors.length b
        created := l.created + 1 } := by
      refine hI.append.set hlast rfl (Nat.le_succ _) (fun s hs => .inl hs)
        (.inl ⟨rfl, rfl, rfl, _, rfl, rfl⟩) (fun s hs => ?_)
      rw [List.mem_singleton.1 hs]
      exact ⟨Nat.le_refl _, Nat.lt_succ_self _⟩
    obtain ⟨l', hl', hI'', hcount'⟩ := ih hI' (by
      simp [outstandingCount, Acceptor.new, b, ← hcount])
    refine ⟨l', ?_, ?_, ?_⟩
    · rw [startAccept, hreg]
      exact hl'
    · rwa [Nat.add_assoc, Nat.add_comm 1 m] at hI''
    · omega

theorem init_inv (h : (machine n).init l) : AcceptInv n l ∧ l.outstandingCount = n := by
  obtain ⟨k, hk, hstart⟩ := h
  have hnew : AcceptInv 0 (new n) :=
    ⟨rfl, fun a ha => (nomatch ha), fun a ha => (nomatch ha), fun s hs => (nomatch hs),
      fun i j a b s ha => (nomatch ha)⟩
  obtain ⟨l', hl', hI, hcount⟩ := startAccept_inv k hk n hnew rfl
  cases Option.some.inj (hstart.symm.trans hl')
  rw [Nat.zero_add] at hI hcount
  exact ⟨hI, hcount⟩

theorem AcceptInv.all_armed (hI : AcceptInv n l) :
    (∀ i < n, l.Armed i) ↔ l.outstandingCount = n := by
  have hle : ∀ a ∈ l.mAcceptors, a.outstanding.length ≤ 1 := by
    intro a ha
    rcases hI.acceptor a ha with ⟨-, -, -, s, -, hs⟩ | hs <;> simp [hs]
  rw [outstandingCount, ← hI.length, ← sum_map_eq_length hle]
  refine ⟨fun h a ha => ?_, fun h i hi => ?_⟩
  · obtain ⟨i, hi⟩ := List.mem_iff_getElem?.1 ha
    obtain ⟨b, hb, hout⟩ := hI.armed_iff.1 (h i (List.getElem?_eq_some_iff.1 hi).1)
    rw [hi] at hb
    cases hb
    exact hout
  · have hget := List.getElem?_eq_getElem hi
    exact hI.armed_iff.2 ⟨_, hget, h _ (List.mem_of_getElem? hget)⟩

/-- **Accepting degrades with every bad client**: after any sequence of completions every acceptor
is armed if and only if no client was bad, and as many `AcceptEx` are outstanding as there are
acceptors without the bad clients. Every further completion is processed. -/
theorem accepting_iff {cs : List Completion} (hinit : (machine n).init l)
    (hk : ∀ c ∈ cs, c.answers.register.Succeeds) (h : (machine n).exec l cs = some l') :
    ((∀ i < n, l'.Armed i) ↔ ∀ c ∈ cs, c.Good = true) ∧
      l'.outstandingCount + cs.countP (!·.Good) = n ∧
      ∀ c a, c.answers.register.Succeeds → l'.mAcceptors[c.acceptorIndex]? = some a →
        a.outstanding ≠ [] → (step l' c).isSome := by
  obtain ⟨hI, hcount⟩ := init_inv hinit
  obtain ⟨hI', hcount'⟩ := run_count cs hI hk h
  rw [hcount] at hcount'
  refine ⟨?_, hcount', fun c a hc ha hout => ?_⟩
  · rw [hI'.all_armed]
    have hbad : cs.countP (!·.Good) = 0 ↔ ∀ c ∈ cs, c.Good = true := by
      simp [List.countP_eq_zero]
    rw [← hbad]
    omega
  · obtain ⟨l'', hl'', -⟩ := hI'.step hc ha hout
    rw [hl'']
    rfl

/-! ## Two acceptors -/

def answers (getpeername addSession : Bool) : ProcessAnswers :=
  { setUpdateAcceptSocket := true
    getpeername := getpeername
    addSession := addSession
    register := { createSession := true, acceptEx := .pending } }

/-- Two acceptors, as `StartAccept` leaves them. -/
def twoAcceptors : Listener :=
  { new 2 with
    mAcceptors :=
      [{ Acceptor.new with mpClientSession := some 0, outstanding := [0] },
        { Acceptor.new with mpClientSession := some 1, outstanding := [1] }]
    created := 2 }

theorem twoAcceptors_init : (machine 2).init twoAcceptors :=
  ⟨fun _ => ⟨true, .pending⟩, fun _ => ⟨rfl, trivial⟩, rfl⟩

/-- A client that the server is too full for, and one that is gone. -/
theorem accepting_iff_two : ∃ l : Listener,
    (machine 2).exec twoAcceptors [⟨1, answers true false⟩, ⟨0, answers false true⟩] = some l ∧
      l.outstandingCount + 1 = 2 := by
  have hrun : (machine 2).exec twoAcceptors
      [⟨1, answers true false⟩, ⟨0, answers false true⟩] = some _ := rfl
  refine ⟨_, hrun, (accepting_iff twoAcceptors_init ?_ hrun).2.1⟩
  exact List.forall_mem_cons.2 ⟨⟨rfl, trivial⟩, List.forall_mem_singleton.2 ⟨rfl, trivial⟩⟩

/-- A client that is gone before its accept is processed. -/
theorem not_accepting : ∃ (l : Listener) (c : Completion), (machine 2).init twoAcceptors ∧
    c.answers.register.Succeeds ∧ step twoAcceptors c = some l ∧
      l.outstandingCount ≠ l.mAcceptCount ∧ ¬ l.Armed 0 := by
  refine ⟨_, ⟨0, answers false true⟩, twoAcceptors_init, ⟨rfl, trivial⟩, rfl, by decide, ?_⟩
  rintro ⟨a, s, ha, hout, -⟩
  cases ha
  cases hout

end Listener

end CppNetEngine
