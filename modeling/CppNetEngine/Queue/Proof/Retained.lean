import CppNetEngine.Queue.Proof.Alone

/-!
# What nodes refer to

A node keeps its data when it becomes the dummy node of its queue, and when it is deleted, until
`TryEnqueue` writes to it again. What a call changes of the queues and of the data is said once
(`call_cases`). The nodes refer to what the queues contain as long as `TryDequeue` only finds items
that the queues contain a second time (`exact_iff_second`).
-/

namespace CppNetEngine.LockFreeQueue

variable {κ ι : Type*} [DecidableEq κ] {s s' : Contained κ ι} {g : κ → List Nat} {q : κ} {i : ι}
  {fuel : Nat} {c : Call κ (Option ι)}

/-- What a call changes of the queues and of the data. -/
inductive Changes (s s' : Contained κ ι) : Call κ (Option ι) → Prop
  | nothing {c : Call κ (Option ι)} : s'.content = s.content → s'.memory.data = s.memory.data →
    SecondGuard s c → Changes s s' c
  | enqueue {q : κ} {data : Option ι} {k : Outside} :
    s'.content = Function.update s.content q (s.content q ++ [data]) →
    s'.memory.data = Function.update s.memory.data k.address data →
    Changes s s' (.tryEnqueue q data k)
  | dequeue {q : κ} {outData x : Option ι} {l : List (Option ι)} {n : Nat} {k : Outside} :
    s.content q = x :: l → s'.content = Function.update s.content q l →
    s'.memory.data = s.memory.data → s.memory.data n = x → Changes s s' (.tryDequeue q outData k)

/-- **Every call returns**, and what it changes. -/
theorem call_cases (h : Holds s.memory g s.content) (hguard : AloneGuard s c)
    (hfuel : 13 ≤ fuel) :
    ∃ s', s.call fuel c = some s' ∧ (∃ g', Holds s'.memory g' s'.content) ∧ Changes s s' c := by
  obtain ⟨fuel, rfl⟩ := Nat.exists_eq_add_of_le' hfuel
  cases c with
  | construct q maxCount a =>
    obtain ⟨hq, ha⟩ := hguard
    exact ⟨_, rfl, ⟨_, h.construct (fun hc => hc hq) ha⟩, .nothing rfl rfl trivial⟩
  | tryEnqueue q data k =>
    obtain ⟨hc, ha⟩ := hguard
    by_cases hroom : ((s.content q).length : Int) < (s.memory.queue q).mMaxCount
    · obtain ⟨b, hrun, hholds⟩ := h.tryEnqueue fuel data hc hroom ha
      refine ⟨_, congrArg (Option.map _) hrun, ⟨_, hholds⟩, .enqueue rfl rfl⟩
    · have hrun := h.tryEnqueue_full k (fuel + 12) data (Int.not_lt.1 hroom)
      exact ⟨_, congrArg (Option.map _) hrun, ⟨_, h⟩, .nothing rfl rfl trivial⟩
  | tryDequeue q outData k =>
    cases hl : s.content q with
    | nil =>
      have hrun := h.tryDequeue_empty k (fuel + 11) outData hl
      refine ⟨_, congrArg (Option.map _) hrun, ⟨_, h⟩, .nothing rfl rfl fun i hi => ?_⟩
      rw [hl] at hi
      cases hi
    | cons x l =>
      obtain ⟨p, n, hrun, hholds, -, hn⟩ :=
        h.tryDequeue k (fuel + 4) outData hguard hl
      refine ⟨_, congrArg (Option.map _) hrun, ⟨takeNode g q, ?_⟩, .dequeue hl ?_ rfl hn⟩
      · change Holds _ _ (Function.update s.content q (s.content q).tail)
        rw [hl]
        exact hholds
      · change Function.update s.content q (s.content q).tail = _
        rw [hl]
        rfl

omit [DecidableEq κ] in
/-- What is in a queue is in a node. -/
theorem Holds.referred (h : Holds s.memory g s.content) (hi : ∃ q, some i ∈ s.content q) :
    ∃ n, s.memory.data n = some i := by
  obtain ⟨q, hi⟩ := hi
  rw [h.content] at hi
  obtain ⟨n, -, hn⟩ := List.mem_map.1 hi
  exact ⟨n, hn⟩

section Content

variable {β : Type*} {content : κ → List β} {x : β} {l : List β}

theorem exists_mem_update : (∃ q', x ∈ Function.update content q l q') ↔
    x ∈ l ∨ ∃ q', q' ≠ q ∧ x ∈ content q' := by
  constructor
  · rintro ⟨q', hx⟩
    by_cases hq : q' = q
    · rw [hq, Function.update_self] at hx
      exact .inl hx
    · rw [Function.update_of_ne hq] at hx
      exact .inr ⟨q', hq, hx⟩
  · rintro (hx | ⟨q', hq, hx⟩)
    · refine ⟨q, ?_⟩
      rw [Function.update_self]
      exact hx
    · refine ⟨q', ?_⟩
      rw [Function.update_of_ne hq]
      exact hx

theorem exists_mem_iff (q : κ) :
    (∃ q', x ∈ content q') ↔ x ∈ content q ∨ ∃ q', q' ≠ q ∧ x ∈ content q' := by
  rw [← exists_mem_update, Function.update_eq_self]

end Content

/-- **When a call keeps the nodes exact**: what `TryDequeue` has taken is still in a node. -/
theorem Changes.exact_iff (h : Changes s s' c) (hexact : Exact s)
    (hholds : Holds s'.memory g s'.content) : Exact s' ↔ SecondGuard s c := by
  have hiff : Exact s' ↔
      ∀ i, (∃ n, s'.memory.data n = some i) → ∃ q, some i ∈ s'.content q :=
    forall_congr' fun i => ⟨Iff.mp, fun hi => ⟨hi, hholds.referred⟩⟩
  rw [hiff]
  cases h with
  | nothing hcontent hdata hguard =>
    rw [hcontent, hdata]
    exact ⟨fun _ => hguard, fun _ i => (hexact i).1⟩
  | @enqueue q data k hcontent hdata =>
    rw [hcontent, hdata]
    refine ⟨fun _ => trivial, fun _ i ⟨n, hn⟩ => exists_mem_update.2 ?_⟩
    by_cases hnk : n = k.address
    · rw [hnk, Function.update_self] at hn
      rw [hn]
      exact .inl (List.mem_append_right _ (List.mem_singleton_self _))
    · rw [Function.update_of_ne hnk] at hn
      exact ((exists_mem_iff q).1 ((hexact i).1 ⟨n, hn⟩)).imp_left (List.mem_append_left _)
  | @dequeue q outData x l n k hl hcontent hdata hn =>
    have hguard : SecondGuard s (.tryDequeue q outData k) ↔
        ∀ i, x = some i → ∃ q', some i ∈ s'.content q' := by
      simp [SecondGuard, hl, hcontent, exists_mem_update]
    rw [hguard, hdata]
    constructor
    · intro hall i hx
      exact hall i ⟨n, hn.trans hx⟩
    · intro hx i hi
      rcases (exists_mem_iff q).1 ((hexact i).1 hi) with hi | hi
      · rw [hl] at hi
        rcases List.mem_cons.1 hi with heq | hi
        · exact hx i heq.symm
        · rw [hcontent]
          exact exists_mem_update.2 (.inl hi)
      · rw [hcontent]
        exact exists_mem_update.2 (.inr hi)

/-- **When the nodes refer to exactly what the queues contain**, throughout the calls of one thread:
if each `TryDequeue` finds a null pointer, or an item that the queues contain a second time. -/
theorem exact_iff_second (hfuel : 13 ≤ fuel) (h : (containedMachine κ ι fuel).init s)
    {calls : List (Call κ (Option ι))}
    (hguard : (containedMachine κ ι fuel).Allowed AloneGuard s calls) :
    (∃ s', (containedMachine κ ι fuel).exec s calls = some s') ∧
      ((containedMachine κ ι fuel).Always Exact s calls ↔
        (containedMachine κ ι fuel).Allowed SecondGuard s calls) := by
  obtain ⟨hinit, hnull, hcontent⟩ := h
  have hholds : ∃ g, Holds s.memory g s.content := by
    refine ⟨_, .init hinit.queue, fun q => ?_⟩
    rw [hcontent]
    rfl
  have hexact : Exact s := by
    refine fun i => ⟨fun ⟨n, hn⟩ => ?_, fun ⟨q, hi⟩ => ?_⟩
    · rw [hnull] at hn
      cases hn
    · rw [hcontent] at hi
      cases hi
  have hcall : ∀ (s : Contained κ ι) c, (∃ g, Holds s.memory g s.content) → AloneGuard s c →
      ∃ s', s.call fuel c = some s' ∧ (∃ g', Holds s'.memory g' s'.content) ∧ Changes s s' c := by
    intro s c ⟨g, hg⟩ hc
    exact call_cases hg hc hfuel
  obtain ⟨s', hs'⟩ := Machine.exec_of_allowed (M := containedMachine κ ι fuel) (B := AloneGuard)
    (I := fun s => ∃ g, Holds s.memory g s.content)
    (fun s c hI hc => by
      obtain ⟨s', hs', hI', -⟩ := hcall s c hI hc
      exact ⟨s', hs', hI'⟩) calls hholds hguard
  -- what a call that was made has changed
  have hstep : ∀ (s : Contained κ ι) c s', (∃ g, Holds s.memory g s.content) → AloneGuard s c →
      s.call fuel c = some s' → (∃ g', Holds s'.memory g' s'.content) ∧ Changes s s' c := by
    intro s c s' hI hc hs
    obtain ⟨s'', hs'', h⟩ := hcall s c hI hc
    cases hs.symm.trans hs''
    exact h
  refine ⟨⟨s', hs'⟩, Machine.always_iff_of_allowed
    (I := fun s => Exact s ∧ ∃ g, Holds s.memory g s.content) (fun s hI => hI.1)
    (fun s c s' hI hc hok hs => ?_) (fun s c s' hI hc hok hs hP => ?_) calls ⟨hexact, hholds⟩ hguard
    hs'⟩
  · obtain ⟨⟨g', hg'⟩, hchanges⟩ := hstep s c s' hI.2 hc hs
    exact ⟨(hchanges.exact_iff hI.1 hg').2 hok, g', hg'⟩
  · obtain ⟨⟨g', hg'⟩, hchanges⟩ := hstep s c s' hI.2 hc hs
    exact hok ((hchanges.exact_iff hI.1 hg').1 hP)

/-! ## An actor's queue -/

/-- The queues of actors, not constructed; a job is a number. -/
def noActors : Contained (Fin 2) Nat :=
  ⟨⟨fun _ => ⟨0, 0, ⟨none, 0⟩, ⟨none, 0⟩⟩, fun _ => none, fun _ => none, ∅⟩, fun _ => []⟩

theorem noActors_init : (containedMachine (Fin 2) Nat 13).init noActors :=
  ⟨⟨fun _ => rfl, rfl⟩, fun _ => rfl, rfl⟩

/-- The same job is posted to both actors; the first one executes it. -/
theorem exact_iff_second_twice : (containedMachine (Fin 2) Nat 13).Always Exact noActors
    [.construct 0 10 0, .construct 1 10 1, .tryEnqueue 0 (some 7) ⟨2, false⟩,
      .tryEnqueue 1 (some 7) ⟨3, false⟩, .tryDequeue 0 none ⟨0, false⟩] :=
  (exact_iff_second (Nat.le_refl _) noActors_init (by decide +kernel)).2.2 (by decide +kernel)

/-- **A job that is kept**: it is posted to an actor and executed, no queue contains it any more, and
the dummy node of the actor's queue refers to it, with whatever it has captured. -/
theorem not_exact : ∃ s : Contained (Fin 2) Nat,
    (containedMachine (Fin 2) Nat 13).ReachableIf AloneGuard s ∧ (∀ q, s.content q = []) ∧
      (s.memory.queue 0).mHead.pNode = some 1 ∧ s.memory.data 1 = some 7 ∧ ¬ Exact s := by
  let run : List (Call (Fin 2) (Option Nat)) :=
    [.construct 0 10 0, .tryEnqueue 0 (some 7) ⟨1, false⟩, .tryDequeue 0 none ⟨0, false⟩]
  have hguard : (containedMachine (Fin 2) Nat 13).Allowed AloneGuard noActors run := by
    decide +kernel
  refine ⟨_, Machine.ReachableIf.exec run (.init noActors_init) hguard rfl, ?_, rfl, rfl,
    fun hexact => ?_⟩
  · decide +kernel
  · obtain ⟨q, hq⟩ := (hexact 7).1 ⟨1, rfl⟩
    revert hq
    revert q
    decide +kernel

end CppNetEngine.LockFreeQueue
