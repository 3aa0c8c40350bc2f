import CppNetEngine.Lib.Atomic
import CppNetEngine.Stack.Proof.Bound

/-!
# A lock-free stack is a stack

The calls of `TryPush` and `TryPop` are linearizable, though nodes are deleted and handed out again
while other calls still point to them: `TryPush` puts its value on top of the others, and `TryPop`
takes the value on top, each at its compare-and-swap. When they return `false` is part of this.
`TryPush` does so only where the stack holds `mMaxCount` values or more, but `TryPop` also does where
there are values, as long as there are no more of them than other calls in progress.
-/

namespace CppNetEngine.LockFreeStack

open TopNode AtomicObject

variable {τ α : Type*}

/-! ## The atomic stack -/

/-- A stack as its callers see it, with the value on top first. -/
structure Contents (α : Type*) where
  mMaxCount : Int
  values : List α

inductive Call (α : Type*)
  | tryPush (data : α)
  | tryPop

/-- What a call returns: `TryPop` returns `true` with a value. -/
inductive Return (α : Type*)
  | tryPush (pushed : Bool)
  | tryPop (outData : Option α)

/-- Other threads call the stack, too, as many as it has values or more. -/
def Busy (o : Threads τ (Phase (Call α) (Return α)) (Contents α)) (t : τ) : Prop :=
  ∃ others : List τ, others.Nodup ∧ (∀ u ∈ others, u ≠ t ∧ o.locals u ≠ .idle) ∧
    o.shared.values.length ≤ others.length

/-- What the calls do. -/
inductive Answered (o : Threads τ (Phase (Call α) (Return α)) (Contents α)) (t : τ) :
    Call α → Return α → Contents α → Prop
  | pushed (data : α) : Answered o t (.tryPush data) (.tryPush true)
      ⟨o.shared.mMaxCount, data :: o.shared.values⟩
  | full (data : α) : o.shared.mMaxCount ≤ o.shared.values.length →
      Answered o t (.tryPush data) (.tryPush false) o.shared
  | popped (outData : α) (values : List α) : o.shared.values = outData :: values →
      Answered o t .tryPop (.tryPop (some outData)) ⟨o.shared.mMaxCount, values⟩
  | empty : Busy o t → Answered o t .tryPop (.tryPop none) o.shared

/-! ## What is seen of a stack -/

/-- What a thread returns with its next step. -/
def returns (m : Memory α) : Pc α → Option (Call α × Return α)
  | .tryPush data .loadCount =>
    if m.mMaxCount ≤ m.mCount then some (.tryPush data, .tryPush false) else none
  | .tryPush data .fetchAdd => some (.tryPush data, .tryPush true)
  | .tryPop _ .fetchAdd => some (.tryPop, .tryPop none)
  | .tryPop outData (.deleteObject _) => some (.tryPop, .tryPop (some outData))
  | _ => none

/-- The calls and returns that are seen of a step. -/
def seen (s : State τ α) :
    ThreadAction τ (Action α) Empty → List (CallEvent τ (Call α) (Return α))
  | .thread t (.tryPush data) => [.call t (.tryPush data)]
  | .thread t (.tryPop _) => [.call t .tryPop]
  | .thread t (.next _) =>
    ((returns s.shared (s.locals t)).map fun r => .ret t r.1 r.2).toList

/-- The runs, with the calls and returns. -/
abbrev Observed [DecidableEq τ] : List (CallEvent τ (Call α) (Return α)) → State τ α → Prop :=
  (machine τ α).Observed (Threads.Guard CallsGuard fun _ _ => True) seen

/-! ## The stack behind the nodes -/

/-- Where a call is, by where its thread is. -/
def phase (m : Memory α) : Pc α → Phase (Call α) (Return α)
  | .idle => .idle
  | .tryPush data .fetchAdd => .answered (.tryPush data) (.tryPush true)
  | .tryPush data _ => .called (.tryPush data)
  | .tryPop _ .fetchSub | .tryPop _ (.pop _) => .called .tryPop
  | .tryPop _ .fetchAdd => .answered .tryPop (.tryPop none)
  | .tryPop _ (.readData pNode) => .answered .tryPop (.tryPop (some (m.data pNode)))
  | .tryPop outData (.deleteObject _) => .answered .tryPop (.tryPop (some outData))

/-- The stack that the nodes stand for. -/
def contents (m : Memory α) (l : List Nat) : Contents α := ⟨m.mMaxCount, l.map m.data⟩

/-- The node that a thread puts on the stack has its value. -/
def Pc.Wrote (m : Memory α) : Pc α → Prop
  | .tryPush data (.push pDesired _) => m.data pDesired = data
  | _ => True

/-- The nodes are `l`, and the values are written. -/
structure Holds (s : State τ α) (l : List Nat) : Prop where
  nodes : ∃ pops, users.Inv s pops l
  wrote : ∀ t, (s.locals t).Wrote s.shared

variable [DecidableEq τ] {s : State τ α} {t : τ} {m : Memory α} {pc pc₀ : Pc α} {k : Outside}
  {pops : Nat} {l l' : List Nat}

/-- What a step of a thread is for the stack behind the nodes, which are `l'` then. -/
structure Follows (s : State τ α) (t : τ) (h : List (CallEvent τ (Call α) (Return α)))
    (m : Memory α) (pc : Pc α) (l l' : List Nat) : Prop where
  does : Does Answered (behind phase s (contents s.shared l)) t (phase s.shared (s.locals t)) h
    (contents m l') (phase m pc)
  holds : Holds (s.set t m pc) l'
  others : ∀ u, u ≠ t → phase m (s.locals u) = phase s.shared (s.locals u)

theorem Moved.nodes {a : Action α} (h : Moved s t a m pc l)
    (hl : Linked m.links.pNextNode m.links.top.pNode l') :
    ∃ pops, users.Inv (s.set t m pc) pops l' := by
  obtain ⟨pops, l'', hinv, -⟩ := h
  rw [hl.unique hinv.links.linked]
  exact ⟨pops, hinv⟩

/-- Nobody else reads what a thread writes to its node. -/
theorem Holds.step (h : Holds s l) {e : List (CallEvent τ (Call α) (Return α))}
    (hpc : s.locals t = pc₀) (hnodes : ∃ pops, users.Inv (s.set t m pc) pops l')
    (hdata : ∀ p, users.holds pc₀ ≠ some p → m.data p = s.shared.data p) (hwrote : pc.Wrote m)
    (hdoes : Does Answered (behind phase s (contents s.shared l)) t (phase s.shared pc₀) e
      (contents m l') (phase m pc)) : Follows s t e m pc l l' := by
  subst hpc
  obtain ⟨pops, hinv⟩ := h.nodes
  have hother : ∀ u p, u ≠ t → users.holds (s.locals u) = some p →
      m.data p = s.shared.data p :=
    fun u p hut hu => hdata p fun ht => hut (hinv.apart u t p hu ht)
  refine ⟨hdoes, ⟨hnodes, fun u => ?_⟩, fun u hut => ?_⟩
  · by_cases hut : u = t
    · subst hut
      rw [Threads.set_self]
      exact hwrote
    · rw [Threads.set_other _ _ _ _ hut, Threads.set_shared]
      have hold := h.wrote u
      cases hpc : s.locals u with
      | idle | tryPop => trivial
      | tryPush data step =>
        rw [hpc] at hold
        cases step with
        | push p step => exact (hother u p hut (by rw [hpc]; rfl)).trans hold
        | loadCount | newObject | setData | fetchAdd => trivial
  · cases hpc : s.locals u with
    | idle => rfl
    | tryPush data step => cases step <;> rfl
    | tryPop outData step =>
      cases step with
      | readData p =>
        have heq := hother u p hut (by rw [hpc]; rfl)
        simp only [phase, heq]
      | fetchSub | fetchAdd | pop | deleteObject => rfl

/-! ## The steps -/

/-- The returns that are seen of a step. -/
abbrev seenNext (t : τ) (m : Memory α) (pc : Pc α) : List (CallEvent τ (Call α) (Return α)) :=
  ((returns m pc).map fun r => .ret t r.1 r.2).toList

theorem tryPushStep_follows (h : Holds s l) {data : α} {step : TryPushStep}
    (hpc : s.locals t = .tryPush data step) (hguard : CallsGuard s t (.next k)) :
    ∃ l', Follows s t (seenNext t s.shared (.tryPush data step)) (tryPushStep k s.shared data step).1
      (tryPushStep k s.shared data step).2 l l' := by
  obtain ⟨pops, hinv⟩ := h.nodes
  have hmoved := tryPushStep_moved hinv hpc hguard
  have hwrote := h.wrote t
  rw [hpc] at hwrote
  cases step with
  | loadCount =>
    have hnodes := hmoved.nodes hinv.links.linked
    simp only [tryPushStep] at hnodes ⊢
    split <;> rename_i hfull
    · rw [if_pos hfull] at hnodes
      refine ⟨l, h.step hpc hnodes (fun _ _ => rfl) trivial ?_⟩
      have hle : s.shared.mCount ≤ l.length := hinv.count.le
      have hlength : s.shared.mMaxCount ≤ ((l.map s.shared.data).length : Int) := by
        rw [List.length_map]
        omega
      simp only [seenNext, returns, if_pos hfull]
      exact .answerRet (.full data hlength)
    · rw [if_neg hfull] at hnodes
      refine ⟨l, h.step hpc hnodes (fun _ _ => rfl) trivial ?_⟩
      simp only [seenNext, returns, if_neg hfull]
      exact .quiet _
  | newObject =>
    have hnodes := hmoved.nodes hinv.links.linked
    exact ⟨l, h.step hpc hnodes (fun _ _ => rfl) trivial (.quiet _)⟩
  | setData p =>
    have hnodes := hmoved.nodes hinv.links.linked
    have hmine : users.holds (s.locals t) = some p := by rw [hpc]; rfl
    have hdata : ∀ q, q ≠ p → Function.update s.shared.data p data q = s.shared.data q :=
      fun q hq => Function.update_of_ne hq _ _
    have hsame : contents { s.shared with data := Function.update s.shared.data p data } l =
        contents s.shared l := by
      refine congrArg (Contents.mk s.shared.mMaxCount) (List.map_congr_left fun q hq => ?_)
      exact hdata q (by rintro rfl; exact (hinv.holds t q hmine).2 hq)
    refine ⟨l, h.step hpc hnodes (fun q hq => hdata q ?_) (Function.update_self _ _ _) ?_⟩
    · rintro rfl
      exact hq rfl
    · rw [tryPushStep, hsame]
      exact .quiet _
  | push p step =>
    have hmine : users.holds (s.locals t) = some p := by rw [hpc]; rfl
    have hpush : PushOk s.shared.links p step :=
      hinv.pushing t p step hmine (by rw [hpc]; rfl)
    simp only [tryPushStep] at hmoved ⊢
    cases hs : pushStep k.spurious s.shared.links p step with
    | mk links r =>
      rw [hs] at hmoved
      obtain ⟨step', rfl, -, hlinks, -⟩ | ⟨rfl, -, hlinks⟩ :=
        pushStep_cases hs hinv.links (hinv.holds t p hmine).2 hpush
      · have hnodes := hmoved.nodes hlinks.linked
        exact ⟨l, h.step hpc hnodes (fun _ _ => rfl) hwrote (.quiet _)⟩
      · have hnodes := hmoved.nodes hlinks.linked
        refine ⟨p :: l, h.step hpc hnodes (fun _ _ => rfl) trivial (.answer ?_)⟩
        have hcons : contents s.shared (p :: l) =
            ⟨s.shared.mMaxCount, data :: l.map s.shared.data⟩ := by
          rw [← (hwrote : s.shared.data p = data)]
          rfl
        exact hcons ▸ .pushed data
  | fetchAdd =>
    have hnodes := hmoved.nodes hinv.links.linked
    exact ⟨l, h.step hpc hnodes (fun _ _ => rfl) trivial (.ret _ _)⟩

omit [DecidableEq τ] in
/-- A thread that has not counted yet finds others, if nothing is counted. -/
theorem busy (h : users.Inv s pops l) {outData : α} (hpc : s.locals t = .tryPop outData .fetchSub)
    (hcount : s.shared.mCount ≤ 0) : Busy (behind phase s (contents s.shared l)) t := by
  have hone : ∀ pc : Pc α, users.claims pc + users.fails pc + users.pending pc ≤ 1 := by
    intro pc
    rcases pc with _ | ⟨_, _ | _ | _ | _ | _⟩ | ⟨_, _ | _ | _ | _ | _⟩ <;>
      simp [users, Users.claims]
  obtain ⟨ts, hnodup, hlength, hts⟩ := h.count.exists_threads hcount fun u => hone _
  refine ⟨ts, hnodup, fun u hu => ?_, ?_⟩
  · have hpos := hts u hu
    constructor
    · rintro rfl
      rw [hpc] at hpos
      exact absurd hpos (Nat.lt_irrefl 0)
    · intro hidle
      change phase s.shared (s.locals u) = .idle at hidle
      cases hu : s.locals u with
      | idle =>
        rw [hu] at hpos
        exact absurd hpos (Nat.lt_irrefl 0)
      | tryPush data step => rw [hu] at hidle; cases step <;> cases hidle
      | tryPop outData step => rw [hu] at hidle; cases step <;> cases hidle
  · rw [behind, contents, List.length_map]
    exact hlength

theorem tryPopStep_follows (h : Holds s l) {outData : α} {step : TryPopStep}
    (hpc : s.locals t = .tryPop outData step)
    (hs : tryPopStep k s.shared outData step = some (m, pc)) :
    ∃ l', Follows s t (seenNext t s.shared (.tryPop outData step)) m pc l l' := by
  obtain ⟨pops, hinv⟩ := h.nodes
  have hmoved := tryPopStep_moved hinv hpc hs
  cases step with
  | fetchSub =>
    cases hs
    have hnodes := hmoved.nodes hinv.links.linked
    split at hnodes <;> rename_i hcount
    · rw [if_pos hcount]
      exact ⟨l, h.step hpc hnodes (fun _ _ => rfl) trivial
        (.answer (.empty (busy hinv hpc hcount)))⟩
    · rw [if_neg hcount]
      exact ⟨l, h.step hpc hnodes (fun _ _ => rfl) trivial (.quiet _)⟩
  | fetchAdd =>
    cases hs
    have hnodes := hmoved.nodes hinv.links.linked
    exact ⟨l, h.step hpc hnodes (fun _ _ => rfl) trivial (.ret _ _)⟩
  | pop step =>
    obtain ⟨⟨links, r⟩, hpop, heq⟩ := Option.map_eq_some_iff.1 hs
    cases heq
    have hstep : users.popping (s.locals t) = some step := by rw [hpc]; rfl
    have hpos : 0 < l.length := hinv.count.pos (t := t) (by rw [hpc]; exact Nat.one_pos)
    obtain ⟨rfl, step', rfl, -⟩ | ⟨p, rest, rfl, rfl, -, hlinks⟩ :=
      popStep_cases hpop hinv.links (hinv.popping t step hstep) hpos fun _ _ heq => heq
    · have hnodes := hmoved.nodes hinv.links.linked
      exact ⟨l, h.step hpc hnodes (fun _ _ => rfl) trivial (.quiet _)⟩
    · have hnodes := hmoved.nodes hlinks.linked
      exact ⟨rest, h.step hpc hnodes (fun _ _ => rfl) trivial (.answer (.popped _ _ rfl))⟩
  | readData p =>
    cases hs
    have hnodes := hmoved.nodes hinv.links.linked
    exact ⟨l, h.step hpc hnodes (fun _ _ => rfl) trivial (.quiet _)⟩
  | deleteObject p =>
    cases hs
    have hnodes := hmoved.nodes hinv.links.linked
    exact ⟨l, h.step hpc hnodes (fun _ _ => rfl) trivial (.ret _ _)⟩

/-- **An atomic stack can follow every step.** -/
theorem act_follows (h : Holds s l) {a : Action α} (hguard : CallsGuard s t a)
    (hs : act a s.shared (s.locals t) = some (m, pc)) :
    ∃ l', Follows s t (seen s (.thread t a)) m pc l l' := by
  obtain ⟨pops, hinv⟩ := h.nodes
  have hmoved := act_moved hinv hguard hs
  cases a with
  | next k =>
    change step k s.shared (s.locals t) = some (m, pc) at hs
    simp only [seen]
    cases hpc : s.locals t with
    | idle =>
      rw [hpc] at hs
      cases hs
    | tryPush data step =>
      rw [hpc] at hs
      have hfollows := tryPushStep_follows h hpc hguard
      rw [Option.some.inj hs] at hfollows
      exact hfollows
    | tryPop outData step =>
      rw [hpc] at hs
      exact tryPopStep_follows h hpc hs
  | tryPush | tryPop =>
    cases hpc : s.locals t <;> rw [hpc] at hs <;> cases hs
    have hnodes := hmoved.nodes hinv.links.linked
    exact ⟨l, h.step hpc hnodes (fun _ _ => rfl) trivial (.call _)⟩

/-! ## Runs -/

variable {h : List (CallEvent τ (Call α) (Return α))}

/-- An atomic stack has followed every run. -/
theorem followed (hs : Observed h s) : ∃ e l, Holds s l ∧
    Moves Answered (fresh τ (Call α) (Return α) ⟨s.shared.mMaxCount, []⟩) h e
      (behind phase s (contents s.shared l)) := by
  have hrun : ∃ v₀ e v, v₀.values = [] ∧
      Moves Answered (fresh τ (Call α) (Return α) v₀) h e (behind phase s v) ∧
      ∃ l, Holds s l ∧ v = contents s.shared l := by
    refine Threads.linearizable Answered phase (fun v => v.values = [])
      (fun s v => ∃ l, Holds s l ∧ v = contents s.shared l) ?_ ?_ hs
    · intro s hs
      have hidle : ∀ t, phase s.shared (s.locals t) = .idle := fun t => by rw [hs.2 t]; rfl
      refine ⟨⟨_, rfl, [], ⟨⟨0, inv_init hs.1 hs.2⟩, fun t => ?_⟩, rfl⟩, hidle⟩
      rw [hs.2 t]
      trivial
    · intro s v t a m pc hv hguard hact
      obtain ⟨l, hl, rfl⟩ := hv
      obtain ⟨l', hdoes, hholds, hothers⟩ := act_follows hl hguard hact
      exact ⟨_, hdoes, ⟨l', hholds, rfl⟩, hothers⟩
  obtain ⟨⟨mMaxCount, values⟩, e, v, hv, hmoves, l, hl, rfl⟩ := hrun
  have hmax : mMaxCount = s.shared.mMaxCount := by
    refine hmoves.invariant (I := fun _ v => mMaxCount = v.mMaxCount) rfl ?_
    intro e o t c r v heq hanswered
    cases hanswered <;> exact heq
  cases hv
  cases hmax
  exact ⟨e, l, hl, hmoves⟩

/-- **`TryPush` and `TryPop` are linearizable**: the calls and returns of every run are those of an
atomic stack, which was empty at first and now has the values of the nodes that are linked. -/
theorem lifo (hs : Observed h s) : ∃ e o nodes,
    Moves Answered (fresh τ (Call α) (Return α) ⟨s.shared.mMaxCount, []⟩) h e o ∧
    Linked s.shared.links.pNextNode s.shared.links.top.pNode nodes ∧
    o.shared = ⟨s.shared.mMaxCount, nodes.map s.shared.data⟩ := by
  obtain ⟨e, l, ⟨⟨pops, hinv⟩, -⟩, hmoves⟩ := followed hs
  exact ⟨e, _, l, hmoves, hinv.links.linked, rfl⟩

/-- One thread pushes a value, and then the other pops it, while the first finds that there still is
no room. -/
theorem lifo_inTurn : ∃ (s : State Bool Nat) (e : List (Call Nat × Return Nat))
    (o : Threads Bool (Phase (Call Nat) (Return Nat)) (Contents Nat)) (nodes : List Nat),
    Moves Answered (fresh Bool (Call Nat) (Return Nat) ⟨s.shared.mMaxCount, []⟩)
      [.call false (.tryPush 7), .ret false (.tryPush 7) (.tryPush true),
        .call true .tryPop, .call false (.tryPush 8),
        .ret false (.tryPush 8) (.tryPush false), .ret true .tryPop (.tryPop (some 7))] e o ∧
    Linked s.shared.links.pNextNode s.shared.links.top.pNode nodes ∧
    o.shared = ⟨s.shared.mMaxCount, nodes.map s.shared.data⟩ := by
  let run := .thread false (.tryPush 7) :: steps false 7 1 ++ .thread true (.tryPop 0) ::
    .thread false (.tryPush 8) :: steps false 1 2 ++ steps true 7 0
  have hallowed : (machine Bool Nat).Allowed (Threads.Guard CallsGuard fun _ _ => True)
      oneValue run := by
    decide +kernel
  exact ⟨_, lifo (Machine.Observed.exec run (.init (s := oneValue) oneValue_init)
    hallowed rfl)⟩

/-! ## What was pushed was popped or is still there -/

/-- The values that were pushed. -/
def pushedValues (e : List (Call α × Return α)) : List α :=
  e.filterMap fun
    | (.tryPush data, .tryPush true) => some data
    | _ => none

/-- The values that were popped. -/
def poppedValues (e : List (Call α × Return α)) : List α :=
  e.filterMap fun
    | (_, .tryPop outData) => outData
    | _ => none

theorem answered_perm {v : Contents α} {e : List (Call α × Return α)}
    {o : Threads τ (Phase (Call α) (Return α)) (Contents α)} (hv : v.values = [])
    (hmoves : Moves Answered (fresh τ (Call α) (Return α) v) h e o) :
    (pushedValues e).Perm (poppedValues e ++ o.shared.values) := by
  refine hmoves.invariant
    (I := fun e v => (pushedValues e).Perm (poppedValues e ++ v.values)) ?_ ?_
  · rw [fresh, hv]
    exact .nil
  · intro e o t c r v hperm hanswered
    simp only [pushedValues, poppedValues, List.filterMap_append] at hperm ⊢
    cases hanswered with
    | pushed data =>
      simp only [List.filterMap_cons, List.filterMap_nil, List.append_nil]
      exact (List.perm_append_singleton data _).trans
        ((hperm.cons data).trans List.perm_middle.symm)
    | full | empty =>
      simp only [List.filterMap_cons, List.filterMap_nil, List.append_nil]
      exact hperm
    | popped outData values hvalues =>
      simp only [List.filterMap_cons, List.filterMap_nil, List.append_nil, List.append_assoc]
      rw [hvalues] at hperm
      exact hperm

/-- **A stack loses and duplicates nothing**: when all calls have returned, the values for which
`TryPush` returned `true` are those that `TryPop` returned and those that are still linked, and
`Count()` is the number of these. -/
theorem pushed_perm (hs : Observed h s) (hrest : ∀ t, s.locals t = .idle) : ∃ nodes,
    Linked s.shared.links.pNextNode s.shared.links.top.pNode nodes ∧
    s.shared.mCount = nodes.length ∧
    (pushedValues (returned h)).Perm
      (poppedValues (returned h) ++ nodes.map s.shared.data) := by
  obtain ⟨e, l, ⟨⟨pops, hinv⟩, -⟩, hmoves⟩ := followed hs
  have hperm := hmoves.returned_perm fun t => congrArg (phase s.shared) (hrest t)
  have hcount : s.shared.mCount = l.length := by
    refine hinv.count.atRest fun t => ?_
    rw [hrest t]
    exact ⟨rfl, rfl, rfl⟩
  refine ⟨l, hinv.links.linked, hcount, ?_⟩
  exact (hperm.filterMap _).trans ((answered_perm rfl hmoves).trans
    (((hperm.filterMap _).symm).append_right _))

/-- Two threads find room for one value, push two, and one of these is popped. -/
theorem pushed_perm_overfull : ∃ (s : State Bool Nat) (nodes : List Nat),
    Linked s.shared.links.pNextNode s.shared.links.top.pNode nodes ∧
    s.shared.mCount = nodes.length ∧ [8, 7].Perm ([7] ++ nodes.map s.shared.data) := by
  let run := .thread false (.tryPush 7) :: steps false 1 0 ++ .thread true (.tryPush 8) ::
    steps true 7 2 ++ steps false 6 1 ++ .thread true (.tryPop 0) :: steps true 7 0
  have hallowed : (machine Bool Nat).Allowed (Threads.Guard CallsGuard fun _ _ => True)
      oneValue run := by
    decide +kernel
  refine ⟨_, pushed_perm (Machine.Observed.exec run (.init (s := oneValue) oneValue_init)
    hallowed rfl) ?_⟩
  rintro (_ | _) <;> rfl

end CppNetEngine.LockFreeStack
