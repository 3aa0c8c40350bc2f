import CppNetEngine.Actor.Scoped
import CppNetEngine.Lib.Destutter
import Mathlib.Logic.Relation

/-!
# Which scoped actors can be acquired

The constructor drops neighbours before it sorts, so an actor that it is passed again after another
one stays twice in `mActors`; `tryAcquireAll` then waits for what it has acquired itself
(`acquirable_iff`). `TryAcquire` and `Release` are what the statements of a thread do that acts
alone (`tryAcquireAll_alone`, `release_alone`).
-/

namespace CppNetEngine.ScopedActor

open ActorScheduler (Frame acquireMember)

variable {τ α ς J : Type}

/-- No actor is passed again after another one. -/
def Grouped (args : List α) : Prop := ∀ a b, a ≠ b → ¬ [a, b, a].Sublist args

/-- `actors` are the distinct actors of `args`, in the order of their seeds. -/
structure IsSetOf (seeds : Seeds α) (args actors : List α) : Prop where
  increasing : actors.Pairwise fun a b => seeds.getSeed a < seeds.getSeed b
  mem_iff : ∀ a, a ∈ actors ↔ a ∈ args

/-- Nobody has acquired a member. -/
structure AllFree (cfg : ActorConfig α ς) (s : ς) (m : ActorMemory τ α ς J) : Prop where
  free : ∀ a ∈ cfg.mActors s, m.mbAcquire a = none
  index : m.mAcquireIndex s = -1

/-! ## The constructor -/

section Construct

variable (seeds : Seeds α) (args : List α)

theorem construct_sorted :
    (construct seeds args).Pairwise fun a b => seeds.getSeed a ≤ seeds.getSeed b := by
  have : IsTrans α fun a b => seeds.getSeed a ≤ seeds.getSeed b := ⟨fun _ _ _ => Int.le_trans⟩
  have : Std.Total fun a b => seeds.getSeed a ≤ seeds.getSeed b := ⟨fun _ _ => Int.le_total _ _⟩
  exact List.pairwise_insertionSort _ _

variable [DecidableEq α]

theorem construct_perm : (construct seeds args).Perm (args.destutter (· ≠ ·)) := by
  unfold construct
  have hseed : ∀ a ∈ args, ∀ b ∈ args, seeds.getSeed a ≠ seeds.getSeed b ↔ id a ≠ id b :=
    fun a _ b _ => seeds.injective.ne_iff
  have hsame := List.map_destutter hseed
  rw [List.map_id, List.map_id] at hsame
  rw [hsame]
  exact List.perm_insertionSort _ _

/-- A list in the order of the seeds is strictly increasing if nothing is in it twice. -/
theorem isSetOf_iff : IsSetOf seeds args (construct seeds args) ↔ (construct seeds args).Nodup := by
  constructor
  · intro h
    exact h.increasing.imp fun hlt heq => absurd (congrArg seeds.getSeed heq) (Int.ne_of_lt hlt)
  · intro hnodup
    refine ⟨?_, fun a => (construct_perm seeds args).mem_iff.trans List.mem_destutter_ne⟩
    refine (construct_sorted seeds args).imp₂ ?_ hnodup
    exact fun a b hle hne => lt_of_le_of_ne hle (fun heq => hne (seeds.injective heq))

theorem nodup_construct_iff : (construct seeds args).Nodup ↔ Grouped args :=
  (construct_perm seeds args).nodup_iff.trans List.nodup_destutter_ne_iff

end Construct

/-! ## Acquiring -/

section Acquire

variable [DecidableEq α] {cfg : ActorConfig α ς} {t : τ} {s : ς} {m : ActorMemory τ α ς J}

theorem spin_free {a : α} (h : m.mbAcquire a = none) (rounds : Nat) : spin t a (rounds + 1) m =
    ({ m with mbAcquire := Function.update m.mbAcquire a (some t) }, true) := by
  rcases ActorScheduler.tryAcquire_cases m t a with ⟨hsome, -⟩ | ⟨-, heq⟩
  · rw [h] at hsome
    cases hsome
  · unfold spin
    rw [heq]

theorem spin_held {a : α} (h : m.mbAcquire a ≠ none) (rounds : Nat) :
    spin t a rounds m = (m, false) := by
  induction rounds with
  | zero => rfl
  | succ rounds ih =>
    rcases ActorScheduler.tryAcquire_cases m t a with ⟨-, heq⟩ | ⟨hnone, -⟩
    · unfold spin
      rw [heq]
      exact ih
    · exact absurd hnone h

theorem release_free {a b : α} (h : b = a ∨ m.mbAcquire b = none) :
    (ActorScheduler.release m a).mbAcquire b = none := by
  unfold ActorScheduler.release
  by_cases hb : b = a
  · rw [hb]
    exact Function.update_self ..
  · exact (Function.update_of_ne hb ..).trans (h.resolve_left hb)

variable [DecidableEq ς]

theorem acquireMembers_free (hspin : 1 ≤ cfg.mSpinCount s) {a : α} (h : m.mbAcquire a = none)
    (rest : List α) (i : Nat) : acquireMembers cfg t s (a :: rest) i m =
      acquireMembers cfg t s rest (i + 1)
        (storeIndex s i { m with mbAcquire := Function.update m.mbAcquire a (some t) }) := by
  obtain ⟨rounds, hrounds⟩ : ∃ rounds, (cfg.mSpinCount s).toNat = rounds + 1 :=
    ⟨(cfg.mSpinCount s).toNat - 1, by omega⟩
  rw [acquireMembers, hrounds, spin_free h]
  simp [storeIndex]

theorem acquireMembers_held {a : α} (h : m.mbAcquire a ≠ none) (rest : List α) {i : Nat}
    (hi : m.mAcquireIndex s + 1 = i) : acquireMembers cfg t s (a :: rest) i m = (m, false) := by
  rw [acquireMembers, spin_held h]
  simp only [Bool.false_eq_true, if_false]
  rw [if_pos (by omega)]

/-- All members are acquired exactly if all are free and none comes twice. -/
theorem acquireMembers_iff (hspin : 1 ≤ cfg.mSpinCount s) (rest : List α) :
    ∀ {i : Nat} {m : ActorMemory τ α ς J}, m.mAcquireIndex s + 1 = i →
      ((acquireMembers cfg t s rest i m).2 = true ↔
        (∀ a ∈ rest, m.mbAcquire a = none) ∧ rest.Nodup) := by
  induction rest with
  | nil => simp [acquireMembers]
  | cons a rest ih =>
    intro i m hi
    by_cases hfree : m.mbAcquire a = none
    · rw [acquireMembers_free hspin hfree, ih (by simp [storeIndex])]
      have hothers (b : α) : Function.update m.mbAcquire a (some t) b = none ↔
          b ≠ a ∧ m.mbAcquire b = none := by
        by_cases hb : b = a
        · simp [hb]
        · simp [hb]
      simp only [storeIndex, hothers, List.forall_mem_cons, List.nodup_cons, hfree, true_and]
      constructor
      · rintro ⟨hrest, hnodup⟩
        exact ⟨fun b hb => (hrest b hb).2, fun ha => (hrest a ha).1 rfl, hnodup⟩
      · rintro ⟨hrest, ha, hnodup⟩
        exact ⟨fun b hb => ⟨fun heq => ha (heq ▸ hb), hrest b hb⟩, hnodup⟩
    · rw [acquireMembers_held hfree rest hi]
      simp [hfree]

/-- `mAcquireIndex` is the last member that was acquired. -/
theorem acquireMembers_index (hspin : 1 ≤ cfg.mSpinCount s) (rest : List α) :
    ∀ {i : Nat} {m : ActorMemory τ α ς J}, m.mAcquireIndex s + 1 = i →
      ∃ count : Nat, (acquireMembers cfg t s rest i m).1.mAcquireIndex s + 1 = count ∧
        count ≤ i + rest.length ∧
        ((acquireMembers cfg t s rest i m).2 = true → count = i + rest.length) := by
  induction rest with
  | nil => exact fun hi => ⟨_, hi, Nat.le_refl _, fun _ => rfl⟩
  | cons a rest ih =>
    intro i m hi
    by_cases hfree : m.mbAcquire a = none
    · rw [acquireMembers_free hspin hfree]
      obtain ⟨count, hcount, hle, heq⟩ := ih (i := i + 1)
        (m := storeIndex s i { m with mbAcquire := Function.update m.mbAcquire a (some t) })
        (by simp [storeIndex])
      refine ⟨count, hcount, ?_, fun hall => ?_⟩
      · rw [List.length_cons]
        omega
      · rw [List.length_cons, heq hall]
        omega
    · rw [acquireMembers_held hfree rest hi]
      exact ⟨i, hi, Nat.le_add_right _ _, fun hall => by cases hall⟩

/-! ## Releasing -/

omit [DecidableEq ς] in
theorem releaseMembers_free (i : Nat) : ∀ {m : ActorMemory τ α ς J},
    i < (cfg.mActors s).length → ∃ m', releaseMembers cfg s i m = some m' ∧
      ∀ a, a ∈ (cfg.mActors s).take (i + 1) ∨ m.mbAcquire a = none → m'.mbAcquire a = none := by
  induction i with
  | zero =>
    intro m hi
    refine ⟨ActorScheduler.release m (cfg.mActors s)[0], ?_, fun b hb => release_free ?_⟩
    · rw [releaseMembers, List.getElem?_eq_getElem hi]
      rfl
    · rw [List.take_one, List.head?_eq_getElem?, List.getElem?_eq_getElem hi] at hb
      simpa using hb
  | succ i ih =>
    intro m hi
    obtain ⟨m', hm', hfree⟩ := ih (m := ActorScheduler.release m (cfg.mActors s)[i + 1])
      (Nat.lt_of_succ_lt hi)
    refine ⟨m', ?_, fun b hb => hfree b ?_⟩
    · rw [releaseMembers, List.getElem?_eq_getElem hi]
      exact hm'
    · rw [List.take_succ_eq_append_getElem hi, List.mem_append, List.mem_singleton] at hb
      rcases hb with (hb | hb) | hb
      · exact .inl hb
      · exact .inr (release_free (.inl hb))
      · exact .inr (release_free (.inr hb))

theorem release_members {count : Nat} (hcount : m.mAcquireIndex s + 1 = count)
    (hle : count ≤ (cfg.mActors s).length) : ∃ m', release cfg s m = some m' ∧
      m'.mAcquireIndex s = -1 ∧ ∀ a ∈ (cfg.mActors s).take count, m'.mbAcquire a = none := by
  unfold release
  cases count with
  | zero =>
    have hindex : m.mAcquireIndex s = .negSucc 0 := by omega
    rw [hindex]
    refine ⟨_, rfl, Function.update_self .., fun a ha => ?_⟩
    simp at ha
  | succ i =>
    have hindex : m.mAcquireIndex s = .ofNat i := by
      show m.mAcquireIndex s = (i : Int)
      omega
    obtain ⟨m', hm', hfree⟩ := releaseMembers_free (m := m) i hle
    rw [hindex]
    refine ⟨storeIndex s (-1) m', ?_, Function.update_self .., fun a ha => hfree a (.inl ha)⟩
    show (releaseMembers cfg s i m).map _ = _
    rw [hm']
    rfl

/-- `TryAcquire` answers whether a member comes twice, and `Release` frees what was acquired. -/
theorem tryAcquire_spec (hspin : 1 ≤ cfg.mSpinCount s) (h : AllFree cfg s m) :
    ((cfg.mActors s).Nodup → ∃ m1 m2, tryAcquire cfg t s m = some (m1, true) ∧
      release cfg s m1 = some m2 ∧ AllFree cfg s m2) ∧
    (¬ (cfg.mActors s).Nodup → ∃ m1, tryAcquire cfg t s m = some (m1, false)) := by
  have hi : m.mAcquireIndex s + 1 = (0 : Nat) := by
    rw [h.index]
    rfl
  have hall := acquireMembers_iff (t := t) hspin (cfg.mActors s) hi
  obtain ⟨count, hcount, hle, heq⟩ := acquireMembers_index (t := t) hspin (cfg.mActors s) hi
  rw [Nat.zero_add] at hle heq
  obtain ⟨m', hm', hindex, hfree⟩ := release_members hcount hle
  unfold tryAcquire tryAcquireAll
  constructor
  · intro hnodup
    have htrue := hall.2 ⟨h.free, hnodup⟩
    rw [if_pos htrue]
    refine ⟨_, m', rfl, hm', fun a ha => hfree a ?_, hindex⟩
    rw [heq htrue, List.take_length]
    exact ha
  · intro hdup
    rw [if_neg fun htrue => hdup (hall.1 htrue).2, hm']
    exact ⟨m', rfl⟩

end Acquire

/-! ## The statements of a thread -/

section Alone

variable [DecidableEq α] [DecidableEq ς]

/-- A thread comes from one statement to another, while the others do nothing. -/
def Alone (cfg : ActorConfig α ς) (t : τ) :
    ActorMemory τ α ς J × Frame α ς J → ActorMemory τ α ς J × Frame α ς J → Prop :=
  Relation.ReflTransGen fun p q => ActorScheduler.step cfg t p.1 p.2 = some (q.1, [q.2])

variable {cfg : ActorConfig α ς} {t : τ} {s : ς}

/-- The spins on a member that is not free. -/
theorem held_alone {i : Nat} {a : α} (ha : (cfg.mActors s)[i]? = some a)
    {m : ActorMemory τ α ς J} (hheld : m.mbAcquire a ≠ none) (rounds : Nat) :
    ∀ {curSpin : Nat}, (curSpin + (rounds + 1) : Int) = cfg.mSpinCount s →
      Alone cfg t (m, .memberTryAcquire s i curSpin) (m, .memberLoadIndex s i false) := by
  have hfailed : ActorScheduler.tryAcquire m t a = (m, false) := by
    rcases ActorScheduler.tryAcquire_cases m t a with ⟨-, heq⟩ | ⟨hnone, -⟩
    · exact heq
    · exact absurd hnone hheld
  induction rounds with
  | zero =>
    intro curSpin hspin
    refine .single ?_
    simp only [ActorScheduler.step, ha, hfailed, Option.map_some]
    rw [if_neg (by omega)]
  | succ rounds ih =>
    intro curSpin hspin
    have hnext := @ih (curSpin + 1) (by omega)
    refine .head ?_ hnext
    simp only [ActorScheduler.step, ha, hfailed, Option.map_some]
    rw [if_pos (by omega)]

/-- The body of the loop of `tryAcquireAll`, up to the comparison. -/
theorem member_alone {i : Nat} {a : α} (ha : (cfg.mActors s)[i]? = some a)
    (m : ActorMemory τ α ς J) :
    let r := spin t a (cfg.mSpinCount s).toNat m
    Alone cfg t (m, acquireMember cfg s i)
      (if r.2 then storeIndex s i r.1 else r.1, .memberLoadIndex s i r.2) := by
  have hi : i < (cfg.mActors s).length := (List.getElem?_eq_some_iff.1 ha).1
  unfold acquireMember
  rw [if_pos hi]
  by_cases hspin : 0 < cfg.mSpinCount s
  · obtain ⟨rounds, hrounds⟩ : ∃ rounds, (cfg.mSpinCount s).toNat = rounds + 1 :=
      ⟨(cfg.mSpinCount s).toNat - 1, by omega⟩
    rw [if_pos hspin, hrounds]
    by_cases hfree : m.mbAcquire a = none
    · rw [spin_free hfree]
      refine .head ?_ (.single (a := (_, Frame.memberStoreIndex s i)) rfl)
      rcases ActorScheduler.tryAcquire_cases m t a with ⟨hsome, -⟩ | ⟨-, heq⟩
      · rw [hfree] at hsome
        cases hsome
      · simp only [ActorScheduler.step, ha, heq, Option.map_some]
    · rw [spin_held hfree]
      exact held_alone ha hfree rounds (by omega)
  · have hzero : (cfg.mSpinCount s).toNat = 0 := by omega
    rw [if_neg hspin, hzero]
    exact .refl

/-- `tryAcquireAll` is the way of a thread to what comes after it in `TryAcquire`. -/
theorem acquireMembers_alone (rest : List α) : ∀ (i : Nat) (m : ActorMemory τ α ς J),
    (cfg.mActors s).drop i = rest → ∃ count,
      Alone cfg t (m, acquireMember cfg s i) ((acquireMembers cfg t s rest i m).1,
        if (acquireMembers cfg t s rest i m).2 then .dispatchCount (.scopedActor s)
        else .releaseLoadIndex s count false) := by
  induction rest with
  | nil =>
    intro i m hrest
    have hi : ¬ i < (cfg.mActors s).length := Nat.not_lt.2 (List.drop_eq_nil_iff.1 hrest)
    refine ⟨0, ?_⟩
    unfold acquireMember
    rw [if_neg hi]
    exact .refl
  | cons a rest ih =>
    intro i m hrest
    have ha : (cfg.mActors s)[i]? = some a := by
      rw [← List.head?_drop, hrest]
      rfl
    have hbody := member_alone (t := t) ha m
    have htail : (cfg.mActors s).drop (i + 1) = rest := by
      rw [← List.tail_drop, hrest]
      rfl
    rw [acquireMembers]
    generalize spin t a (cfg.mSpinCount s).toNat m = r at hbody ⊢
    simp only at hbody ⊢
    generalize (if r.2 then storeIndex s i r.1 else r.1) = m1 at hbody ⊢
    by_cases hindex : m1.mAcquireIndex s = i
    · rw [if_neg (not_not.2 hindex)]
      obtain ⟨count, hrun⟩ := ih (i + 1) m1 htail
      refine ⟨count, hbody.trans (.head ?_ hrun)⟩
      simp only [ActorScheduler.step, hindex, if_true]
    · rw [if_pos hindex]
      refine ⟨if r.2 then i + 1 else i, hbody.tail ?_⟩
      simp only [ActorScheduler.step, if_neg hindex, Bool.false_eq_true, if_false]

theorem releaseMembers_alone (dispatched : Bool) (i : Nat) : ∀ {m m' : ActorMemory τ α ς J},
    releaseMembers cfg s i m = some m' →
      Alone cfg t (m, .releaseMember s i dispatched) (m', .releaseStoreIndex s dispatched) := by
  induction i with
  | zero =>
    intro m m' h
    obtain ⟨a, ha, rfl⟩ := Option.map_eq_some_iff.1 h
    refine .single ?_
    simp only [ActorScheduler.step, ha, Option.map_some]
  | succ i ih =>
    intro m m' h
    obtain ⟨a, ha, hrest⟩ := Option.bind_eq_some_iff.1 h
    refine .head ?_ (ih hrest)
    simp only [ActorScheduler.step, ha, Option.map_some]

/-- `Release` is the way of a thread to what it does last there. -/
theorem release_alone {m m' : ActorMemory τ α ς J} (h : release cfg s m = some m') (count : Nat)
    (dispatched : Bool) : ∃ m1, m' = storeIndex s (-1) m1 ∧
      Alone cfg t (m, .releaseLoadIndex s count dispatched)
        (m1, .releaseStoreIndex s dispatched) := by
  unfold release at h
  cases hindex : m.mAcquireIndex s with
  | ofNat i =>
    rw [hindex] at h
    obtain ⟨m1, hm1, rfl⟩ := Option.map_eq_some_iff.1 h
    refine ⟨m1, rfl, .head ?_ (releaseMembers_alone dispatched i hm1)⟩
    simp only [ActorScheduler.step, hindex]
  | negSucc n =>
    rw [hindex] at h
    cases h
    refine ⟨m, rfl, .single ?_⟩
    simp only [ActorScheduler.step, hindex]

/-- `TryAcquire` is what a thread does that dispatches a scoped actor. -/
theorem tryAcquire_alone {m m' : ActorMemory τ α ς J} {acquired : Bool}
    (h : tryAcquire cfg t s m = some (m', acquired)) :
    if acquired then Alone cfg t (m, acquireMember cfg s 0) (m', .dispatchCount (.scopedActor s))
    else ∃ m1, m' = storeIndex s (-1) m1 ∧
      Alone cfg t (m, acquireMember cfg s 0) (m1, .releaseStoreIndex s false) := by
  obtain ⟨count, hrun⟩ := acquireMembers_alone (t := t) (cfg.mActors s) 0 m rfl
  unfold tryAcquire tryAcquireAll at h
  by_cases hall : (acquireMembers cfg t s (cfg.mActors s) 0 m).2 = true
  · rw [if_pos hall] at h hrun
    cases h
    exact hrun
  · rw [if_neg hall] at h hrun
    obtain ⟨m2, hm2, he⟩ := Option.map_eq_some_iff.1 h
    cases he
    obtain ⟨m1, hm1, hrelease⟩ := release_alone (t := t) hm2 count false
    exact ⟨m1, hm1, hrun.trans hrelease⟩

end Alone

/-! ## Scoped actors -/

section Scoped

variable [DecidableEq α] [DecidableEq ς]

/-- `TryAcquire` is successful where all members are free, and `Release` frees them again. -/
def Acquirable (J : Type) (cfg : ActorConfig α ς) (t : τ) (s : ς) : Prop :=
  ∀ m : ActorMemory τ α ς J, AllFree cfg s m → ∃ m1 m2,
    tryAcquire cfg t s m = some (m1, true) ∧ release cfg s m1 = some m2 ∧ AllFree cfg s m2

/-- **Which scoped actors can be acquired.** What the constructor makes of its arguments is the set
of them, and can be acquired and released by a thread that acts alone, exactly if no actor comes
again after another one. Otherwise no attempt of such a thread is successful. -/
theorem acquirable_iff (seeds : Seeds α) (args : List α) {cfg : ActorConfig α ς} {s : ς}
    (hactors : cfg.mActors s = construct seeds args) (hspin : 1 ≤ cfg.mSpinCount s) (t : τ) :
    (IsSetOf seeds args (cfg.mActors s) ∧ Acquirable J cfg t s ↔ Grouped args) ∧
    (¬ Grouped args → ∀ m : ActorMemory τ α ς J, AllFree cfg s m →
      ∃ m1, tryAcquire cfg t s m = some (m1, false)) := by
  have hset := isSetOf_iff seeds args
  have hnodup := nodup_construct_iff seeds args
  rw [← hactors] at hset hnodup
  refine ⟨⟨fun h => hnodup.1 (hset.1 h.1), fun h => ⟨hset.2 (hnodup.2 h), fun m hm => ?_⟩⟩,
    fun h m hm => ?_⟩
  · exact (tryAcquire_spec hspin hm).1 (hnodup.2 h)
  · exact (tryAcquire_spec hspin hm).2 fun hno => h (hnodup.1 hno)

/-- Seeds, and a configuration with one scoped actor of these arguments. -/
def natSeeds : Seeds Nat := ⟨Nat.cast, fun _ _ => Int.ofNat.inj⟩

def oneScoped (args : List Nat) : ActorConfig Nat Unit :=
  { mActors := fun _ => construct natSeeds args
    mSpinCount := fun _ => 5000
    mExecuteJobCount := 1 }

theorem acquirable_iff_grouped : Acquirable (τ := Unit) Unit (oneScoped [2, 2, 1]) () () := by
  have hgrouped : Grouped [2, 2, 1] := by
    rw [← nodup_construct_iff natSeeds]
    decide
  exact ((acquirable_iff natSeeds [2, 2, 1] rfl (by decide) ()).1.2 hgrouped).2

/-- The first of three actors is passed again as the last: it is there twice. -/
theorem not_acquirable_again :
    ¬ (∀ args : List Nat, IsSetOf natSeeds args (construct natSeeds args) ∧
      Acquirable Unit (oneScoped args) () ()) := by
  intro h
  have hincreasing := (h [1, 2, 1]).1.increasing
  rw [show construct natSeeds [1, 2, 1] = [1, 1, 2] by decide] at hincreasing
  exact absurd hincreasing (by decide)

end Scoped

end CppNetEngine.ScopedActor
