import CppNetEngine.Lib.Counter
import CppNetEngine.Lib.Tagged
import CppNetEngine.Stack.TopNode

/-!
# Lock-free lists with a count at the top

What the loops of `TryPop` and `TryPush`, of `Alloc` and `Free`, do to the list of nodes from the
top: `popStep_cases`, `pushStep_cases`. Only pops are counted, and yet no change goes unnoticed that
matters. `Users` says what threads have to do with such a list, and `Users.Inv` is its invariant: a
step of either loop keeps it (`Users.Inv.pop`, `Users.Inv.push`), and so does one that has nothing
to do with the nodes of others (`Users.Inv.keep`).
-/

namespace CppNetEngine.TopNode

variable {γ : Type*} [AddMonoidWithOne γ]

/-! ## The two loops -/

/-- The nodes from the top, after `pops` nodes were taken. -/
structure LinksOk (m : Links γ) (pops : Nat) (l : List Nat) : Prop where
  linked : Linked m.pNextNode m.top.pNode l
  nodup : l.Nodup
  count : m.top.count = pops

/-- What a thread has read in the loop of `TryPop`. -/
def PopOk (pops : Nat) (l : List Nat) : PopStep γ → Prop
  | .readCount => True
  | .readNode count => ∃ n : Nat, count = n ∧ TaggedStack.Seen pops l n []
  | .readNext count pNode => ∃ (n p : Nat) (rest : List Nat), count = n ∧ pNode = some p ∧
    TaggedStack.Seen pops l n (p :: rest)
  | .swap count pNode pNextNode => ∃ (n : Nat) (rest : List Nat), count = n ∧
    TaggedStack.Seen pops l n (pNode :: rest) ∧ (n = pops → pNextNode = rest.head?)

/-- The node of a thread in the loop of `TryPush` has the link that it was given. -/
def PushOk (m : Links γ) (pDesired : Nat) : PushStep → Prop
  | .readNode | .setNext _ => True
  | .swap pExpected => m.pNextNode pDesired = pExpected

variable {m m' : Links γ} {pops pops' : Nat} {l l' : List Nat}

theorem LinksOk.congr (h : LinksOk m pops l) (htop : m'.top = m.top)
    (hnext : ∀ p ∈ l, m'.pNextNode p = m.pNextNode p) : LinksOk m' pops l := by
  obtain ⟨hlinked, hnodup, hcount⟩ := h
  refine ⟨?_, hnodup, ?_⟩ <;> rw [htop]
  · exact hlinked.congr hnext
  · exact hcount

theorem PopOk.stable {step : PopStep γ} (h : PopOk pops l step)
    (hstep : TaggedStack.Step pops l pops' l') : PopOk pops' l' step := by
  cases step with
  | readCount => trivial
  | readNode count =>
    obtain ⟨n, hcount, hseen⟩ := h
    exact ⟨n, hcount, hseen.stable hstep⟩
  | readNext count pNode =>
    obtain ⟨n, p, rest, hcount, hp, hseen⟩ := h
    exact ⟨n, p, rest, hcount, hp, hseen.stable hstep⟩
  | swap count pNode pNextNode =>
    obtain ⟨n, rest, hcount, hseen, hnext⟩ := h
    refine ⟨n, rest, hcount, hseen.stable hstep, fun heq => hnext ?_⟩
    have hle := hseen.le
    cases hstep with
    | refl | push => exact heq
    | pop => omega

theorem PopOk.isSome [DecidableEq γ] {step : PopStep γ} (h : PopOk pops l step) (spurious : Bool) :
    (popStep spurious m step).isSome := by
  cases step with
  | readNext count pNode =>
    obtain ⟨n, p, rest, -, rfl, -⟩ := h
    rfl
  | readCount | readNode | swap => rfl

/-- **What a step of the loop of `TryPop` does**, if there is a node: it reads, or it takes the node
at the top. -/
theorem popStep_cases [DecidableEq γ] {spurious : Bool} {step : PopStep γ}
    {r : PopStep γ ⊕ Nat} (hs : popStep spurious m step = some (m', r)) (h : LinksOk m pops l)
    (hok : PopOk pops l step) (hpos : 0 < l.length)
    (hcast : ∀ n : Nat, n ≤ pops → (n : γ) = pops → n = pops) :
    (m' = m ∧ ∃ step', r = .inl step' ∧ PopOk pops l step') ∨
      ∃ p rest, r = .inr p ∧ l = p :: rest ∧ m'.pNextNode = m.pNextNode ∧
        LinksOk m' (pops + 1) rest := by
  cases step with
  | readCount =>
    cases hs
    exact .inl ⟨rfl, _, rfl, pops, h.count, .start⟩
  | readNode count =>
    cases hs
    obtain ⟨n, hcount, hseen⟩ := hok
    cases l with
    | nil => exact absurd hpos (Nat.lt_irrefl 0)
    | cons p rest => exact .inl ⟨rfl, _, rfl, n, p, rest, hcount, h.linked.1, hseen.read⟩
  | readNext count pNode =>
    obtain ⟨n, p, rest, hcount, rfl, hseen⟩ := hok
    cases hs
    exact .inl ⟨rfl, _, rfl, n, rest, hcount, hseen,
      fun heq => h.linked.next_of_suffix (hseen.suffix heq)⟩
  | swap count pNode pNextNode =>
    obtain ⟨n, rest, hcount, hseen, hnext⟩ := hok
    simp only [popStep] at hs
    split at hs <;> rename_i hcond <;> cases hs
    · right
      obtain ⟨htop, -⟩ := hcond
      obtain ⟨hlinked, hnodup, hpops⟩ := h
      rw [htop] at hlinked hpops
      have heq : n = pops := hcast n hseen.le (hcount.symm.trans hpops)
      subst heq
      obtain ⟨rest', rfl, hrest⟩ := hlinked.of_some
      obtain rfl := hseen.eq_of_top hnodup
      refine ⟨pNode, rest', rfl, rfl, rfl, ?_, (List.nodup_cons.1 hnodup).2, ?_⟩
      · rw [hnext rfl, ← hrest.head]
        exact hrest
      · rw [Nat.cast_succ, ← hcount]
    · exact .inl ⟨rfl, _, rfl, trivial⟩

/-- **What a step of the loop of `TryPush` does** with a node that is not in the list: it writes to
this node only, or it puts the node at the top. -/
theorem pushStep_cases {spurious : Bool} {pDesired : Nat} {step : PushStep} {r : Option PushStep}
    (hs : pushStep spurious m pDesired step = (m', r)) (h : LinksOk m pops l)
    (hp : pDesired ∉ l) (hok : PushOk m pDesired step) :
    (∃ step', r = some step' ∧ PushOk m' pDesired step' ∧ LinksOk m' pops l ∧
      ∀ n, n ≠ pDesired → m'.pNextNode n = m.pNextNode n) ∨
    (r = none ∧ m'.pNextNode = m.pNextNode ∧ LinksOk m' pops (pDesired :: l)) := by
  cases step with
  | readNode =>
    cases hs
    exact .inl ⟨_, rfl, trivial, h, fun _ _ => rfl⟩
  | setNext pExpected =>
    cases hs
    refine .inl ⟨_, rfl, m.setNext_self _ _, h.congr rfl fun n hn => ?_,
      fun n hn => m.setNext_other _ hn⟩
    exact m.setNext_other _ fun heq => hp (heq ▸ hn)
  | swap pExpected =>
    simp only [pushStep] at hs
    split at hs <;> rename_i hcond <;> cases hs
    · refine .inr ⟨rfl, rfl, ⟨rfl, ?_⟩, List.nodup_cons.2 ⟨hp, h.nodup⟩, h.count⟩
      rw [(hok : m.pNextNode pDesired = pExpected), ← hcond.1]
      exact h.linked
    · exact .inl ⟨_, rfl, trivial, h, fun _ _ => rfl⟩

/-! ## Threads in the loops -/

variable {τ L σ : Type*}

/-- What threads have to do with a list of nodes. -/
structure Users (L σ γ : Type*) where
  links : σ → Links γ
  /-- The counter of the nodes in the list. -/
  count : σ → Int
  /-- The nodes that are in use, here or elsewhere. -/
  allocated : σ → Finset Nat
  /-- Where a thread is in the loop of `TryPop`. -/
  popping : L → Option (PopStep γ)
  /-- Where a thread is in the loop of `TryPush`. -/
  pushing : L → Option PushStep
  /-- The node that a thread has. -/
  holds : L → Option Nat
  fails : L → Nat
  pending : L → Nat

namespace Users

variable (V : Users L σ γ)

/-- A thread in the loop of `TryPop` has a claim to a node. -/
def claims (loc : L) : Nat := if (V.popping loc).isSome then 1 else 0

/-- The invariant of threads and their list of nodes. -/
structure Inv (s : Threads τ L σ) (pops : Nat) (l : List Nat) : Prop where
  links : LinksOk (V.links s.shared) pops l
  allocated : ∀ p ∈ l, p ∈ V.allocated s.shared
  popping : ∀ t step, V.popping (s.locals t) = some step → PopOk pops l step
  pushing : ∀ t p step, V.holds (s.locals t) = some p → V.pushing (s.locals t) = some step →
    PushOk (V.links s.shared) p step
  holds : ∀ t p, V.holds (s.locals t) = some p → p ∈ V.allocated s.shared ∧ p ∉ l
  apart : ∀ t u p, V.holds (s.locals t) = some p → V.holds (s.locals u) = some p → t = u
  count : Threads.Counted s V.claims V.fails V.pending (V.count s.shared) l.length

variable {V} [DecidableEq τ] {s : Threads τ L σ} {t : τ} {m : σ} {loc : L}

namespace Inv

theorem set (h : V.Inv s pops l) (hstep : TaggedStack.Step pops l pops' l')
    (hlinks : LinksOk (V.links m) pops' l')
    (hmem : ∀ p ∈ l', p ∈ l ∨ V.holds (s.locals t) = some p)
    (halloc : ∀ p ∈ V.allocated s.shared,
      p ∈ V.allocated m ∨ (V.holds (s.locals t) = some p ∧ p ∉ l'))
    (hnext : ∀ u p, u ≠ t → V.holds (s.locals u) = some p →
      (V.links m).pNextNode p = (V.links s.shared).pNextNode p)
    (hpop : ∀ step, V.popping loc = some step → PopOk pops' l' step)
    (hpush : ∀ p step, V.holds loc = some p → V.pushing loc = some step →
      PushOk (V.links m) p step)
    (hholds : ∀ p, V.holds loc = some p → p ∈ V.allocated m ∧ p ∉ l' ∧
      ∀ u, u ≠ t → V.holds (s.locals u) ≠ some p)
    (hcount : (l'.length : Int) + V.count s.shared + V.claims (s.locals t) +
        V.fails (s.locals t) + V.pending (s.locals t) =
      l.length + V.count m + V.claims loc + V.fails loc + V.pending loc)
    (hneg : 0 ≤ V.count m ∨ V.count s.shared + V.fails (s.locals t) ≤ V.count m + V.fails loc) :
    V.Inv (s.set t m loc) pops' l' := by
  refine ⟨hlinks, fun p hp => ?_, fun u step hu => ?_, fun u p step hu hstep' => ?_,
    fun u p hu => ?_, fun u v p hu hv => ?_, h.count.set hcount hneg⟩
  · have hold : p ∈ V.allocated s.shared := by
      rcases hmem p hp with hin | hmine
      · exact h.allocated p hin
      · exact (h.holds t p hmine).1
    exact (halloc p hold).resolve_right fun hgone => hgone.2 hp
  · by_cases hut : u = t
    · subst hut
      rw [Threads.set_self] at hu
      exact hpop step hu
    · rw [Threads.set_other _ _ _ _ hut] at hu
      exact (h.popping u step hu).stable hstep
  · by_cases hut : u = t
    · subst hut
      rw [Threads.set_self] at hu hstep'
      exact hpush p step hu hstep'
    · rw [Threads.set_other _ _ _ _ hut] at hu hstep'
      have hok := h.pushing u p step hu hstep'
      cases step with
      | readNode | setNext => trivial
      | swap e => exact (hnext u p hut hu).trans hok
  · by_cases hut : u = t
    · subst hut
      rw [Threads.set_self] at hu
      obtain ⟨hin, hnot, -⟩ := hholds p hu
      exact ⟨hin, hnot⟩
    · rw [Threads.set_other _ _ _ _ hut] at hu
      obtain ⟨hin, hnot⟩ := h.holds u p hu
      have hother : V.holds (s.locals t) ≠ some p := fun ht => hut (h.apart u t p hu ht)
      refine ⟨(halloc p hin).resolve_right fun hgone => hother hgone.1, fun hp => ?_⟩
      exact (hmem p hp).elim hnot hother
  · by_cases hut : u = t <;> by_cases hvt : v = t
    · rw [hut, hvt]
    · rw [hut, Threads.set_self] at hu
      rw [Threads.set_other _ _ _ _ hvt] at hv
      exact absurd hv ((hholds p hu).2.2 v hvt)
    · rw [hvt, Threads.set_self] at hv
      rw [Threads.set_other _ _ _ _ hut] at hu
      exact absurd hu ((hholds p hv).2.2 u hut)
    · rw [Threads.set_other _ _ _ _ hut] at hu
      rw [Threads.set_other _ _ _ _ hvt] at hv
      exact h.apart u v p hu hv

/-- **A step that has nothing to do with the list**: the thread keeps its node, gets one that is not
in use, or gives it up. -/
theorem keep (h : V.Inv s pops l) (htop : (V.links m).top = (V.links s.shared).top)
    (hnext : ∀ p ∈ V.allocated s.shared,
      (V.links m).pNextNode p = (V.links s.shared).pNextNode p)
    (halloc : ∀ p ∈ V.allocated s.shared, p ∈ V.allocated m ∨ V.holds (s.locals t) = some p)
    (hpop : ∀ step, V.popping loc = some step → V.popping (s.locals t) = some step ∨
      step = .readCount)
    (hpush : ∀ step, V.pushing loc = some step → step = .readNode)
    (hholds : ∀ p, V.holds loc = some p → p ∈ V.allocated m ∧
      (p ∉ l ∧ ∀ u, u ≠ t → V.holds (s.locals u) ≠ some p))
    (hcount : V.count s.shared + V.claims (s.locals t) + V.fails (s.locals t) +
        V.pending (s.locals t) = V.count m + V.claims loc + V.fails loc + V.pending loc)
    (hneg : 0 ≤ V.count m ∨ V.count s.shared + V.fails (s.locals t) ≤ V.count m + V.fails loc) :
    V.Inv (s.set t m loc) pops l := by
  have hlinks : LinksOk (V.links m) pops l :=
    h.links.congr htop fun p hp => hnext p (h.allocated p hp)
  refine h.set .refl hlinks (fun p => .inl) (fun p hp => ?_) (fun u p _ hu => ?_)
    (fun step hstep => ?_) (fun p step _ hstep => ?_) hholds (by omega) hneg
  · exact (halloc p hp).imp_right fun hmine => ⟨hmine, (h.holds t p hmine).2⟩
  · exact hnext p (h.holds u p hu).1
  · rcases hpop step hstep with hold | rfl
    · exact h.popping t step hold
    · trivial
  · rw [hpush step hstep]
    trivial

/-- A step that leaves the list, its counter and the nodes in use as they are. -/
theorem goto (h : V.Inv s pops l)
    (hm : V.links m = V.links s.shared ∧ V.count m = V.count s.shared ∧
      V.allocated m = V.allocated s.shared)
    (hpop : V.popping (s.locals t) = none ∧ V.popping loc = none)
    (hpush : ∀ step, V.pushing loc = some step → step = .readNode)
    (hholds : ∀ p, V.holds loc = some p → V.holds (s.locals t) = some p)
    (hweigh : V.fails loc = V.fails (s.locals t) ∧ V.pending loc = V.pending (s.locals t)) :
    V.Inv (s.set t m loc) pops l := by
  obtain ⟨hlinks, hcount, halloc⟩ := hm
  obtain ⟨hpop, hpop'⟩ := hpop
  obtain ⟨hfails, hpending⟩ := hweigh
  have hclaims : V.claims loc = V.claims (s.locals t) := by
    unfold claims
    rw [hpop, hpop']
  refine h.keep (by rw [hlinks]) (fun p _ => by rw [hlinks]) (fun p hp => .inl (halloc ▸ hp))
    (fun step hstep => ?_) hpush (fun p hp => ?_) (by omega) (.inr (by omega))
  · rw [hpop'] at hstep
    cases hstep
  · have hold := hholds p hp
    exact ⟨halloc ▸ (h.holds t p hold).1, (h.holds t p hold).2,
      fun u hu hother => hu (h.apart u t p hother hold)⟩

/-- A step of a thread without a node that counts. -/
theorem addCount (h : V.Inv s pops l)
    (hm : V.links m = V.links s.shared ∧ V.allocated m = V.allocated s.shared)
    (hpop : ∀ step, V.popping loc = some step → step = .readCount)
    (hholds : V.holds loc = none) (hpush : V.pushing loc = none)
    (hcount : V.count s.shared + V.claims (s.locals t) + V.fails (s.locals t) +
        V.pending (s.locals t) = V.count m + V.claims loc + V.fails loc + V.pending loc)
    (hneg : 0 ≤ V.count m ∨ V.count s.shared + V.fails (s.locals t) ≤ V.count m + V.fails loc) :
    V.Inv (s.set t m loc) pops l := by
  obtain ⟨hlinks, halloc⟩ := hm
  refine h.keep (by rw [hlinks]) (fun p _ => by rw [hlinks]) (fun p hp => .inl (halloc ▸ hp))
    (fun step hstep => .inr (hpop step hstep)) (fun step hstep => ?_) (fun p hp => ?_) hcount hneg
  · rw [hpush] at hstep
    cases hstep
  · rw [hholds] at hp
    cases hp

omit [DecidableEq τ] in
theorem holds_other (h : V.Inv s pops l) {p : Nat} (hp : V.holds (s.locals t) = some p) :
    p ∉ l ∧ ∀ u, u ≠ t → V.holds (s.locals u) ≠ some p :=
  ⟨(h.holds t p hp).2, fun u hu hother => hu (h.apart u t p hother hp)⟩

omit [DecidableEq τ] in
theorem fresh (h : V.Inv s pops l) {p : Nat} (hp : p ∉ V.allocated s.shared) :
    p ∉ l ∧ ∀ u, V.holds (s.locals u) ≠ some p :=
  ⟨fun hin => hp (h.allocated p hin), fun u hu => hp (h.holds u p hu).1⟩

theorem pop [DecidableEq γ] (h : V.Inv s pops l) {spurious : Bool} {step : PopStep γ}
    {links : Links γ} {r : PopStep γ ⊕ Nat} (K : PopStep γ ⊕ Nat → L)
    (hpop : V.popping (s.locals t) = some step)
    (hs : popStep spurious (V.links s.shared) step = some (links, r))
    (hcast : ∀ n : Nat, n ≤ pops → (n : γ) = pops → n = pops)
    (hm : V.links m = links ∧ V.count m = V.count s.shared ∧
      V.allocated m = V.allocated s.shared)
    (hread : ∀ step, V.popping (K (.inl step)) = some step ∧ V.holds (K (.inl step)) = none)
    (htaken : ∀ p, V.popping (K (.inr p)) = none ∧ V.pushing (K (.inr p)) = none ∧
      V.holds (K (.inr p)) = some p)
    (hweigh : ∀ r, V.fails (K r) = V.fails (s.locals t) ∧
      V.pending (K r) = V.pending (s.locals t)) :
    (V.Inv (s.set t m (K r)) pops l ∧ ∃ step', r = .inl step') ∨
      ∃ p l', r = .inr p ∧ l = p :: l' ∧ V.Inv (s.set t m (K r)) (pops + 1) l' := by
  obtain ⟨hlinks, hcount, halloc⟩ := hm
  have hclaim : V.claims (s.locals t) = 1 := by simp [claims, hpop]
  have hpos : 0 < l.length := h.count.pos (t := t) (by omega)
  obtain ⟨hfails, hpending⟩ := hweigh r
  obtain ⟨rfl, step', rfl, hok⟩ | ⟨p, rest, rfl, rfl, hnext, hlinks'⟩ :=
    popStep_cases hs h.links (h.popping t step hpop) hpos hcast
  · left
    obtain ⟨hstep', hnone⟩ := hread step'
    have hclaim' : V.claims (K (.inl step')) = 1 := by simp [claims, hstep']
    refine ⟨h.set .refl (hlinks ▸ h.links) (fun p => .inl) (fun p hp => .inl (halloc ▸ hp))
      (fun u p _ _ => by rw [hlinks]) (fun step hstep => ?_) (fun p step hp => ?_) (fun p hp => ?_)
      (by omega) (.inr (by omega)), step', rfl⟩
    · rw [hstep'] at hstep
      cases hstep
      exact hok
    · rw [hnone] at hp
      cases hp
    · rw [hnone] at hp
      cases hp
  · right
    obtain ⟨hstep', hpush, hhold⟩ := htaken p
    have hclaim' : V.claims (K (.inr p)) = 0 := by simp [claims, hstep']
    refine ⟨p, rest, rfl, rfl, h.set .pop (hlinks ▸ hlinks')
      (fun p hp => .inl (List.mem_cons_of_mem _ hp)) (fun p hp => .inl (halloc ▸ hp))
      (fun u p _ _ => by rw [hlinks, hnext]) (fun step hstep => ?_) (fun p step _ hstep => ?_)
      (fun p' hp' => ?_) ?_ (.inr (by omega))⟩
    · rw [hstep'] at hstep
      cases hstep
    · rw [hpush] at hstep
      cases hstep
    · rw [hhold] at hp'
      cases hp'
      have hin : p ∈ p :: rest := List.mem_cons_self
      refine ⟨halloc ▸ h.allocated p hin, (List.nodup_cons.1 h.links.nodup).1, fun u _ hu => ?_⟩
      exact (h.holds u p hu).2 hin
    · rw [List.length_cons]
      omega

theorem push (h : V.Inv s pops l) {spurious : Bool} {pDesired : Nat} {step : PushStep}
    {links : Links γ} {r : Option PushStep} (K : Option PushStep → L)
    (hpush : V.pushing (s.locals t) = some step) (hhold : V.holds (s.locals t) = some pDesired)
    (hs : pushStep spurious (V.links s.shared) pDesired step = (links, r))
    (hm : V.links m = links ∧ V.count m = V.count s.shared ∧
      V.allocated m = V.allocated s.shared)
    (hread : ∀ step, V.pushing (K (some step)) = some step ∧
      V.holds (K (some step)) = some pDesired)
    (hput : V.holds (K none) = none) (hpop : ∀ r, V.popping (K r) = none)
    (hclaims : V.popping (s.locals t) = none)
    (hweigh : ∀ r, V.fails (K r) = V.fails (s.locals t) ∧
      V.pending (K r) = V.pending (s.locals t) + if r = none then 1 else 0) :
    (V.Inv (s.set t m (K r)) pops l ∧ ∃ step', r = some step') ∨
      (r = none ∧ V.Inv (s.set t m (K r)) pops (pDesired :: l)) := by
  obtain ⟨hlinks, hcount, halloc⟩ := hm
  obtain ⟨hin, hnot⟩ := h.holds t pDesired hhold
  have hother := h.holds_other hhold
  have hclaim : V.claims (s.locals t) = 0 := by simp [claims, hclaims]
  have hclaim' : V.claims (K r) = 0 := by simp [claims, hpop]
  obtain ⟨hfails, hpending⟩ := hweigh r
  have hnone : ∀ step, V.popping (K r) = some step → False := by
    intro step hstep
    rw [hpop] at hstep
    cases hstep
  obtain ⟨step', rfl, hok, hlinks', hnext⟩ | ⟨rfl, hnext, hlinks'⟩ :=
    pushStep_cases hs h.links hnot (h.pushing t pDesired step hhold hpush)
  · left
    obtain ⟨hstep', hhold'⟩ := hread step'
    rw [if_neg nofun] at hpending
    refine ⟨h.set .refl (hlinks ▸ hlinks') (fun p => .inl) (fun p hp => .inl (halloc ▸ hp))
      (fun u p hu hp => ?_) (fun step hstep => (hnone step hstep).elim) (fun p step hp hstep => ?_)
      (fun p hp => ?_) (by omega) (.inr (by omega)), step', rfl⟩
    · rw [hlinks, hnext p]
      intro heq
      exact hother.2 u hu (heq ▸ hp)
    · rw [hhold'] at hp
      rw [hstep'] at hstep
      cases hp
      cases hstep
      exact hlinks ▸ hok
    · rw [hhold'] at hp
      cases hp
      exact ⟨halloc ▸ hin, hother⟩
  · right
    rw [if_pos rfl] at hpending
    refine ⟨rfl, h.set (.push pDesired) (hlinks ▸ hlinks') (fun p hp => ?_)
      (fun p hp => .inl (halloc ▸ hp)) (fun u p _ _ => by rw [hlinks, hnext])
      (fun step hstep => (hnone step hstep).elim) (fun p step hp => ?_) (fun p hp => ?_) ?_
      (.inr (by omega))⟩
    · rcases List.mem_cons.1 hp with rfl | hp
      · exact .inr hhold
      · exact .inl hp
    · rw [hput] at hp
      cases hp
    · rw [hput] at hp
      cases hp
    · rw [List.length_cons]
      omega

omit [DecidableEq τ] in
theorem popStep_isSome [DecidableEq γ] (h : V.Inv s pops l) {step : PopStep γ}
    (hpop : V.popping (s.locals t) = some step) (spurious : Bool) (links : Links γ) :
    (popStep spurious links step).isSome :=
  (h.popping t step hpop).isSome spurious

end Inv

end Users

end CppNetEngine.TopNode
