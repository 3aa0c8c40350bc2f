import CppNetEngine.Queue.Proof.Fifo

/-!
# Nodes that are handed out again

The compare-and-swap of `TryEnqueue` is on the node at the tail in every run in which no node is
handed out that a `TryEnqueue` has read as the tail and not yet swapped (`linkGuard_of_kept`): such
a node is at the tail until a node is linked behind it, and only who is given it again can undo
that.
-/

namespace CppNetEngine.LockFreeQueue

variable {τ κ α : Type*} [DecidableEq κ] {m m' : Memory κ α} {pc pc' : Pc κ α} {k : Outside}
  {q : κ}

/-- No node is handed out that a `TryEnqueue` is about to link its node to. -/
def ReuseGuard (s : State τ κ α) (t : τ) : Action κ α → Prop
  | .construct _ _ pDummyNode => ∀ u, ∀ link ∈ (s.locals u).links, link.2 ≠ pDummyNode
  | .next k => (s.locals t).allocates = true →
    ∀ u, ∀ link ∈ (s.locals u).links, link.2 ≠ k.address
  | _ => True

/-- The node that a `TryEnqueue` is to link. -/
def Pc.desires : Pc κ α → Option Nat
  | .enqueue q data step => (Pc.enqueue q data step).owns
  | _ => none

omit [DecidableEq κ] in
theorem Pc.owns_of_desires {n : Nat} (h : pc.desires = some n) : pc.owns = some n := by
  cases pc with
  | enqueue => exact h
  | idle | dequeue => cases h

/-- What a step does to tails, to the nodes that have no next one, and to the nodes that threads
are to link or to link to. -/
structure Effect (m m' : Memory κ α) (pc pc' : Pc κ α) (k : Outside) : Prop where
  next : ∀ b, m'.pNextNode b = none → m.pNextNode b = none ∨ pc.desires = some b
  tail : ∀ q, (m'.queue q).mTail = (m.queue q).mTail ∨ Lagging m q
  desires : ∀ b, pc'.desires = some b →
    pc.desires = some b ∨ (pc.allocates = true ∧ b = k.address)
  links : ∀ link ∈ pc'.links,
    m' = m ∧ Constructed m link.1 ∧ (m.queue link.1).mTail.pNode = some link.2

namespace Effect

omit [DecidableEq κ] in
/-- A step that does not come to the compare-and-swap, and is given no node. -/
theorem of_next (hnext : ∀ b, m'.pNextNode b = none → m.pNextNode b = none ∨ pc.desires = some b)
    (htail : ∀ q, (m'.queue q).mTail = (m.queue q).mTail ∨ Lagging m q)
    (hdesires : pc'.desires = pc.desires ∨ pc'.desires = none)
    (hlinks : pc'.links = none) : Effect m m' pc pc' k where
  next := hnext
  tail := htail
  desires b hb := by
    rcases hdesires with heq | heq
    · exact .inl (heq ▸ hb)
    · rw [heq] at hb
      cases hb
  links link hl := by
    rw [hlinks] at hl
    cases hl

omit [DecidableEq κ] in
/-- A step that writes no link and moves no tail. -/
theorem of_keeps (hnext : m'.pNextNode = m.pNextNode)
    (htail : ∀ q, (m'.queue q).mTail = (m.queue q).mTail)
    (hdesires : pc'.desires = pc.desires ∨ pc'.desires = none)
    (hlinks : pc'.links = none) : Effect m m' pc pc' k :=
  of_next (fun _ hb => .inl (hnext ▸ hb)) (fun q => .inl (htail q)) hdesires hlinks

theorem of_moveTail {step : MoveStep} {next : Option MoveStep}
    (h : moveTail m q step = some (m', next)) (hok : MoveOk m q step)
    (htail : (m.queue q).mTail.pNode ≠ none)
    (hdesires : pc'.desires = pc.desires ∨ pc'.desires = none)
    (hlinks : pc'.links = none) : Effect m m' pc pc' k := by
  obtain ⟨rfl, -⟩ | ⟨-, b, n, hb, hn, rfl⟩ := moveTail_cases h hok htail
  · exact of_keeps rfl (fun _ => rfl) hdesires hlinks
  · refine of_next (fun _ hb => .inl hb) (fun q' => ?_) hdesires hlinks
    by_cases hq : q' = q
    · rw [hq]
      exact .inr ⟨b, n, hb, hn⟩
    · exact .inl (Memory.setTail_other hq)

end Effect

theorem enqueueStep_effect {data : α} {step : EnqueueStep} (hc : Constructed m q)
    (hok : EnqueueOk m q data step) (htail : (m.queue q).mTail.pNode ≠ none)
    (h : enqueueStep k m q data step = some (m', pc')) :
    Effect m m' (.enqueue q data step) pc' k := by
  cases step with
  | loadCount =>
    cases h
    split <;> exact .of_keeps rfl (fun _ => rfl) (.inl rfl) rfl
  | newObject =>
    cases h
    refine ⟨fun _ hb => .inl hb, fun _ => .inl rfl, fun b hb => .inr ⟨rfl, ?_⟩, nofun⟩
    exact (Option.some.inj hb).symm
  | setData a | readTail a =>
    cases h
    exact .of_keeps rfl (fun _ => rfl) (.inl rfl) rfl
  | setNext a =>
    cases h
    refine .of_next (fun b hb => ?_) (fun _ => .inl rfl) (.inl rfl) rfl
    by_cases hba : b = a
    · rw [hba]
      exact .inr rfl
    · exact .inl ((Function.update_of_ne hba _ _).symm.trans hb)
  | readNext a pNode =>
    obtain ⟨b, rfl, hnext⟩ := Option.map_eq_some_iff.1 h
    cases hnext
    exact .of_keeps rfl (fun _ => rfl) (.inl rfl) rfl
  | readTailAgain a pExpected =>
    cases h
    split
    · refine ⟨fun _ hb => .inl hb, fun _ => .inl rfl, fun b hb => .inl hb, fun link hl => ?_⟩
      obtain ⟨b, hb, rfl⟩ := Option.map_eq_some_iff.1 hl
      exact ⟨rfl, hc, hb⟩
    · exact .of_keeps rfl (fun _ => rfl) (.inl rfl) rfl
  | swap a pNode =>
    obtain ⟨b, rfl, hswap⟩ := Option.map_eq_some_iff.1 h
    split at hswap <;> cases hswap
    · refine .of_next (fun b' hb' => .inl ?_) (fun _ => .inl rfl) (.inr rfl) rfl
      by_cases hbb : b' = b
      · rw [hbb]
        assumption
      · exact (Function.update_of_ne hbb _ _).symm.trans hb'
    · exact .of_keeps rfl (fun _ => rfl) (.inl rfl) rfl
  | retry a step =>
    obtain ⟨⟨m', next⟩, hmove, hnext⟩ := Option.map_eq_some_iff.1 h
    cases hnext
    refine .of_moveTail hmove hok.2.2 htail (.inl ?_) ?_ <;> cases next <;> rfl
  | moveTail step =>
    obtain ⟨⟨m', next⟩, hmove, hnext⟩ := Option.map_eq_some_iff.1 h
    cases hnext
    refine .of_moveTail hmove hok htail (.inl ?_) ?_ <;> cases next <;> rfl
  | fetchAdd =>
    cases h
    exact .of_keeps rfl (fun _ => Memory.addCount_mTail) (.inl rfl) rfl

theorem dequeueStep_effect {outData : α} {e d : Node16} {step : DequeueStep}
    (hok : DequeueOk m q outData e d step) (htail : (m.queue q).mTail.pNode ≠ none)
    (h : dequeueStep k m q outData e d step = some (m', pc')) :
    Effect m m' (.dequeue q outData e d step) pc' k := by
  cases step with
  | fetchSub | fetchAdd =>
    cases h
    exact .of_keeps rfl (fun _ => Memory.addCount_mTail) (.inl rfl) rfl
  | compare | compareTail | compareHead | readCount | readNode | deleteObject =>
    cases h
    exact .of_keeps rfl (fun _ => rfl) (.inl rfl) rfl
  | moveTail step =>
    obtain ⟨⟨m', next⟩, hmove, hnext⟩ := Option.map_eq_some_iff.1 h
    cases hnext
    exact .of_moveTail hmove hok.2 htail (.inl rfl) rfl
  | readNext | readData =>
    obtain ⟨b, -, hnext⟩ := Option.map_eq_some_iff.1 h
    cases hnext
    exact .of_keeps rfl (fun _ => rfl) (.inl rfl) rfl
  | swap =>
    simp only [dequeueStep] at h
    split at h <;> cases h
    · exact .of_keeps rfl (fun _ => Memory.setHead_mTail) (.inl rfl) rfl
    · exact .of_keeps rfl (fun _ => rfl) (.inl rfl) rfl

theorem step_effect {g : κ → List Nat} (hm : MemoryOk m g) (hok : PcOk m pc)
    (h : step k m pc = some (m', pc')) : Effect m m' pc pc' k := by
  cases pc with
  | idle => cases h
  | enqueue q data step =>
    exact enqueueStep_effect hok.1 hok.2 ((hm.queue q).tail_ne_none hok.1) h
  | dequeue q outData e d step =>
    exact dequeueStep_effect hok.2 ((hm.queue q).tail_ne_none hok.1) h

/-! ## Runs -/

/-- What a `TryEnqueue` has read as the tail is so until a node is linked to it, and no thread has
it to link it. -/
structure Kept (s : State τ κ α) : Prop where
  guard : ∀ t, LinkGuard s t
  apart : ∀ t u, ∀ link ∈ (s.locals t).links, (s.locals u).desires ≠ some link.2

variable [DecidableEq τ] {l : List (Event κ α)} {s : State τ κ α} {g : κ → List Nat} {t : τ}

omit [DecidableEq τ] in
theorem Inv.desires_ne (h : Inv l s g) (hc : Constructed s.shared q) {b : Nat}
    (hb : (s.shared.queue q).mTail.pNode = some b) (u : τ) : (s.locals u).desires ≠ some b := by
  intro hu
  exact ((h.thread u).owned b (Pc.owns_of_desires hu)).2 q (h.memory.tail_mem hc hb)

omit [DecidableEq κ] in
theorem PcOk.constructed (h : PcOk m pc) {link : κ × Nat} (hl : link ∈ pc.links) :
    Constructed m link.1 := by
  unfold Pc.links at hl
  split at hl
  · obtain ⟨b, -, rfl⟩ := Option.map_eq_some_iff.1 hl
    exact h.1
  · cases hl

theorem Kept.set (h : Kept s) (hI : Inv l s g)
    (hother : ∀ u, u ≠ t → ∀ link ∈ (s.locals u).links,
      (m.pNextNode link.2 = none → s.shared.pNextNode link.2 = none) ∧
        ((m.queue link.1).mTail = (s.shared.queue link.1).mTail ∨ Lagging s.shared link.1))
    (hlinks : ∀ link ∈ pc.links, m = s.shared ∧ Constructed s.shared link.1 ∧
      (s.shared.queue link.1).mTail.pNode = some link.2)
    (hdesires : ∀ b, pc.desires = some b → (s.locals t).desires = some b ∨
      (b ∉ s.shared.allocated ∧ ∀ u, ∀ link ∈ (s.locals u).links, link.2 ≠ b)) :
    Kept (s.set t m pc) := by
  refine ⟨fun u => ?_, fun u v link hl hd => ?_⟩
  · intro link hl hnone
    by_cases hut : u = t
    · rw [hut, Threads.set_self] at hl
      obtain ⟨rfl, -, htail⟩ := hlinks link hl
      exact htail
    · rw [Threads.set_other _ _ _ _ hut] at hl
      obtain ⟨hnext, htail⟩ := hother u hut link hl
      have hold := h.guard u link hl (hnext hnone)
      rcases htail with htail | ⟨b, n, hb, hn⟩
      · rw [Threads.set_shared, htail]
        exact hold
      · rw [hold] at hb
        cases hb
        rw [hnext hnone] at hn
        cases hn
  · have hold : (s.locals v).desires = some link.2 ∨ (v = t ∧ link.2 ∉ s.shared.allocated ∧
        ∀ u, ∀ link' ∈ (s.locals u).links, link'.2 ≠ link.2) := by
      by_cases hvt : v = t
      · rw [hvt, Threads.set_self] at hd
        rw [hvt]
        exact (hdesires _ hd).imp_right fun hfresh => ⟨rfl, hfresh⟩
      · rw [Threads.set_other _ _ _ _ hvt] at hd
        exact .inl hd
    by_cases hut : u = t
    · rw [hut, Threads.set_self] at hl
      obtain ⟨-, hc, htail⟩ := hlinks link hl
      rcases hold with hold | ⟨-, hfresh, -⟩
      · exact hI.desires_ne hc htail v hold
      · exact hfresh (hI.memory.allocated _ _ (hI.memory.tail_mem hc htail))
    · rw [Threads.set_other _ _ _ _ hut] at hl
      rcases hold with hold | ⟨-, -, hfresh⟩
      · exact h.apart u v link hl hold
      · exact hfresh u link hl rfl

theorem Kept.act (h : Kept s) (hI : Inv l s g) {a : Action κ α} (hguard : CallsGuard s t a)
    (hreuse : ReuseGuard s t a) (hs : act a s.shared (s.locals t) = some (m, pc)) :
    Kept (s.set t m pc) := by
  cases a with
  | next k =>
    have heffect := step_effect hI.memory (hI.thread t).ok (show step k s.shared _ = _ from hs)
    refine h.set hI (fun u hut link hl => ⟨fun hnone => ?_, heffect.tail _⟩) heffect.links
      fun b hb => ?_
    · exact (heffect.next _ hnone).resolve_right (h.apart u t link hl)
    · refine (heffect.desires b hb).imp_right fun hfresh => ?_
      obtain ⟨halloc, rfl⟩ := hfresh
      exact ⟨hguard halloc, hreuse halloc⟩
  | construct q maxCount a =>
    cases hpc : s.locals t <;> rw [hpc] at hs <;> cases hs
    refine h.set hI (fun u hut link hl => ⟨fun hnone => ?_, .inl ?_⟩) nofun nofun
    · exact (construct_next (hreuse u link hl)).symm.trans hnone
    · have hc := (hI.thread u).ok.constructed hl
      rw [construct_other]
      intro heq
      rw [heq] at hc
      exact hc hguard.1
  | enqueue q data | dequeue q outData =>
    cases hpc : s.locals t <;> rw [hpc] at hs <;> cases hs
    exact h.set hI (fun u hut link hl => ⟨id, .inl rfl⟩) nofun nofun

/-- **Where no node is handed out that a `TryEnqueue` is about to link to**, every
compare-and-swap of `TryEnqueue` that succeeds is on the node at the tail. -/
theorem linkGuard_of_kept (h : (machine τ κ α).Observed
    (Threads.Guard (fun s t a => CallsGuard s t a ∧ ReuseGuard s t a) fun _ _ => True)
    watched l s) :
    ObservedIf LinkGuard l s := by
  have hboth : ObservedIf LinkGuard l s ∧ Kept s := by
    induction h with
    | init hs =>
      refine ⟨.init hs, fun t link hl => ?_, fun t u link hl => ?_⟩ <;>
        rw [hs.2 t] at hl <;> cases hl
    | step _ hok hs ih =>
      obtain ⟨hrun, hkept⟩ := ih
      obtain ⟨g, hI⟩ := inv_of_observed hrun
      obtain ⟨t, a, m, pc, rfl, ha, rfl⟩ | ⟨e, -⟩ := Threads.step_cases hs
      · exact ⟨.step hrun ⟨hok.1, hkept.guard t⟩ hs, hkept.act hI hok.1 hok.2 ha⟩
      · exact e.elim
  exact hboth.1

end CppNetEngine.LockFreeQueue
