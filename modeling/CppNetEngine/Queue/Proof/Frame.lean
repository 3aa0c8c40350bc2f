import CppNetEngine.Queue.LockFreeQueue

/-!
# What steps leave as it is

`moveTail` moves a tail, or nothing (`moveTail_frame`). A step of `TryEnqueue` leaves the heads where
they are (`EnqueueFrame`), and so does a step of `TryDequeue` that is not a compare-and-swap that
succeeds (`DequeueFrame`). Nobody changes `mMaxCount`.
-/

namespace CppNetEngine.LockFreeQueue

variable {κ α : Type*} [DecidableEq κ] {m m' : Memory κ α} {q q' : κ} {k : Outside}
  {pc pc' : Pc κ α}

theorem moveTail_frame {step : MoveStep} {next : Option MoveStep}
    (h : moveTail m q step = some (m', next)) : m' = m ∨ ∃ tail, m' = m.setTail q tail := by
  cases step with
  | readCount | readNode =>
    cases h
    exact .inl rfl
  | readNext e =>
    obtain ⟨b, -, hnext⟩ := Option.map_eq_some_iff.1 h
    cases hnext
    exact .inl rfl
  | swap e n =>
    cases h
    split
    · exact .inr ⟨_, rfl⟩
    · exact .inl rfl

/-- The memory has the same heads and bounds. -/
structure SameHeads (m m' : Memory κ α) : Prop where
  head : ∀ q, (m'.queue q).mHead = (m.queue q).mHead
  maxCount : ∀ q, (m'.queue q).mMaxCount = (m.queue q).mMaxCount

omit [DecidableEq κ] in
theorem SameHeads.of_queue (h : m'.queue = m.queue) : SameHeads m m' := by
  constructor <;> intro q <;> rw [h]

theorem SameHeads.addCount {n : Int} : SameHeads m (m.addCount q n) :=
  ⟨fun _ => Memory.addCount_mHead, fun _ => Memory.addCount_mMaxCount⟩

theorem moveTail_heads {step : MoveStep} {next : Option MoveStep}
    (h : moveTail m q step = some (m', next)) :
    SameHeads m m' ∧ m'.allocated = m.allocated := by
  obtain rfl | ⟨tail, rfl⟩ := moveTail_frame h
  · exact ⟨.of_queue rfl, rfl⟩
  · exact ⟨⟨fun _ => Memory.setTail_mHead, fun _ => Memory.setTail_mMaxCount⟩, rfl⟩

/-- What a step of `TryEnqueue` leaves; it goes on in `TryEnqueue`, or returns. -/
structure EnqueueFrame (k : Outside) (m m' : Memory κ α) (q : κ) (data : α) (pc' : Pc κ α) :
    Prop where
  heads : SameHeads m m'
  allocated : m'.allocated ⊆ insert k.address m.allocated
  pc : pc' = .idle ∨ ∃ step', pc' = .enqueue q data step'

theorem enqueueStep_frame {data : α} {step : EnqueueStep}
    (h : enqueueStep k m q data step = some (m', pc')) : EnqueueFrame k m m' q data pc' := by
  have hsub := Finset.subset_insert k.address m.allocated
  cases step with
  | loadCount =>
    cases h
    refine ⟨.of_queue rfl, hsub, ?_⟩
    split
    · exact .inl rfl
    · exact .inr ⟨_, rfl⟩
  | newObject =>
    cases h
    exact ⟨.of_queue rfl, Finset.Subset.refl _, .inr ⟨_, rfl⟩⟩
  | setData | setNext | readTail =>
    cases h
    exact ⟨.of_queue rfl, hsub, .inr ⟨_, rfl⟩⟩
  | readTailAgain =>
    cases h
    refine ⟨.of_queue rfl, hsub, .inr ?_⟩
    split <;> exact ⟨_, rfl⟩
  | readNext a pNode =>
    obtain ⟨b, -, hnext⟩ := Option.map_eq_some_iff.1 h
    cases hnext
    exact ⟨.of_queue rfl, hsub, .inr ⟨_, rfl⟩⟩
  | swap a pNode =>
    obtain ⟨b, -, hswap⟩ := Option.map_eq_some_iff.1 h
    split at hswap <;> cases hswap
    · exact ⟨.of_queue rfl, hsub, .inr ⟨_, rfl⟩⟩
    · exact ⟨.of_queue rfl, hsub, .inr ⟨_, rfl⟩⟩
  | retry a step | moveTail step =>
    obtain ⟨⟨m'', next⟩, hmove, hnext⟩ := Option.map_eq_some_iff.1 h
    cases hnext
    obtain ⟨hheads, hallocated⟩ := moveTail_heads hmove
    refine ⟨hheads, hallocated.symm ▸ hsub, .inr ?_⟩
    cases next with
    | none | some => exact ⟨_, rfl⟩
  | fetchAdd =>
    cases h
    exact ⟨.addCount, hsub, .inl rfl⟩

/-- What a step of `TryDequeue` leaves. -/
inductive DequeueFrame (m m' : Memory κ α) (q : κ) (outData : α) (expected desired : Node16)
    (step : DequeueStep) (pc' : Pc κ α) : Prop
  /-- It goes on in `TryDequeue`, or returns. -/
  | stays : SameHeads m m' → m'.allocated ⊆ m.allocated →
    (pc' = .idle ∨ ∃ outData' expected' desired' step',
      pc' = .dequeue q outData' expected' desired' step' ∧ step' ≠ .deleteObject) →
    DequeueFrame m m' q outData expected desired step pc'
  /-- The head is moved. -/
  | takes : step = .swap → (m.queue q).mHead = expected → m' = m.setHead q desired →
    pc' = .dequeue q outData expected desired .deleteObject →
    DequeueFrame m m' q outData expected desired step pc'

theorem dequeueStep_frame {outData : α} {e d : Node16} {step : DequeueStep}
    (h : dequeueStep k m q outData e d step = some (m', pc')) :
    DequeueFrame m m' q outData e d step pc' := by
  have hsub := Finset.Subset.refl m.allocated
  cases step with
  | fetchSub =>
    cases h
    refine .stays .addCount hsub (.inr ⟨_, _, _, _, rfl, ?_⟩)
    split <;> exact nofun
  | fetchAdd =>
    cases h
    exact .stays .addCount hsub (.inl rfl)
  | compare | compareTail | compareHead | readNode =>
    cases h
    refine .stays (.of_queue rfl) hsub (.inr ⟨_, _, _, _, rfl, ?_⟩)
    split <;> exact nofun
  | readCount =>
    cases h
    exact .stays (.of_queue rfl) hsub (.inr ⟨_, _, _, _, rfl, nofun⟩)
  | moveTail step =>
    obtain ⟨⟨m'', next⟩, hmove, hnext⟩ := Option.map_eq_some_iff.1 h
    cases hnext
    obtain ⟨hheads, hallocated⟩ := moveTail_heads hmove
    refine .stays hheads hallocated.subset (.inr ⟨_, _, _, _, rfl, ?_⟩)
    cases next with
    | none | some => exact nofun
  | readNext =>
    obtain ⟨b, -, hnext⟩ := Option.map_eq_some_iff.1 h
    cases hnext
    refine .stays (.of_queue rfl) hsub (.inr ⟨_, _, _, _, rfl, ?_⟩)
    split <;> exact nofun
  | readData =>
    obtain ⟨b, -, hnext⟩ := Option.map_eq_some_iff.1 h
    cases hnext
    exact .stays (.of_queue rfl) hsub (.inr ⟨_, _, _, _, rfl, nofun⟩)
  | swap =>
    simp only [dequeueStep] at h
    split at h <;> cases h
    · rename_i hhead
      exact .takes rfl hhead rfl rfl
    · exact .stays (.of_queue rfl) hsub (.inr ⟨_, _, _, _, rfl, nofun⟩)
  | deleteObject =>
    cases h
    refine .stays (.of_queue rfl) ?_ (.inl rfl)
    rw [Memory.deleteObject]
    cases e.pNode with
    | none => exact hsub
    | some n => exact Finset.erase_subset _ _

theorem step_maxCount (h : step k m pc = some (m', pc')) :
    (m'.queue q').mMaxCount = (m.queue q').mMaxCount := by
  cases pc with
  | idle => cases h
  | enqueue q data step => exact (enqueueStep_frame h).heads.maxCount q'
  | dequeue q outData e d step =>
    cases dequeueStep_frame h with
    | stays hheads => exact hheads.maxCount q'
    | takes _ _ hm =>
      rw [hm]
      exact Memory.setHead_mMaxCount

end CppNetEngine.LockFreeQueue
