import CppNetEngine.Lib.Machine
import CppNetEngine.Send.Buffer

/-!
# What a send buffer exposes

A buffer next to the bytes that were committed to it since it was cleared, and how many of them were
skipped (`Filled`). The positions stay in order, and the committed bytes are at the start of the
memory (`Filled.Ok`). `GetUseSize` does not subtract the read position, so what `Sender::Register`
takes are the unread bytes as long as none were skipped (`exposes_iff`).
-/

namespace CppNetEngine.NetSendBuffer

/-- A buffer, with what was committed to it and how much of that was skipped. -/
structure Filled where
  buffer : NetSendBuffer
  committed : List (Option UInt8)
  skipped : Nat

/-- What can be called on a buffer. -/
inductive Call
  /-- `Reserve`, and what the caller copies to where it points. -/
  | reserve (size : Nat) (data : List UInt8)
  | commit (size : Nat)
  | moveWritePos (size : Nat)
  | moveReadPos (size : Nat)
  | clear

theorem reserve_ptr {b : NetSendBuffer} {size offset : Nat} {p : Memory}
    (h : b.reserve size = .ptr p offset) : b.mpBuffer = some p ∧ offset = b.mWritePos := by
  unfold reserve at h
  split at h
  · cases h
  · split at h
    · cases h
    · rename_i hp
      cases h
      exact ⟨hp, rfl⟩

namespace Filled

/-- A new buffer. -/
def new (maxSize : Nat) : Filled := ⟨.new maxSize, [], 0⟩

/-- `size` more bytes are committed, if they fit. -/
def add (s : Filled) (size : Nat) : List (Option UInt8) :=
  if s.committed.length + size ≤ s.buffer.mMaxBufferSize then
    s.committed ++ s.buffer.memory.slice s.committed.length size
  else s.committed

/-- What a call does; one that reads through a null pointer has no result. -/
def call (s : Filled) : Call → Option Filled
  | .reserve size data =>
    match s.buffer.reserve size with
    | .null => some s
    | .nullRead => none
    | .ptr p offset =>
      some { s with buffer := { s.buffer with mpBuffer := some (p.store offset data) } }
  | .commit size => some { s with buffer := s.buffer.commit size, committed := s.add size }
  | .moveWritePos size =>
    some { s with buffer := s.buffer.moveWritePos size, committed := s.add size }
  | .moveReadPos size => some
    { s with
      buffer := s.buffer.moveReadPos size
      skipped := if s.skipped + size ≤ s.committed.length then s.skipped + size else s.skipped }
  | .clear => some ⟨s.buffer.clear, [], 0⟩

/-- A buffer that is made and called. -/
def machine (maxSize : Nat) : Machine Filled Call where
  init s := s = new maxSize
  step := call

/-- The positions are in order. -/
structure InOrder (s : Filled) : Prop where
  readPos_le : s.buffer.mReadPos ≤ s.buffer.mWritePos
  writePos_le : s.buffer.mWritePos ≤ s.buffer.mMaxBufferSize

/-- What is handed to `WSASend` is in the buffer, and is what was committed and not skipped. -/
structure Exposes (s : Filled) : Prop where
  inside : s.buffer.mReadPos + s.buffer.getUseSize ≤ s.buffer.mMaxBufferSize
  bytes : s.buffer.wsaBuf = s.committed.drop s.skipped

/-- `MoveReadPos` skips nothing: no bytes, or more than there are to be skipped. -/
def SkipGuard (s : Filled) : Call → Prop
  | .moveReadPos size => size = 0 ∨ s.buffer.mWritePos < s.buffer.mReadPos + size
  | _ => True

/-! ## The invariant -/

/-- The committed bytes are in front of the write position, the skipped ones of them in front of the
read position. -/
structure Ok (s : Filled) : Prop where
  skipped : s.buffer.mReadPos = s.skipped
  skipped_le : s.skipped ≤ s.committed.length
  length : s.buffer.mWritePos = s.committed.length
  bytes : s.buffer.memory.slice 0 s.committed.length = s.committed

variable {s s' : Filled} {c : Call}

theorem Ok.positions (h : s.Ok) : s.InOrder := by
  refine ⟨?_, s.buffer.writePos_le⟩
  rw [h.skipped, h.length]
  exact h.skipped_le

theorem Ok.new (maxSize : Nat) : (new maxSize).Ok := ⟨rfl, Nat.le_refl _, rfl, rfl⟩

/-- What the caller writes is behind the committed bytes. -/
theorem Ok.store (h : s.Ok) {p : Memory} (hp : s.buffer.mpBuffer = some p) (data : List UInt8) :
    Ok { s with buffer :=
      { s.buffer with mpBuffer := some (p.store s.buffer.mWritePos data) } } := by
  refine ⟨h.skipped, h.skipped_le, h.length, ?_⟩
  have hbytes := h.bytes
  unfold memory at hbytes
  rw [hp, Option.getD_some] at hbytes
  refine Eq.trans ?_ hbytes
  refine Memory.slice_store_outside p (.inl ?_)
  rw [Nat.zero_add]
  exact Nat.le_of_eq h.length.symm

theorem Ok.moveWritePos (h : s.Ok) (size : Nat) :
    Ok { s with buffer := s.buffer.moveWritePos size, committed := s.add size } := by
  have hle := s.buffer.writePos_le
  have hlength := h.length
  unfold add NetSendBuffer.moveWritePos getFreeSize
  by_cases hfull : s.buffer.mMaxBufferSize - s.buffer.mWritePos < size
  · rw [dif_pos hfull, if_neg (by omega)]
    exact h
  · rw [dif_neg hfull, if_pos (by omega)]
    refine ⟨h.skipped, ?_, ?_, ?_⟩
    · rw [List.length_append]
      exact Nat.le_add_right_of_le h.skipped_le
    · rw [List.length_append, Memory.slice_length]
      exact congrArg (· + size) hlength
    · rw [List.length_append, Memory.slice_length, Memory.slice_add, Nat.zero_add]
      exact congrArg (· ++ _) h.bytes

theorem Ok.moveReadPos (h : s.Ok) (size : Nat) :
    Ok { s with
      buffer := s.buffer.moveReadPos size
      skipped := if s.skipped + size ≤ s.committed.length then s.skipped + size else s.skipped } := by
  have hskipped := h.skipped
  have hlength := h.length
  unfold NetSendBuffer.moveReadPos
  by_cases hfits : s.skipped + size ≤ s.committed.length
  · rw [if_neg (by omega), if_pos hfits]
    exact ⟨congrArg (· + size) hskipped, hfits, hlength, h.bytes⟩
  · rw [if_pos (by omega), if_neg hfits]
    exact h

/-- `Reserve` and what is copied then change the memory at most. -/
theorem call_reserve {size : Nat} {data : List UInt8}
    (hs : s.call (.reserve size data) = some s') :
    s' = s ∨ ∃ p, s.buffer.mpBuffer = some p ∧
      s' = { s with buffer :=
        { s.buffer with mpBuffer := some (p.store s.buffer.mWritePos data) } } := by
  unfold Filled.call at hs
  cases hr : s.buffer.reserve size with
  | null =>
    simp only [hr] at hs
    cases hs
    exact .inl rfl
  | nullRead =>
    simp only [hr] at hs
    cases hs
  | ptr p offset =>
    simp only [hr] at hs
    cases hs
    obtain ⟨hp, rfl⟩ := reserve_ptr hr
    exact .inr ⟨p, hp, rfl⟩

theorem Ok.call (h : s.Ok) (hs : s.call c = some s') : s'.Ok := by
  cases c with
  | reserve size data =>
    rcases call_reserve hs with rfl | ⟨p, hp, rfl⟩
    · exact h
    · exact h.store hp data
  | commit size | moveWritePos size =>
    cases hs
    exact h.moveWritePos size
  | moveReadPos size =>
    cases hs
    exact h.moveReadPos size
  | clear =>
    cases hs
    exact ⟨rfl, Nat.le_refl _, rfl, rfl⟩

/-- What is exposed has the length of everything that was committed. -/
theorem Ok.exposes (h : s.Ok) : s.Exposes ↔ s.skipped = 0 := by
  have hle := s.buffer.writePos_le
  have hlength := h.length
  have hskipped := h.skipped
  constructor
  · intro hexposes
    have hlen := congrArg List.length hexposes.bytes
    unfold wsaBuf getUseSize at hlen
    rw [Memory.slice_length, List.length_drop] at hlen
    have hle := h.skipped_le
    omega
  · intro hzero
    rw [hzero] at hskipped
    refine ⟨?_, ?_⟩
    · unfold getUseSize
      omega
    · unfold wsaBuf getReadPtr getUseSize
      rw [hskipped, hzero, List.drop_zero, hlength]
      simp only [Nat.zero_add]
      exact h.bytes

theorem call_skipped (h : s.Ok) (hzero : s.skipped = 0) (hok : SkipGuard s c)
    (hs : s.call c = some s') : s'.skipped = 0 := by
  cases c with
  | reserve size data =>
    rcases call_reserve hs with rfl | ⟨p, -, rfl⟩
    · exact hzero
    · exact hzero
  | commit size | moveWritePos size =>
    cases hs
    exact hzero
  | moveReadPos size =>
    cases hs
    have hskipped := h.skipped
    have hlength := h.length
    show (if s.skipped + size ≤ s.committed.length then s.skipped + size else s.skipped) = 0
    rcases hok with hsize | hmore
    · rw [hsize, Nat.add_zero, ite_self, hzero]
    · rw [if_neg (by omega), hzero]
  | clear =>
    cases hs
    rfl

/-- What a call that skips something leaves is not exposed right. -/
theorem call_not_exposes (h : s.Ok) (hok : ¬ SkipGuard s c) (hs : s.call c = some s') :
    ¬ s'.Exposes := by
  rw [(h.call hs).exposes]
  cases c with
  | moveReadPos size =>
    cases hs
    have hskipped := h.skipped
    have hlength := h.length
    obtain ⟨hsize, hfits⟩ := not_or.1 hok
    show (if s.skipped + size ≤ s.committed.length then s.skipped + size else s.skipped) ≠ 0
    rw [if_pos (by omega)]
    omega
  | reserve size data | commit size | moveWritePos size | clear => exact absurd trivial hok

end Filled

open Filled

/-- **What a send buffer exposes.** For every capacity and every run of calls, the positions are in
order throughout; and what `Sender::Register` takes are the bytes that were committed and not
skipped, throughout, exactly if no call of `MoveReadPos` skips anything. -/
theorem exposes_iff (maxSize : Nat) (calls : List Call) {s : Filled}
    (h : (machine maxSize).exec (Filled.new maxSize) calls = some s) :
    (machine maxSize).Always InOrder (Filled.new maxSize) calls ∧
    ((machine maxSize).Always Exposes (Filled.new maxSize) calls ↔
      (machine maxSize).Allowed SkipGuard (Filled.new maxSize) calls) := by
  refine ⟨?_, ?_⟩
  · exact Machine.always_of_invariant (fun _ => Ok.positions) (fun _ _ _ hI hs => hI.call hs) calls
      (Ok.new maxSize)
  · refine Machine.always_iff (I := fun s => s.Ok ∧ s.skipped = 0)
      (fun s hI => hI.1.exposes.2 hI.2) ?_ ?_ calls ⟨Ok.new maxSize, rfl⟩ h
    · exact fun s c s' hI hok hs => ⟨hI.1.call hs, call_skipped hI.1 hI.2 hok hs⟩
    · exact fun s c s' hI hok hs => call_not_exposes hI.1 hok hs

/-- A buffer of eight bytes takes three, skips none and is cleared. -/
theorem exposes_iff_cleared :
    (machine 8).Always Exposes (Filled.new 8) [.reserve 4 [1, 2, 3], .commit 3, .moveReadPos 0,
      .clear] :=
  (exposes_iff 8 [.reserve 4 [1, 2, 3], .commit 3, .moveReadPos 0, .clear] rfl).2.2
    ⟨trivial, trivial, .inl rfl, trivial, trivial⟩

/-- A buffer of eight bytes is filled, and two of them are skipped: eight are exposed still, from
the third on. -/
theorem not_exposes_skipped :
    ¬ (∀ (maxSize : Nat) (calls : List Call) (s : Filled),
      (machine maxSize).exec (Filled.new maxSize) calls = some s →
        (machine maxSize).Always Exposes (Filled.new maxSize) calls) := by
  intro h
  have hrun := h 8 [.reserve 8 [1, 2, 3, 4, 5, 6, 7, 8], .commit 8, .moveReadPos 2] _ rfl
  have hinside : 2 + 8 ≤ 8 := hrun.2.2.2.inside
  exact absurd hinside (by decide)

end CppNetEngine.NetSendBuffer
