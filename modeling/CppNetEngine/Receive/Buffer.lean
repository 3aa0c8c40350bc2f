import CppNetEngine.Lib.Ring
import Mathlib.Algebra.Ring.Nat

/-!
# The receive ring buffer

`NetReceiveBuffer` of `NetReceiveBuffer.h`/`NetReceiveBuffer.cpp`. The two positions stay below
`mMaxBufferSize`, which the structure carries, so no subtraction below is negative. `mpBuffer` is
the memory from `&mpBuffer[0]` on: a byte nobody has written, and a byte outside the allocation,
is `none` (indeterminate). `Write`, `Read` and `Peek` copy to and from it, around its end if need
be; which indices they touch is part of what they return (`Transfer`).
-/

namespace CppNetEngine

/-- Memory seen from a pointer: `none` is a byte nobody has written. -/
abbrev Memory := Nat → Option UInt8

namespace Memory

/-- Memory as it comes from the allocator. -/
def fresh : Memory := fun _ => none

/-- The `n` bytes from offset `k` on. -/
def slice (p : Memory) (k n : Nat) : List (Option UInt8) := (List.range n).map fun i => p (k + i)

/-- `data` copied to offset `k`. -/
def store (p : Memory) (k : Nat) (data : List UInt8) : Memory :=
  fun i => if k ≤ i ∧ i - k < data.length then data[i - k]? else p i

@[simp] theorem slice_length (p : Memory) (k n : Nat) : (p.slice k n).length = n := by
  simp [slice]

theorem slice_add (p : Memory) (k n m : Nat) :
    p.slice k (n + m) = p.slice k n ++ p.slice (k + n) m := by
  simp [slice, List.range_add, Nat.add_assoc]

theorem mem_slice {p : Memory} {k n i : Nat} (h : i < n) : p (k + i) ∈ p.slice k n :=
  List.mem_map.2 ⟨i, List.mem_range.2 h, rfl⟩

theorem slice_eq {p : Memory} {k : Nat} {data : List UInt8}
    (h : ∀ i, i < data.length → p (k + i) = data[i]?) : p.slice k data.length = data.map some := by
  refine List.ext_getElem (by simp) fun i h1 h2 => ?_
  have hi : i < data.length := by simpa using h1
  simp [slice, h i hi, List.getElem?_eq_getElem hi]

theorem slice_store (p : Memory) (k : Nat) (data : List UInt8) :
    (p.store k data).slice k data.length = data.map some :=
  slice_eq fun i hi => by simp [store, hi]

theorem slice_store_outside (p : Memory) {k j n : Nat} {data : List UInt8}
    (h : j + n ≤ k ∨ k + data.length ≤ j) : (p.store k data).slice j n = p.slice j n := by
  unfold slice
  apply List.map_congr_left
  intro i hi
  have := List.mem_range.1 hi
  unfold store
  exact if_neg (by omega)

theorem store_inside {p : Memory} {k i : Nat} {data : List UInt8} (h : i < data.length) :
    p.store k data (k + i) = data[i]? := by
  simp [store, h]

theorem store_outside {p : Memory} {k i : Nat} {data : List UInt8}
    (h : i < k ∨ k + data.length ≤ i) : p.store k data i = p i := by
  unfold store
  exact if_neg (by omega)

@[simp] theorem store_nil (p : Memory) (k : Nat) : p.store k [] = p := by
  funext i
  simp [store]

/-- Bytes stored in front of the end of a ring are put into it. -/
theorem store_put (p : Memory) {m w : Nat} {data : List UInt8} (h : w + data.length ≤ m) :
    Ring.Put m w (data.map some) p (p.store w data) := by
  refine ⟨fun i hi => ?_, fun j _ hj => store_outside ?_⟩
  · rw [List.length_map] at hi
    rw [Nat.mod_eq_of_lt (by omega), store_inside hi, List.getElem_map]
    exact List.getElem?_eq_getElem hi
  · -- an index of the stored bytes is the offset of one
    by_contra hin
    refine hj (j - w) (by rw [List.length_map]; omega) ?_
    rw [Nat.mod_eq_of_lt (by omega)]
    omega

/-- Bytes stored up to the end of a ring, and from its start on. -/
theorem store_store_put (p : Memory) {m w : Nat} {data rest : List UInt8}
    (h : w + data.length = m) (hrest : rest.length ≤ w) :
    Ring.Put m w ((data ++ rest).map some) p ((p.store w data).store 0 rest) := by
  refine ⟨fun i hi => ?_, fun j hlt hj => ?_⟩
  · rw [List.length_map, List.length_append] at hi
    rw [List.getElem_map]
    by_cases hend : i < data.length
    · rw [Nat.mod_eq_of_lt (by omega), store_outside (by omega), store_inside hend,
        List.getElem_append_left hend]
      exact List.getElem?_eq_getElem hend
    · have hpos : (w + i) % m = 0 + (i - data.length) := by
        rw [Nat.mod_eq_sub_mod (by omega), Nat.mod_eq_of_lt (by omega)]
        omega
      rw [hpos, store_inside (by omega), List.getElem_append_right (by omega)]
      exact List.getElem?_eq_getElem _
  · rw [List.length_map, List.length_append] at hj
    rw [store_outside, store_outside]
    · by_contra hin
      refine hj (j - w) (by omega) ?_
      rw [Nat.mod_eq_of_lt (by omega)]
      omega
    · by_contra hin
      refine hj (data.length + j) (by omega) ?_
      rw [← Nat.add_assoc, h, Nat.add_mod_left, Nat.mod_eq_of_lt hlt]

end Memory

/-- The ring buffer, with the bounds of its positions. -/
structure NetReceiveBuffer where
  mMaxBufferSize : Nat
  mReadPos : Nat
  mWritePos : Nat
  mpBuffer : Memory
  readPos_lt : mReadPos < mMaxBufferSize
  writePos_lt : mWritePos < mMaxBufferSize

namespace NetReceiveBuffer

def defaultBufferSize : Nat := 65535

theorem defaultBufferSize_pos : 0 < defaultBufferSize := by decide

/-- The constructor: the `maxSize + 1` bytes it allocates are not initialised. -/
def new (maxSize : Nat) (h : 0 < maxSize) : NetReceiveBuffer :=
  ⟨maxSize, 0, 0, Memory.fresh, h, h⟩

def clear (b : NetReceiveBuffer) : NetReceiveBuffer :=
  { b with
    mReadPos := 0
    mWritePos := 0
    readPos_lt := Nat.zero_lt_of_lt b.readPos_lt
    writePos_lt := Nat.zero_lt_of_lt b.readPos_lt }

def getFreeSize (b : NetReceiveBuffer) : Nat :=
  if b.mReadPos > b.mWritePos then b.mReadPos - b.mWritePos - 1
  else b.mMaxBufferSize - (b.mWritePos - b.mReadPos) - 1

def getUseSize (b : NetReceiveBuffer) : Nat :=
  if b.mReadPos > b.mWritePos then b.mMaxBufferSize - (b.mReadPos - b.mWritePos)
  else b.mWritePos - b.mReadPos

/-- `GetReadPtr`: the memory from the read position on. -/
def getReadPtr (b : NetReceiveBuffer) : Memory := fun i => b.mpBuffer (b.mReadPos + i)

def getLinearWriteSize (b : NetReceiveBuffer) : Nat :=
  if b.mReadPos > b.mWritePos then b.mReadPos - b.mWritePos - 1
  else b.mMaxBufferSize - b.mWritePos - (if b.mReadPos = 0 then 1 else 0)

def getLinearReadSize (b : NetReceiveBuffer) : Nat :=
  if b.mReadPos > b.mWritePos then b.mMaxBufferSize - b.mReadPos
  else b.mWritePos - b.mReadPos

def moveReadPos (b : NetReceiveBuffer) (size : Nat) : NetReceiveBuffer :=
  { b with
    mReadPos := (b.mReadPos + size) % b.mMaxBufferSize
    readPos_lt := Nat.mod_lt _ (Nat.zero_lt_of_lt b.readPos_lt) }

def moveWritePos (b : NetReceiveBuffer) (size : Nat) : NetReceiveBuffer :=
  { b with
    mWritePos := (b.mWritePos + size) % b.mMaxBufferSize
    writePos_lt := Nat.mod_lt _ (Nat.zero_lt_of_lt b.writePos_lt) }

/-! ### Write, Read and Peek -/

/-- What a call leaves and returns. -/
structure Transfer where
  buffer : NetReceiveBuffer
  /-- The bytes written to `pBuffer`. -/
  pBuffer : List (Option UInt8)
  size : Nat
  /-- The indices of `mpBuffer` that were read or written. -/
  touched : List Nat

/-- The sum of two `int32` that are not negative; there is none if it overflows. -/
def addInt32 (a b : Nat) : Option Nat := if a + b < 2 ^ 31 then some (a + b) else none

/-- `Write`. `pData` is the memory behind the pointer. -/
def write (b : NetReceiveBuffer) (pData : Nat → UInt8) (size : Nat) : Option Transfer :=
  let writeSize := min b.getFreeSize size
  if writeSize = 0 then some ⟨b, [], writeSize, []⟩
  else
    (addInt32 writeSize b.mWritePos).map fun writeEnd =>
      if writeEnd < b.mMaxBufferSize then
        let mpBuffer := b.mpBuffer.store b.mWritePos (Ring.line pData 0 writeSize)
        ⟨{ b with mpBuffer := mpBuffer }.moveWritePos writeSize, [], writeSize,
          List.range' b.mWritePos writeSize⟩
      else
        let linearSize := b.getLinearWriteSize
        let mpBuffer := b.mpBuffer.store b.mWritePos (Ring.line pData 0 linearSize)
        let remainSize := writeSize - linearSize
        let mpBuffer := mpBuffer.store 0 (Ring.line pData linearSize remainSize)
        ⟨{ b with mpBuffer := mpBuffer }.moveWritePos writeSize, [], writeSize,
          List.range' b.mWritePos linearSize ++ List.range' 0 remainSize⟩

/-- The copies of `Read` and `Peek`: the bytes, and the indices they come from. -/
def copyOut (b : NetReceiveBuffer) (readSize readEnd : Nat) : List (Option UInt8) × List Nat :=
  if readEnd > b.mMaxBufferSize then
    let linearSize := b.getLinearReadSize
    let remainSize := readSize - linearSize
    (b.mpBuffer.slice b.mReadPos linearSize ++ b.mpBuffer.slice 0 remainSize,
      List.range' b.mReadPos linearSize ++ List.range' 0 remainSize)
  else (b.mpBuffer.slice b.mReadPos readSize, List.range' b.mReadPos readSize)

/-- `Read` and `Peek`, which differ in what becomes of the buffer. -/
def transferOut (b : NetReceiveBuffer) (after : Nat → NetReceiveBuffer) (size : Nat) :
    Option Transfer :=
  let readSize := min b.getUseSize size
  if readSize = 0 then some ⟨b, [], readSize, []⟩
  else
    (addInt32 readSize b.mReadPos).map fun readEnd =>
      let r := b.copyOut readSize readEnd
      ⟨after readSize, r.1, readSize, r.2⟩

def read (b : NetReceiveBuffer) (size : Nat) : Option Transfer := b.transferOut b.moveReadPos size

def peek (b : NetReceiveBuffer) (size : Nat) : Option Transfer := b.transferOut (fun _ => b) size

/-! ### Used and free bytes -/

/-- **The sizes**: the unread bytes go around the end, or begin at the start of the buffer, or
have free bytes on both sides. -/
theorem sizes_cases (b : NetReceiveBuffer) :
    (b.mWritePos < b.mReadPos ∧ b.getUseSize + b.mReadPos = b.mMaxBufferSize + b.mWritePos ∧
      b.getFreeSize + 1 + b.mWritePos = b.mReadPos ∧ b.getLinearWriteSize = b.getFreeSize) ∨
    (b.mReadPos = 0 ∧ b.getUseSize = b.mWritePos ∧
      b.mWritePos + b.getFreeSize + 1 = b.mMaxBufferSize ∧
      b.getLinearWriteSize = b.getFreeSize) ∨
    (0 < b.mReadPos ∧ b.mReadPos ≤ b.mWritePos ∧ b.getUseSize + b.mReadPos = b.mWritePos ∧
      b.getLinearWriteSize + b.mWritePos = b.mMaxBufferSize ∧
      b.getFreeSize + 1 = b.getLinearWriteSize + b.mReadPos) := by
  have h1 := b.readPos_lt
  have h2 := b.writePos_lt
  unfold getUseSize getFreeSize getLinearWriteSize
  by_cases hwrap : b.mReadPos > b.mWritePos
  · rw [if_pos hwrap, if_pos hwrap, if_pos hwrap]
    exact .inl ⟨hwrap, by omega, by omega, rfl⟩
  · rw [if_neg hwrap, if_neg hwrap, if_neg hwrap]
    by_cases hzero : b.mReadPos = 0
    · rw [if_pos hzero]
      exact .inr (.inl ⟨hzero, by omega, by omega, by omega⟩)
    · rw [if_neg hzero]
      exact .inr (.inr ⟨by omega, by omega, by omega, by omega, by omega⟩)

/-- The ring is empty or not; either way used and free bytes are all but one. -/
theorem useSize_add_freeSize (b : NetReceiveBuffer) :
    b.getUseSize + b.getFreeSize + 1 = b.mMaxBufferSize := by
  have h1 := b.readPos_lt
  have h2 := b.writePos_lt
  have hsizes := b.sizes_cases
  omega

/-- The unread bytes, in the order of the ring. -/
def content (b : NetReceiveBuffer) : List (Option UInt8) :=
  Ring.cells b.mMaxBufferSize b.mpBuffer b.mReadPos b.getUseSize

@[simp] theorem content_length (b : NetReceiveBuffer) : b.content.length = b.getUseSize :=
  Ring.cells_length

theorem readPos_add_useSize (b : NetReceiveBuffer) :
    (b.mReadPos + b.getUseSize) % b.mMaxBufferSize = b.mWritePos := by
  have h1 := b.readPos_lt
  have h2 := b.writePos_lt
  have hsizes := b.sizes_cases
  rw [Ring.mod_eq (by omega)]
  split <;> omega

@[simp] theorem moveReadPos_zero (b : NetReceiveBuffer) : b.moveReadPos 0 = b := by
  simp [moveReadPos, Nat.mod_eq_of_lt b.readPos_lt]

theorem useSize_moveReadPos {b : NetReceiveBuffer} {n : Nat} (h : n ≤ b.getUseSize) :
    (b.moveReadPos n).getUseSize = b.getUseSize - n := by
  have h1 := b.readPos_lt
  have h2 := b.writePos_lt
  have hsizes := b.sizes_cases
  have hpos : (b.mReadPos + n) % b.mMaxBufferSize = _ := Ring.mod_eq (by omega)
  show (if (b.mReadPos + n) % b.mMaxBufferSize > b.mWritePos then _ else _) = _
  simp only [moveReadPos, hpos]
  split <;> split <;> omega

theorem useSize_moveWritePos {b : NetReceiveBuffer} {n : Nat} (h : n ≤ b.getFreeSize) :
    (b.moveWritePos n).getUseSize = b.getUseSize + n := by
  have h1 := b.readPos_lt
  have h2 := b.writePos_lt
  have hsizes := b.sizes_cases
  have hpos : (b.mWritePos + n) % b.mMaxBufferSize = _ := Ring.mod_eq (by omega)
  show (if b.mReadPos > (b.mWritePos + n) % b.mMaxBufferSize then _ else _) = _
  simp only [moveWritePos, hpos]
  split <;> split <;> omega

theorem linearWriteSize_le (b : NetReceiveBuffer) : b.getLinearWriteSize ≤ b.getFreeSize := by
  have hsizes := b.sizes_cases
  omega

/-- Free bytes reach the end of the buffer only where the read position is behind its start and
not behind the write position. -/
theorem linearWriteSize_of_end {b : NetReceiveBuffer} {n : Nat} (h : n ≤ b.getFreeSize)
    (hend : b.mMaxBufferSize ≤ n + b.mWritePos) :
    b.getLinearWriteSize = b.mMaxBufferSize - b.mWritePos := by
  have h1 := b.readPos_lt
  have hsizes := b.sizes_cases
  omega

theorem content_moveReadPos {b : NetReceiveBuffer} {n : Nat} (h : n ≤ b.getUseSize) :
    (b.moveReadPos n).content = b.content.drop n := by
  unfold content
  rw [Ring.cells_drop h, useSize_moveReadPos h]
  rfl

theorem content_put {b : NetReceiveBuffer} {p : Memory} {xs : List (Option UInt8)}
    (hput : Ring.Put b.mMaxBufferSize b.mWritePos xs b.mpBuffer p)
    (h : xs.length ≤ b.getFreeSize) :
    ({ b with mpBuffer := p }.moveWritePos xs.length).content = b.content ++ xs := by
  have hsum := b.useSize_add_freeSize
  have huse := useSize_moveWritePos (b := { b with mpBuffer := p }) h
  unfold content
  rw [huse]
  rw [← readPos_add_useSize b] at hput
  have hroom : b.getUseSize + xs.length ≤ b.mMaxBufferSize := by omega
  exact Ring.cells_put b.readPos_lt hput hroom

end NetReceiveBuffer

end CppNetEngine
