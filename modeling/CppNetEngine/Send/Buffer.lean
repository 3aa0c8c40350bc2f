import CppNetEngine.Receive.Buffer

/-!
# The send buffer

`NetSendBuffer` of `NetSendBuffer.h`/`NetSendBuffer.cpp`, and `SendBufferAllocator`, which rounds
its size up. `mpBuffer` is null when `MemoryAllocator::Alloc` is asked for no bytes.
-/

namespace CppNetEngine

/-- A send buffer; it never commits more than it has. -/
structure NetSendBuffer where
  mMaxBufferSize : Nat
  mReadPos : Nat
  mWritePos : Nat
  mpBuffer : Option Memory
  writePos_le : mWritePos ≤ mMaxBufferSize

/-- What `Reserve` returns. -/
inductive ReserveResult
  /-- A null pointer: no room. -/
  | null
  /-- It reads `mpBuffer[0]` of a null `mpBuffer`. -/
  | nullRead
  /-- The memory from `mpBuffer` on and the offset of the write pointer in it. -/
  | ptr (p : Memory) (offset : Nat)

namespace NetSendBuffer

/-- The constructor. -/
def new (maxSize : Nat) : NetSendBuffer :=
  { mMaxBufferSize := maxSize
    mReadPos := 0
    mWritePos := 0
    mpBuffer := if maxSize = 0 then none else some Memory.fresh
    writePos_le := Nat.zero_le _ }

def getFreeSize (b : NetSendBuffer) : Nat := b.mMaxBufferSize - b.mWritePos

def getUseSize (b : NetSendBuffer) : Nat := b.mWritePos

def reserve (b : NetSendBuffer) (size : Nat) : ReserveResult :=
  if b.getFreeSize < size then .null
  else
    match b.mpBuffer with
    | none => .nullRead
    | some p => .ptr p b.mWritePos

def moveWritePos (b : NetSendBuffer) (size : Nat) : NetSendBuffer :=
  if h : b.getFreeSize < size then b
  else
    { b with
      mWritePos := b.mWritePos + size
      writePos_le := by
        have := b.writePos_le
        unfold getFreeSize at h
        omega }

def commit (b : NetSendBuffer) (size : Nat) : NetSendBuffer := b.moveWritePos size

def moveReadPos (b : NetSendBuffer) (size : Nat) : NetSendBuffer :=
  if size + b.mReadPos > b.mWritePos then b else { b with mReadPos := b.mReadPos + size }

def clear (b : NetSendBuffer) : NetSendBuffer :=
  { b with
    mReadPos := 0
    mWritePos := 0
    writePos_le := Nat.zero_le _ }

/-- The memory from `mpBuffer` on; there is nothing at a null pointer. -/
def memory (b : NetSendBuffer) : Memory := b.mpBuffer.getD Memory.fresh

/-- `GetReadPtr`: the memory from the read position on. -/
def getReadPtr (b : NetSendBuffer) : Memory := fun i => b.memory (b.mReadPos + i)

/-- The `WSABUF` that `Sender::Register` makes of the buffer: `GetUseSize` bytes from `GetReadPtr`
on. -/
def wsaBuf (b : NetSendBuffer) : List (Option UInt8) := b.getReadPtr.slice 0 b.getUseSize

@[simp] theorem commit_mMaxBufferSize (b : NetSendBuffer) (size : Nat) :
    (b.commit size).mMaxBufferSize = b.mMaxBufferSize := by
  unfold commit moveWritePos
  split <;> rfl

@[simp] theorem commit_mpBuffer (b : NetSendBuffer) (size : Nat) :
    (b.commit size).mpBuffer = b.mpBuffer := by
  unfold commit moveWritePos
  split <;> rfl

@[simp] theorem commit_getReadPtr (b : NetSendBuffer) (size : Nat) :
    (b.commit size).getReadPtr = b.getReadPtr := by
  unfold commit moveWritePos
  split <;> rfl

theorem commit_getUseSize {b : NetSendBuffer} {size : Nat} (h : size ≤ b.getFreeSize) :
    (b.commit size).getUseSize = b.getUseSize + size := by
  unfold commit moveWritePos
  rw [dif_neg (Nat.not_lt.2 h)]
  rfl

end NetSendBuffer

namespace SendBufferAllocator

def smallStride : Nat := 256
def largeStride : Nat := 4096
def threshold : Nat := 4096
def maxSize : Nat := 65536

/-- `x & ~(stride - 1)`, for a `stride` that is a power of two. -/
def clearLow (x stride : Nat) : Nat := x - x % stride

def getAllocSize (size : Nat) : Nat :=
  if size ≤ threshold then clearLow (size + smallStride - 1) smallStride
  else clearLow (size + largeStride - 1) largeStride

/-- `Alloc`; no result is `nullptr`. -/
def alloc (size : Nat) : Option NetSendBuffer :=
  if size > maxSize then none else some (.new (getAllocSize size))

/-- The size is rounded up, and only 0 to 0. -/
theorem le_getAllocSize (size : Nat) : size ≤ getAllocSize size := by
  unfold getAllocSize clearLow smallStride largeStride
  split <;> omega

theorem getAllocSize_le {size : Nat} (h : size ≤ threshold) : getAllocSize size ≤ threshold := by
  unfold getAllocSize clearLow
  unfold threshold at h ⊢
  unfold smallStride
  rw [if_pos h]
  omega

end SendBufferAllocator

end CppNetEngine
