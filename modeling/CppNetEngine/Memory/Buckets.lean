import Mathlib.Data.Nat.Basic

/-!
# Buckets

Which `MemoryPool` of the `MemoryAllocator` serves a size, and how the blocks of its chunks lie in
memory. A size has a bucket that exists (`bucketOf_exists`), with blocks of at least that size
(`le_allocSize`); two blocks of a chunk lie apart (`blocks_disjoint`).
-/

namespace CppNetEngine.MemoryAllocator

def smallStride : Nat := 256

def largeStride : Nat := 4096

def threshold : Nat := 4096

def maxSize : Nat := 65536

def smallPoolCount : Nat := threshold / smallStride - 1

def largePoolCount : Nat := maxSize / largeStride

/-- `CHUNK_SIZE`. -/
def chunkSize : Nat := 500

/-- An entry of `mSmallBuckets` or of `mLargeBuckets`. -/
inductive Bucket
  | small (index : Nat)
  | large (index : Nat)
  deriving DecidableEq

def getBucketIndex (size stride : Nat) : Nat := (size - 1) / stride

/-- The bucket that `Alloc` and `Free` choose for a size up to `maxSize`. -/
def bucketOf (size : Nat) : Bucket :=
  if size ≤ threshold - smallStride then .small (getBucketIndex size smallStride)
  else .large (getBucketIndex size largeStride)

namespace Bucket

/-- The tables of buckets have such an entry. -/
def Exists : Bucket → Prop
  | small index => index < smallPoolCount
  | large index => index < largePoolCount

/-- `ALLOC_SIZE`. -/
def allocSize : Bucket → Nat
  | small index => (index + 1) * smallStride
  | large index => (index + 1) * largeStride

/-- `sizeof(ChunkData)`: the block, its checksum and the pointer to its chunk. -/
def dataSize (b : Bucket) : Nat := b.allocSize + 16

/-- Where the blocks begin in a chunk: after the two counters, aligned to 16. -/
def dataOffset : Nat := 16

/-- `sizeof(Node)` of the pool: a chunk, its checksum and the next node. -/
def nodeSize (b : Bucket) : Nat := dataOffset + chunkSize * b.dataSize + 16

end Bucket

theorem bucketOf_exists {size : Nat} (hsize : size ≤ maxSize) (hpos : 1 ≤ size) :
    (bucketOf size).Exists := by
  unfold bucketOf
  split
  · simp only [Bucket.Exists, getBucketIndex, smallPoolCount, threshold, smallStride] at *
    omega
  · simp only [Bucket.Exists, getBucketIndex, largePoolCount, largeStride, maxSize] at *
    omega

theorem le_allocSize (size : Nat) : size ≤ (bucketOf size).allocSize := by
  unfold bucketOf
  split
  · simp only [Bucket.allocSize, getBucketIndex, smallStride]
    omega
  · simp only [Bucket.allocSize, getBucketIndex, largeStride]
    omega

/-- The bytes from one address up to another. -/
structure Span where
  start : Nat
  stop : Nat

/-- Two spans have no byte in common. -/
def Span.Disjoint (s t : Span) : Prop := s.stop ≤ t.start ∨ t.stop ≤ s.start

theorem Span.Disjoint.symm {s t : Span} (h : s.Disjoint t) : t.Disjoint s := Or.symm h

theorem Span.Disjoint.mono {s t s' t' : Span} (h : s.Disjoint t)
    (hs : s.start ≤ s'.start ∧ s'.stop ≤ s.stop) (ht : t.start ≤ t'.start ∧ t'.stop ≤ t.stop) :
    s'.Disjoint t' := by
  unfold Span.Disjoint at *
  omega

/-- The node at an address. -/
def nodeSpan (b : Bucket) (pChunk : Nat) : Span := ⟨pChunk, pChunk + b.nodeSize⟩

/-- The first `size` bytes of a block of the chunk at an address. -/
def blockSpan (b : Bucket) (pChunk index size : Nat) : Span :=
  ⟨pChunk + Bucket.dataOffset + index * b.dataSize,
    pChunk + Bucket.dataOffset + index * b.dataSize + size⟩

theorem blockSpan_subset {b : Bucket} {pChunk index size : Nat} (hindex : index < chunkSize)
    (hsize : size ≤ b.allocSize) :
    (nodeSpan b pChunk).start ≤ (blockSpan b pChunk index size).start ∧
      (blockSpan b pChunk index size).stop ≤ (nodeSpan b pChunk).stop := by
  have hle : (index + 1) * b.dataSize ≤ chunkSize * b.dataSize := Nat.mul_le_mul_right _ hindex
  rw [Nat.add_mul, Nat.one_mul] at hle
  simp only [nodeSpan, blockSpan, Bucket.nodeSize]
  unfold Bucket.dataSize at *
  omega

theorem blocks_disjoint {b : Bucket} {pChunk i j m n : Nat} (hij : i ≠ j) (hm : m ≤ b.allocSize)
    (hn : n ≤ b.allocSize) : (blockSpan b pChunk i m).Disjoint (blockSpan b pChunk j n) := by
  have hbefore : ∀ {i j : Nat}, i < j → i * b.dataSize + b.dataSize ≤ j * b.dataSize := by
    intro i j hlt
    have hle := Nat.mul_le_mul_right b.dataSize hlt
    rwa [Nat.succ_mul] at hle
  have hsize : b.dataSize = b.allocSize + 16 := rfl
  simp only [Span.Disjoint, blockSpan]
  rcases Nat.lt_or_gt_of_ne hij with hlt | hlt
  · have := hbefore hlt
    omega
  · have := hbefore hlt
    omega

end CppNetEngine.MemoryAllocator
