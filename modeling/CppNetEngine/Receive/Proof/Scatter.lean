import CppNetEngine.Receive.Proof.Queue
import CppNetEngine.Receive.Receiver

/-!
# The kernel's way into the ring

The `WSABUF`s that `Register` posts are the free bytes of the ring (`Posted`), and a completion that
fills them and moves the write position leaves what `Write` would have left (`scatter_eq_write`).
-/

namespace CppNetEngine

/-- The index of `mpBuffer` is in the `WSABUF`. -/
def WsaBuf.Covers (w : WsaBuf) (i : Nat) : Prop :=
  w.buf ≤ i ∧ i < w.buf + w.len

namespace Receiver

open NetReceiveBuffer

/-- The buffer when the completion of the `WSARecv` that `Register` posted brings `data`. -/
def filled (b : NetReceiveBuffer) (data : List UInt8) : NetReceiveBuffer :=
  { b with mpBuffer := scatter b.mpBuffer (registerBufs b) data }.moveWritePos data.length

/-- A completion of what `Register` posted, as `Process` finds it. -/
theorem moveWritePos_arrive {s : Receiver} (h : s.wsabufs = some (registerBufs s.mNetReceiveBuffer))
    (data : List UInt8) :
    (s.arrive data).mNetReceiveBuffer.moveWritePos data.length =
      filled s.mNetReceiveBuffer data := by
  unfold arrive
  rw [h]
  rfl

/-- The `WSABUF`s of a buffer. -/
structure Posted (b : NetReceiveBuffer) : Prop where
  /-- `remainSize` is not negative. -/
  remain : b.getLinearWriteSize ≤ b.getFreeSize
  first : ∀ w ∈ (registerBufs b).head?, 0 < w.len
  sum : ((registerBufs b).map WsaBuf.len).sum = b.getFreeSize
  inside : ∀ w ∈ registerBufs b, w.buf + w.len ≤ b.mMaxBufferSize
  apart : (registerBufs b).Pairwise fun v w => ∀ i, ¬ (v.Covers i ∧ w.Covers i)
  unread : ∀ w ∈ registerBufs b, ∀ j < b.getUseSize,
    ¬ w.Covers ((b.mReadPos + j) % b.mMaxBufferSize)

variable {b : NetReceiveBuffer}

/-- **What `Register` posts**: the free bytes are in one piece, or go around the end. -/
theorem registerBufs_cases (b : NetReceiveBuffer) :
    (b.getFreeSize = b.getLinearWriteSize ∧
      registerBufs b = [⟨b.mWritePos, b.getLinearWriteSize⟩]) ∨
    (b.mReadPos ≤ b.mWritePos ∧ b.getLinearWriteSize + b.mWritePos = b.mMaxBufferSize ∧
      registerBufs b = [⟨b.mWritePos, b.getLinearWriteSize⟩,
        ⟨0, b.getFreeSize - b.getLinearWriteSize⟩]) := by
  have hsizes := b.sizes_cases
  unfold registerBufs
  dsimp only
  split
  · exact .inr ⟨by omega, by omega, rfl⟩
  · exact .inl ⟨by omega, rfl⟩

theorem posted (hfree : 0 < b.getFreeSize) : Posted b := by
  have hread := b.readPos_lt
  have hwrite := b.writePos_lt
  have hsizes := b.sizes_cases
  have hunread : ∀ j < b.getUseSize, (b.mReadPos + j) % b.mMaxBufferSize = b.mReadPos + j ∨
      (b.mReadPos + j) % b.mMaxBufferSize + b.mMaxBufferSize = b.mReadPos + j := by
    intro j hj
    rw [Ring.mod_eq (by omega)]
    split <;> omega
  obtain ⟨heq, hbufs⟩ | ⟨hle, hlinear, hbufs⟩ := registerBufs_cases b
  · refine ⟨b.linearWriteSize_le, ?_, ?_, ?_, ?_, ?_⟩ <;> rw [hbufs]
    · rintro w ⟨⟩
      show 0 < b.getLinearWriteSize
      omega
    · exact heq.symm
    · intro w hw
      cases List.mem_singleton.1 hw
      show b.mWritePos + b.getLinearWriteSize ≤ _
      omega
    · exact List.pairwise_singleton _ _
    · intro w hw j hj hcovers
      cases List.mem_singleton.1 hw
      obtain ⟨h1, h2⟩ := hcovers
      dsimp only at h1 h2
      have hpos := hunread j hj
      have hlt := Nat.mod_lt (b.mReadPos + j) (Nat.zero_lt_of_lt hread)
      omega
  · refine ⟨b.linearWriteSize_le, ?_, ?_, ?_, ?_, ?_⟩ <;> rw [hbufs]
    · rintro w ⟨⟩
      show 0 < b.getLinearWriteSize
      omega
    · simp
      omega
    · simp only [List.mem_cons, List.not_mem_nil, or_false]
      rintro w (rfl | rfl) <;> dsimp only <;> omega
    · refine List.pairwise_pair.2 fun i hi => ?_
      obtain ⟨⟨h1, -⟩, -, h2⟩ := hi
      dsimp only at h1 h2
      omega
    · simp only [List.mem_cons, List.not_mem_nil, or_false]
      rintro w hw j hj ⟨h1, h2⟩
      have hpos := hunread j hj
      have hlt := Nat.mod_lt (b.mReadPos + j) (Nat.zero_lt_of_lt hread)
      rcases hw with rfl | rfl <;> dsimp only at h1 h2 <;> omega

/-! ## Write -/

theorem line_getD (data : List UInt8) {k n : Nat} (h : k + n ≤ data.length) :
    Ring.line (fun i => data.getD i 0) k n = (data.drop k).take n := by
  refine List.ext_getElem (by simp; omega) fun i h1 h2 => ?_
  have hi : k + i < data.length := by
    rw [Ring.line_length] at h1
    omega
  simp [Ring.line, List.getElem?_eq_getElem hi]

theorem scatter_registerBufs {data : List UInt8} (hlen : data.length ≤ b.getFreeSize) :
    scatter b.mpBuffer (registerBufs b) data =
      (b.mpBuffer.store b.mWritePos (data.take b.getLinearWriteSize)).store 0
        (data.drop b.getLinearWriteSize) := by
  obtain ⟨heq, hbufs⟩ | ⟨-, -, hbufs⟩ := registerBufs_cases b
  · rw [hbufs, List.drop_of_length_le (by omega), Memory.store_nil]
    rfl
  · rw [hbufs]
    simp only [scatter]
    rw [List.take_of_length_le (l := data.drop _) (by rw [List.length_drop]; omega)]

/-- The bytes of a completion are put behind those that are unread. -/
theorem scatter_put {data : List UInt8} (hlen : data.length ≤ b.getFreeSize) :
    Ring.Put b.mMaxBufferSize b.mWritePos (data.map some) b.mpBuffer
      (scatter b.mpBuffer (registerBufs b) data) := by
  have hread := b.readPos_lt
  have hsizes := b.sizes_cases
  rw [scatter_registerBufs hlen]
  by_cases hshort : data.length ≤ b.getLinearWriteSize
  · rw [List.take_of_length_le hshort, List.drop_of_length_le hshort, Memory.store_nil]
    exact b.mpBuffer.store_put (by omega)
  · have hlinear : b.mWritePos + (data.take b.getLinearWriteSize).length = b.mMaxBufferSize := by
      rw [List.length_take]
      omega
    have hrest : (data.drop b.getLinearWriteSize).length ≤ b.mWritePos := by
      rw [List.length_drop]
      omega
    have hput := b.mpBuffer.store_store_put hlinear hrest
    rwa [List.take_append_drop] at hput

theorem content_filled {data : List UInt8} (hlen : data.length ≤ b.getFreeSize) :
    (filled b data).content = b.content ++ data.map some := by
  have hcontent := content_put (scatter_put hlen) (by rw [List.length_map]; exact hlen)
  rwa [List.length_map] at hcontent

theorem useSize_filled {data : List UInt8} (hlen : data.length ≤ b.getFreeSize) :
    (filled b data).getUseSize = b.getUseSize + data.length :=
  useSize_moveWritePos
    (b := { b with mpBuffer := scatter b.mpBuffer (registerBufs b) data }) hlen

theorem filled_outside {data : List UInt8} (hlen : data.length ≤ b.getFreeSize) {i : Nat}
    (hi : b.mMaxBufferSize ≤ i) : (filled b data).mpBuffer i = b.mpBuffer i := by
  have hread := b.readPos_lt
  have hwrite := b.writePos_lt
  have hsizes := b.sizes_cases
  show scatter b.mpBuffer (registerBufs b) data i = _
  rw [scatter_registerBufs hlen, Memory.store_outside, Memory.store_outside]
  · rw [List.length_take]
    omega
  · rw [List.length_drop]
    omega

/-- **A completion leaves what `Write` leaves**, as long as the `int32` sum of `Write` does not
overflow. -/
theorem write_eq {data : List UInt8} (hpos : 1 ≤ data.length)
    (hlen : data.length ≤ b.getFreeSize) {r : Transfer}
    (h : b.write (fun i => data.getD i 0) data.length = some r) :
    r.size = data.length ∧ r.buffer = filled b data := by
  have hread := b.readPos_lt
  have hsizes := b.sizes_cases
  unfold write at h
  rw [Nat.min_eq_right hlen, if_neg (by omega)] at h
  obtain ⟨writeEnd, hsum, rfl⟩ := Option.map_eq_some_iff.1 h
  unfold addInt32 at hsum
  split at hsum <;> cases hsum
  unfold filled
  rw [scatter_registerBufs hlen]
  split
  · rename_i hend
    have hshort : data.length ≤ b.getLinearWriteSize := by omega
    refine ⟨rfl, ?_⟩
    rw [line_getD data (by omega), List.drop_zero, List.take_of_length_le (Nat.le_refl _),
      List.take_of_length_le hshort, List.drop_of_length_le hshort, Memory.store_nil]
  · have hlong : b.getLinearWriteSize ≤ data.length := by omega
    refine ⟨rfl, ?_⟩
    dsimp only
    rw [line_getD data (by omega), line_getD data (by omega), List.drop_zero,
      List.take_of_length_le (l := data.drop _) (Nat.le_of_eq List.length_drop)]

/-- **Scatter receive equals `Write`**: what is posted are the free bytes, and a completion leaves
the positions and the bytes that `Write` leaves. -/
theorem scatter_eq_write (b : NetReceiveBuffer) (hfree : 0 < b.getFreeSize) :
    Posted b ∧ ∀ data : List UInt8, 1 ≤ data.length → data.length ≤ b.getFreeSize →
      (b.mWritePos + data.length < 2 ^ 31 →
        ∃ r, b.write (fun i => data.getD i 0) data.length = some r) ∧
      ∀ r, b.write (fun i => data.getD i 0) data.length = some r →
        r.size = data.length ∧ r.buffer = filled b data := by
  refine ⟨posted hfree, fun data hpos hlen => ⟨fun hsum => ?_, fun r => write_eq hpos hlen⟩⟩
  unfold write
  rw [Nat.min_eq_right hlen, if_neg (by omega), addInt32_eq (by omega)]
  exact ⟨_, rfl⟩

/-- Two bytes at the end of a buffer of four, the second of which goes around it. -/
theorem scatter_eq_write_four : ∃ b : NetReceiveBuffer,
    registerBufs b = [⟨3, 1⟩, ⟨0, 1⟩] ∧ (filled b [7, 8]).content = [none, some 7, some 8] := by
  have hok := scatter_eq_write ⟨4, 2, 3, Memory.fresh, by decide, by decide⟩ (by decide)
  obtain ⟨r, hr⟩ := (hok.2 [7, 8] (by decide) (by decide)).1 (by decide)
  obtain ⟨-, hbuffer⟩ := (hok.2 [7, 8] (by decide) (by decide)).2 r hr
  cases hr
  refine ⟨⟨4, 2, 3, Memory.fresh, by decide, by decide⟩, by decide, ?_⟩
  rw [← hbuffer]
  decide

end Receiver

end CppNetEngine
