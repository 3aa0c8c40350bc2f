import CppNetEngine.Receive.Buffer
import Mathlib.Tactic.Set

/-!
# The ring buffer is a bounded queue

Whatever is called on a buffer of `m` bytes, the answers are those of a queue of `m - 1` bytes, no
`int32` overflows, and no index from `m` on is touched (`behaves_as_queue`). A call keeps the
unread bytes what the queue holds (`Represents`), and answers what the queue does (`Matches`).
-/

namespace CppNetEngine.NetReceiveBuffer

/-- What can be called on a buffer. -/
inductive Call
  | write (pData : Nat → UInt8) (size : Nat)
  | read (size : Nat)
  | peek (size : Nat)
  | clear
  | getUseSize
  | getFreeSize

def call (b : NetReceiveBuffer) : Call → Option Transfer
  | .write pData size => b.write pData size
  | .read size => b.read size
  | .peek size => b.peek size
  | .clear => some ⟨b.clear, [], 0, []⟩
  | .getUseSize => some ⟨b, [], b.getUseSize, []⟩
  | .getFreeSize => some ⟨b, [], b.getFreeSize, []⟩

/-- One call after the other: what each of them leaves and returns. -/
def run (b : NetReceiveBuffer) : List Call → Option (List Transfer)
  | [] => some []
  | c :: cs => (b.call c).bind fun r => (r.buffer.run cs).map (r :: ·)

/-! ## The queue -/

/-- What a queue of bytes becomes, and answers. -/
structure Reply where
  queue : BoundedQueue UInt8
  bytes : List UInt8
  size : Nat

/-- What a call asks of a queue. -/
def Call.reply (q : BoundedQueue UInt8) : Call → Reply
  | .write pData size => ⟨q.push (Ring.line pData 0 size), [], min q.room size⟩
  | .read size => ⟨q.pop size, q.front size, min q.items.length size⟩
  | .peek size => ⟨q, q.front size, min q.items.length size⟩
  | .clear => ⟨q.clear, [], 0⟩
  | .getUseSize => ⟨q, [], q.items.length⟩
  | .getFreeSize => ⟨q, [], q.room⟩

def replies (q : BoundedQueue UInt8) : List Call → List Reply
  | [] => []
  | c :: cs => c.reply q :: replies (c.reply q).queue cs

/-- The unread bytes are those in the queue, and one byte of the buffer stays free. -/
structure Represents (b : NetReceiveBuffer) (q : BoundedQueue UInt8) : Prop where
  content : b.content = q.items.map some
  capacity : b.mMaxBufferSize = q.capacity + 1

/-- A call does and answers what the queue does. -/
structure Matches (r : Transfer) (a : Reply) : Prop where
  represents : Represents r.buffer a.queue
  pBuffer : r.pBuffer = a.bytes.map some
  size : r.size = a.size
  /-- No index behind the last of the ring is touched. -/
  touched : ∀ i ∈ r.touched, i < r.buffer.mMaxBufferSize

variable {b : NetReceiveBuffer} {q : BoundedQueue UInt8}

theorem Represents.useSize (h : Represents b q) : b.getUseSize = q.items.length := by
  rw [← content_length, h.content, List.length_map]

theorem Represents.freeSize (h : Represents b q) : b.getFreeSize = q.room := by
  have hsum := b.useSize_add_freeSize
  have huse := h.useSize
  have hcap := h.capacity
  unfold BoundedQueue.room
  omega

theorem addInt32_eq {x y : Nat} (h : x + y < 2 ^ 31) : addInt32 x y = some (x + y) := if_pos h

theorem Represents.nothing (h : Represents b q) {a : Reply} (hq : a.queue = q) (hb : a.bytes = [])
    (hs : a.size = 0) : Matches ⟨b, [], 0, []⟩ a :=
  ⟨by rw [hq]; exact h, by rw [hb]; rfl, hs.symm, nofun⟩

/-! ## Write -/

theorem Represents.put (h : Represents b q) {p : Memory} {data : List UInt8}
    (hput : Ring.Put b.mMaxBufferSize b.mWritePos (data.map some) b.mpBuffer p)
    (hroom : data.length ≤ q.room) :
    Represents ({ b with mpBuffer := p }.moveWritePos data.length) (q.push data) := by
  have hfree : (data.map some).length ≤ b.getFreeSize := by
    rw [List.length_map, h.freeSize]
    exact hroom
  refine ⟨?_, h.capacity⟩
  have hcontent := content_put hput hfree
  rw [List.length_map] at hcontent
  rw [hcontent, h.content, BoundedQueue.items_push, List.take_of_length_le hroom, List.map_append]

theorem write_matches (h : Represents b q) (hmax : b.mMaxBufferSize < 2 ^ 30)
    (pData : Nat → UInt8) (size : Nat) :
    ∃ r, b.write pData size = some r ∧ Matches r (Call.reply q (.write pData size)) := by
  have hwrite := b.writePos_lt
  have hsum := b.useSize_add_freeSize
  set n := min b.getFreeSize size with hn
  have hle : n ≤ b.getFreeSize := Nat.min_le_left _ _
  have hroom : (Ring.line pData 0 n).length ≤ q.room := by
    rw [Ring.line_length, ← h.freeSize]
    exact hle
  have hreply : Call.reply q (.write pData size) = ⟨q.push (Ring.line pData 0 n), [], n⟩ := by
    rw [Call.reply, ← BoundedQueue.push_take, Ring.line_take, hn, h.freeSize]
  rw [hreply]
  by_cases hzero : n = 0
  · refine ⟨⟨b, [], 0, []⟩, ?_, h.nothing ?_ rfl hzero⟩
    · unfold write
      rw [← hn, if_pos hzero, hzero]
    · simp [hzero, BoundedQueue.push, Ring.line]
  unfold write
  rw [← hn, if_neg hzero, addInt32_eq (by omega), Option.map_some]
  refine ⟨_, rfl, ?_⟩
  split
  · have hline : b.mWritePos + (Ring.line pData 0 n).length ≤ b.mMaxBufferSize := by
      rw [Ring.line_length]
      omega
    have hput := h.put (b.mpBuffer.store_put hline) hroom
    rw [Ring.line_length] at hput
    refine ⟨hput, rfl, rfl, fun i hi => ?_⟩
    obtain ⟨-, hi⟩ := List.mem_range'_1.1 hi
    show i < b.mMaxBufferSize
    omega
  · have hlinear := linearWriteSize_of_end hle (by omega)
    have hsplit : Ring.line pData 0 n = Ring.line pData 0 b.getLinearWriteSize ++
        Ring.line pData b.getLinearWriteSize (n - b.getLinearWriteSize) := by
      have hlen : n = b.getLinearWriteSize + (n - b.getLinearWriteSize) := by omega
      conv_lhs => rw [hlen, Ring.line_add, Nat.zero_add]
    have hline : b.mWritePos + (Ring.line pData 0 b.getLinearWriteSize).length =
        b.mMaxBufferSize := by
      rw [Ring.line_length]
      omega
    have hrest : (Ring.line pData b.getLinearWriteSize (n - b.getLinearWriteSize)).length ≤
        b.mWritePos := by
      rw [Ring.line_length]
      omega
    have hput := b.mpBuffer.store_store_put hline hrest
    rw [← hsplit] at hput
    have hqueue := h.put hput hroom
    rw [Ring.line_length] at hqueue
    refine ⟨hqueue, rfl, rfl, fun i hi => ?_⟩
    show i < b.mMaxBufferSize
    rcases List.mem_append.1 hi with hi | hi
    · obtain ⟨-, hi⟩ := List.mem_range'_1.1 hi
      omega
    · obtain ⟨-, hi⟩ := List.mem_range'_1.1 hi
      omega

/-! ## Read and Peek -/

theorem copyOut_eq {n : Nat} (hn : n ≤ b.getUseSize) :
    (b.copyOut n (n + b.mReadPos)).1 = b.content.take n ∧
      ∀ i ∈ (b.copyOut n (n + b.mReadPos)).2, i < b.mMaxBufferSize := by
  have hread := b.readPos_lt
  have hwrite := b.writePos_lt
  have hsum := b.useSize_add_freeSize
  unfold content copyOut
  rw [Ring.cells_take hn]
  split
  · rename_i hend
    have hlinear : b.getLinearReadSize = b.mMaxBufferSize - b.mReadPos := by
      unfold getUseSize at hn
      unfold getLinearReadSize
      split at hn
      · rw [if_pos (by assumption)]
      · omega
    refine ⟨?_, fun i hi => ?_⟩
    · rw [Ring.cells_of_gt hread (by omega) (by omega), hlinear]
      rfl
    · rcases List.mem_append.1 hi with hi | hi
      · obtain ⟨-, hi⟩ := List.mem_range'_1.1 hi
        omega
      · obtain ⟨-, hi⟩ := List.mem_range'_1.1 hi
        omega
  · refine ⟨?_, fun i hi => ?_⟩
    · rw [Ring.cells_of_le (by omega)]
      rfl
    · obtain ⟨-, hi⟩ := List.mem_range'_1.1 hi
      omega

theorem Represents.read (h : Represents b q) {n : Nat} (hn : n ≤ b.getUseSize) :
    Represents (b.moveReadPos n) (q.pop n) := by
  refine ⟨?_, h.capacity⟩
  rw [content_moveReadPos hn, h.content, BoundedQueue.pop, List.map_drop]

theorem min_useSize (h : Represents b q) (size : Nat) :
    q.pop (min b.getUseSize size) = q.pop size ∧
      q.front (min b.getUseSize size) = q.front size := by
  rw [h.useSize]
  rcases Nat.le_total q.items.length size with hle | hle
  · rw [Nat.min_eq_left hle]
    simp [BoundedQueue.pop, BoundedQueue.front, List.drop_of_length_le hle,
      List.take_of_length_le hle]
  · rw [Nat.min_eq_right hle]
    exact ⟨rfl, rfl⟩

/-- What `Read` and `Peek` copy out, and no `int32` overflows. -/
theorem transferOut_eq (hmax : b.mMaxBufferSize < 2 ^ 30) {after : Nat → NetReceiveBuffer}
    (hafter : after 0 = b) (size : Nat) :
    ∃ touched, (∀ i ∈ touched, i < b.mMaxBufferSize) ∧
      b.transferOut after size = some ⟨after (min b.getUseSize size),
        b.content.take (min b.getUseSize size), min b.getUseSize size, touched⟩ := by
  have hread := b.readPos_lt
  have hsum := b.useSize_add_freeSize
  have hle : min b.getUseSize size ≤ b.getUseSize := Nat.min_le_left _ _
  unfold transferOut
  by_cases hzero : min b.getUseSize size = 0
  · exact ⟨[], nofun, by simp [hzero, hafter]⟩
  · obtain ⟨hbytes, htouched⟩ := copyOut_eq hle
    refine ⟨_, htouched, ?_⟩
    rw [if_neg hzero, addInt32_eq (by omega), Option.map_some, ← hbytes]

theorem Represents.take (h : Represents b q) (size : Nat) :
    b.content.take (min b.getUseSize size) = (q.front size).map some := by
  rw [← (min_useSize h size).2, h.content, BoundedQueue.front, List.map_take]

theorem read_matches (h : Represents b q) (hmax : b.mMaxBufferSize < 2 ^ 30) (size : Nat) :
    ∃ r, b.read size = some r ∧ Matches r (Call.reply q (.read size)) := by
  obtain ⟨touched, htouched, heq⟩ := transferOut_eq hmax b.moveReadPos_zero size
  refine ⟨_, heq, ?_, h.take size, by rw [Call.reply, h.useSize], htouched⟩
  show Represents _ (q.pop size)
  rw [← (min_useSize h size).1]
  exact h.read (Nat.min_le_left _ _)

theorem peek_matches (h : Represents b q) (hmax : b.mMaxBufferSize < 2 ^ 30) (size : Nat) :
    ∃ r, b.peek size = some r ∧ Matches r (Call.reply q (.peek size)) := by
  obtain ⟨touched, htouched, heq⟩ := @transferOut_eq b hmax (fun _ => b) rfl size
  exact ⟨_, heq, h, h.take size, by rw [Call.reply, h.useSize], htouched⟩

/-! ## Runs -/

theorem new_represents (m : Nat) (hm : 0 < m) :
    Represents (new m hm) (BoundedQueue.empty (m - 1)) :=
  ⟨rfl, (Nat.succ_pred_eq_of_pos hm).symm⟩

theorem call_matches (h : Represents b q) (hmax : b.mMaxBufferSize < 2 ^ 30) (c : Call) :
    ∃ r, b.call c = some r ∧ Matches r (c.reply q) := by
  cases c with
  | write pData size => exact write_matches h hmax pData size
  | read size => exact read_matches h hmax size
  | peek size => exact peek_matches h hmax size
  | clear => exact ⟨_, rfl, ⟨rfl, h.capacity⟩, rfl, rfl, nofun⟩
  | getUseSize => exact ⟨_, rfl, h, rfl, h.useSize, nofun⟩
  | getFreeSize => exact ⟨_, rfl, h, rfl, h.freeSize, nofun⟩

theorem reply_capacity (q : BoundedQueue UInt8) (c : Call) :
    (c.reply q).queue.capacity = q.capacity := by
  cases c <;> rfl

theorem run_matches (calls : List Call) : ∀ {b : NetReceiveBuffer} {q : BoundedQueue UInt8},
    Represents b q → b.mMaxBufferSize < 2 ^ 30 →
    ∃ rs, b.run calls = some rs ∧ List.Forall₂ Matches rs (replies q calls) := by
  induction calls with
  | nil => exact fun _ _ => ⟨[], rfl, .nil⟩
  | cons c calls ih =>
    intro b q h hmax
    obtain ⟨r, hr, hmatch⟩ := call_matches h hmax c
    have hsame : r.buffer.mMaxBufferSize = b.mMaxBufferSize := by
      rw [hmatch.represents.capacity, h.capacity, reply_capacity]
    obtain ⟨rs, hrs, hall⟩ := ih hmatch.represents (by rw [hsame]; exact hmax)
    refine ⟨r :: rs, ?_, .cons hmatch hall⟩
    rw [run, hr, Option.bind_some, hrs, Option.map_some]

/-- **A buffer of `m` bytes is a queue of `m - 1` bytes.** -/
theorem behaves_as_queue {m : Nat} (hm : 1 ≤ m) (hmax : m < 2 ^ 30) (calls : List Call) :
    ∃ rs, (new m hm).run calls = some rs ∧
      List.Forall₂ Matches rs (replies (BoundedQueue.empty (m - 1)) calls) :=
  run_matches calls (new_represents m hm) hmax

/-- Bytes that go around the end of a buffer of four. -/
theorem behaves_as_queue_four : ∃ rs : List Transfer,
    rs.map Transfer.pBuffer = [[], [some 7, some 8], [], [some 9, some 7, some 8]] ∧
      List.Forall₂ Matches rs (replies (BoundedQueue.empty 3)
        [.write (fun i => (7 + i).toUInt8) 9, .read 2, .write (fun i => (7 + i).toUInt8) 9,
          .read 5]) := by
  obtain ⟨rs, hrs, hall⟩ := behaves_as_queue (m := 4) (by decide) (by decide)
    [.write (fun i => (7 + i).toUInt8) 9, .read 2, .write (fun i => (7 + i).toUInt8) 9, .read 5]
  cases hrs
  exact ⟨_, by decide, hall⟩

end CppNetEngine.NetReceiveBuffer
