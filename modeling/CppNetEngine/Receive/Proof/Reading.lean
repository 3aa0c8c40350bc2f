import CppNetEngine.Lib.Machine
import CppNetEngine.Receive.Proof.Scatter
import CppNetEngine.Receive.Proof.Segmentation

/-!
# What the parser reads

`OnReceive` indexes linearly from the read position on, and `Process` calls it with the byte count
of the completion. It reads the first unread bytes, and nothing behind the end of the ring, if and
only if that many bytes from the read position on end in front of the end of the ring
(`readsReceived_iff`). The states are those of the ring alone, whatever is consumed (`ringMachine`);
those of a receiver are among them (`run_reachable`).
-/

namespace CppNetEngine.Receiver

open PacketSession NetReceiveBuffer

/-- The offsets that the loop of `OnReceive` reads, or passes to `OnRecvPacket`. -/
def onReceiveReads (pBuffer : Memory) (len processLen : Nat) : List Nat :=
  let dataSize := len - processLen
  if dataSize < PacketHeader.sizeOf then []
  else
    let reads := List.range' processLen PacketHeader.sizeOf
    match PacketHeader.read pBuffer processLen with
    | none => reads
    | some header =>
      if header.size < PacketHeader.sizeOf ∨ NetReceiveBuffer.defaultBufferSize < header.size then
        reads
      else if dataSize < header.size then reads
      else
        reads ++ List.range' processLen header.size ++
          onReceiveReads pBuffer len (processLen + header.size)
termination_by len - processLen
decreasing_by
  simp only [PacketHeader.sizeOf] at *
  omega

/-- `OnReceive(GetReadPtr(), len)` reads nothing behind the end of the ring, and what it is given
are the first `len` unread bytes. -/
def ReadsReceived (b : NetReceiveBuffer) (len : Nat) : Prop :=
  (∀ i ∈ onReceiveReads b.getReadPtr len 0, b.mReadPos + i < b.mMaxBufferSize) ∧
    b.getReadPtr.slice 0 len = b.content.take len

/-- The ring of a receiver: a completion comes, and some of the unread bytes are consumed. -/
def ringMachine : Machine NetReceiveBuffer (List UInt8 × Nat) where
  init b := b = .new defaultBufferSize (by decide)
  step b a :=
    if 1 ≤ a.1.length ∧ a.1.length ≤ b.getFreeSize ∧ a.2 ≤ (filled b a.1).getUseSize then
      some ((filled b a.1).moveReadPos a.2)
    else none

variable {b : NetReceiveBuffer} {data : List UInt8}

/-! ## The invariant -/

/-- The unread bytes have been written, and no byte behind the end of the ring has. -/
structure Written (b : NetReceiveBuffer) : Prop where
  unread : ∃ xs : List UInt8, b.content = xs.map some
  outside : ∀ i, b.mMaxBufferSize ≤ i → b.mpBuffer i = none

theorem Written.filled (h : Written b) (hlen : data.length ≤ b.getFreeSize) :
    Written (filled b data) := by
  obtain ⟨xs, hxs⟩ := h.unread
  refine ⟨⟨xs ++ data, ?_⟩, fun i hi => ?_⟩
  · rw [content_filled hlen, hxs, List.map_append]
  · rw [filled_outside hlen hi]
    exact h.outside i hi

theorem Written.consume (h : Written b) {n : Nat} (hn : n ≤ b.getUseSize) :
    Written (b.moveReadPos n) := by
  obtain ⟨xs, hxs⟩ := h.unread
  refine ⟨⟨xs.drop n, ?_⟩, h.outside⟩
  rw [content_moveReadPos hn, hxs, List.map_drop]

theorem written_of_reachable (h : ringMachine.Reachable b) : Written b := by
  refine Machine.ReachableIf.invariant (I := Written) ?_ (fun b a b' _ hI _ hs => ?_) h
  · rintro b rfl
    exact ⟨⟨[], rfl⟩, fun _ _ => rfl⟩
  · simp only [ringMachine] at hs
    split at hs <;> cases hs
    rename_i hok
    exact (hI.filled hok.2.1).consume hok.2.2

/-! ## Reading -/

theorem onReceiveReads_lt (p : Memory) (len k : Nat) : ∀ i ∈ onReceiveReads p len k, i < len := by
  have hheader : ∀ {k : Nat}, ¬ len - k < PacketHeader.sizeOf →
      ∀ i ∈ List.range' k PacketHeader.sizeOf, i < len := by
    intro k h1 i hi
    obtain ⟨-, hi⟩ := List.mem_range'_1.1 hi
    simp only [PacketHeader.sizeOf] at h1 hi
    omega
  fun_induction onReceiveReads p len k with
  | case1 => exact fun i hi => absurd hi List.not_mem_nil
  | case2 k dataSize h1 reads hr => exact hheader h1
  | case3 k dataSize h1 reads header hr h2 => exact hheader h1
  | case4 k dataSize h1 reads header hr h2 h3 => exact hheader h1
  | case5 k dataSize h1 reads header hr h2 h3 ih =>
    intro i hi
    rcases List.mem_append.1 hi with hi | hi
    · rcases List.mem_append.1 hi with hi | hi
      · exact hheader h1 i hi
      · obtain ⟨-, hi⟩ := List.mem_range'_1.1 hi
        simp only [PacketHeader.sizeOf] at h1
        omega
    · exact ih i hi

/-- In front of the end of the ring the parser reads what it should. -/
theorem readsReceived_of_le (hlen : data.length ≤ b.getFreeSize)
    (hend : b.mReadPos + data.length ≤ b.mMaxBufferSize) :
    ReadsReceived (filled b data) data.length := by
  have huse := useSize_filled hlen
  refine ⟨fun i hi => ?_, ?_⟩
  · have hlt := onReceiveReads_lt _ _ _ i hi
    show b.mReadPos + i < b.mMaxBufferSize
    omega
  · have hcells : (filled b data).content.take data.length =
        Ring.cells b.mMaxBufferSize (filled b data).mpBuffer b.mReadPos data.length :=
      Ring.cells_take (by omega)
    rw [hcells, Ring.cells_of_le hend]
    unfold Memory.slice getReadPtr
    simp only [Nat.zero_add]
    rfl

/-- Beyond it the parser is given a byte that has not been written, but all unread bytes have. -/
theorem le_of_readsReceived (h : ringMachine.Reachable b) (hlen : data.length ≤ b.getFreeSize)
    (hreads : ReadsReceived (filled b data) data.length) :
    b.mReadPos + data.length ≤ b.mMaxBufferSize := by
  by_contra hend
  have hread := b.readPos_lt
  obtain ⟨⟨xs, hxs⟩, houtside⟩ := (written_of_reachable h).filled hlen
  have hmem := Memory.mem_slice (p := (filled b data).getReadPtr) (k := 0) (n := data.length)
    (i := b.mMaxBufferSize - b.mReadPos) (by omega)
  rw [hreads.2, hxs, Nat.zero_add] at hmem
  have hnone : (filled b data).getReadPtr (b.mMaxBufferSize - b.mReadPos) = none := by
    refine houtside _ ?_
    show b.mMaxBufferSize ≤ b.mReadPos + (b.mMaxBufferSize - b.mReadPos)
    omega
  rw [hnone] at hmem
  obtain ⟨x, -, hx⟩ := List.mem_map.1 (List.mem_of_mem_take hmem)
  cases hx

/-- **What the parser reads** are the first unread bytes, and nothing behind the end of the ring,
exactly if the bytes of the completion, counted from the read position on, end in front of it. -/
theorem readsReceived_iff (h : ringMachine.Reachable b) (hlen : data.length ≤ b.getFreeSize) :
    ReadsReceived (filled b data) data.length ↔
      b.mReadPos + data.length ≤ b.mMaxBufferSize :=
  ⟨le_of_readsReceived h hlen, readsReceived_of_le hlen⟩

/-- Behind a packet that has been consumed, and the first two bytes of another that has not. -/
theorem readsReceived_iff_later : ∃ b : NetReceiveBuffer, b.mReadPos = 6 ∧ b.mWritePos = 8 ∧
    ReadsReceived (filled b [2, 0, 0, 0, 9]) 5 := by
  have hb : ringMachine.Reachable
      ((filled (.new defaultBufferSize (by decide)) [6, 0, 1, 0, 0, 0, 7, 0]).moveReadPos 6) := by
    refine .step (a := ([6, 0, 1, 0, 0, 0, 7, 0], 6)) (.init rfl) trivial ?_
    simp only [ringMachine]
    rw [if_pos (by decide)]
  refine ⟨_, ?_, ?_, (readsReceived_iff hb ?_).2 ?_⟩ <;> decide

/-! ## Receivers -/

/-- A `Process` that leaves the receiver its owner has consumed some of the unread bytes, and has
posted the next `WSARecv`. -/
theorem process_posts {s s' : Receiver} {wsaReceive : WsaResult} {numOfBytes : Nat}
    (h : s.process wsaReceive numOfBytes = some s') (ho : s'.mpOwner = true) :
    s.mpOwner = true ∧ ∃ processLen,
      processLen ≤ (s.mNetReceiveBuffer.moveWritePos numOfBytes).getUseSize ∧
      s'.mNetReceiveBuffer =
        (s.mNetReceiveBuffer.moveWritePos numOfBytes).moveReadPos processLen ∧
      s'.wsabufs = some (registerBufs s'.mNetReceiveBuffer) := by
  unfold process at h
  split at h
  · cases h
    cases ho
  rename_i howner
  split at h
  · cases h
    cases ho
  dsimp only at h
  split at h
  · cases h
  · cases h
    cases ho
  · rename_i processLen hresult
    split at h
    · cases h
      cases ho
    · rename_i hle
      cases h
      have hreg : ∀ s : Receiver, (s.register wsaReceive).mpOwner = true →
          (s.register wsaReceive).mNetReceiveBuffer = s.mNetReceiveBuffer ∧
            (s.register wsaReceive).wsabufs = some (registerBufs s.mNetReceiveBuffer) := by
        intro s ho
        unfold register at ho ⊢
        split at ho
        · cases ho
        split at ho
        · cases ho
        cases wsaReceive with
        | error errorCode => cases ho
        | ok | pending =>
          rw [if_neg (by assumption), if_neg (by assumption)]
          exact ⟨rfl, rfl⟩
      obtain ⟨hbuffer, hposted⟩ := hreg _ ho
      refine ⟨?_, processLen, Nat.le_of_not_lt hle, hbuffer, by rw [hbuffer]; exact hposted⟩
      simpa using (not_or.1 howner).1

/-- While a receiver has its owner, its ring is one of `ringMachine`, and a `WSARecv` is posted for
all its free bytes. -/
theorem run_reachable (chunks : List (List UInt8)) : ∀ {s s' : Receiver},
    (s.mpOwner = true → ringMachine.Reachable s.mNetReceiveBuffer ∧
      s.wsabufs = some (registerBufs s.mNetReceiveBuffer)) →
    Admissible s chunks → s.run chunks = some s' → s'.mpOwner = true →
    ringMachine.Reachable s'.mNetReceiveBuffer ∧
      s'.wsabufs = some (registerBufs s'.mNetReceiveBuffer) := by
  induction chunks with
  | nil =>
    intro s s' hI _ h
    cases h
    exact hI
  | cons chunk chunks ih =>
    intro s s' hI ha h
    obtain ⟨s1, h1, h2⟩ := Option.bind_eq_some_iff.1 h
    obtain ⟨hpos, hfree, hrest⟩ := ha
    refine ih (fun ho => ?_) (hrest s1 h1) h2
    obtain ⟨howner, processLen, hle, hbuffer, hposted⟩ := process_posts h1 ho
    obtain ⟨hreach, hbufs⟩ := hI howner
    rw [moveWritePos_arrive hbufs] at hle hbuffer
    refine ⟨?_, hposted⟩
    rw [hbuffer]
    refine .step (a := (chunk, processLen)) hreach trivial ?_
    exact if_pos ⟨hpos, hfree, hle⟩

/-! ## A packet around the end -/

/-- A packet of 65530 bytes. -/
def longPacket : List UInt8 := [250, 255, 0, 0, 0, 0] ++ List.replicate 65524 0

theorem longPacket_length : longPacket.length = 65530 := by
  rw [longPacket, List.length_append, List.length_replicate]
  rfl

theorem longPacket_wellFormed : WellFormed longPacket := by
  refine ⟨⟨0, ?_, ?_, ?_⟩, ?_⟩ <;> rw [longPacket_length]
  · rfl
  · decide
  · decide
  · decide

/-- The receiver after the long packet: five bytes are left up to the end of the ring. -/
theorem run_longPacket : ∃ s, start.run [longPacket] = some s ∧ Idle s 65530 := by
  have hlen := longPacket_length
  have hslice : (linear start longPacket).slice 0 longPacket.length = longPacket.map some :=
    linear_slice start_idle.1 (by omega) (by omega)
  have hparse := onReceiveLoop_packets [longPacket] (p := linear start longPacket) (k := 0)
    (fun packet hp => by
      rw [List.mem_singleton.1 hp]
      exact longPacket_wellFormed.accepted)
    (by simpa using hslice)
  rw [Nat.zero_add, List.flatten_singleton] at hparse
  obtain ⟨s, hs, hidle, -⟩ := idle_receive start_idle.1 (by omega) (by omega)
    (congrArg Prod.snd hparse)
  rw [Nat.zero_add, hlen] at hidle
  refine ⟨s, ?_, hidle⟩
  rw [run, hs]
  rfl

/-- A receiver gets a long packet, and then one that goes around the end of its ring. -/
theorem not_readsReceived : WellFormed longPacket ∧ WellFormed [6, 0, 1, 0, 0, 0] ∧
    ∃ s, start.run [longPacket] = some s ∧ ringMachine.Reachable s.mNetReceiveBuffer ∧
      6 ≤ s.mNetReceiveBuffer.getFreeSize ∧
      ¬ ReadsReceived (filled s.mNetReceiveBuffer [6, 0, 1, 0, 0, 0]) 6 := by
  obtain ⟨s, hrun, hidle⟩ := run_longPacket
  have hfree := hidle.freeSize
  have hadmissible : Admissible start [longPacket] := by
    have hlen := longPacket_length
    refine ⟨by omega, ?_, fun _ _ => trivial⟩
    rw [start_idle.1.freeSize]
    omega
  have hstart : ringMachine.Reachable start.mNetReceiveBuffer := .init rfl
  have hreach := (run_reachable [longPacket] (fun _ => ⟨hstart, start_idle.1.posted⟩)
    hadmissible hrun hidle.owner).1
  refine ⟨longPacket_wellFormed, ⟨⟨1, by decide⟩, by decide⟩, s, hrun, hreach, by omega, ?_⟩
  intro hreads
  have hlen : ([6, 0, 1, 0, 0, 0] : List UInt8).length ≤ s.mNetReceiveBuffer.getFreeSize := by
    rw [hfree]
    decide
  have hend := le_of_readsReceived hreach hlen hreads
  rw [hidle.readPos, hidle.max] at hend
  exact absurd hend (by decide)

end CppNetEngine.Receiver
