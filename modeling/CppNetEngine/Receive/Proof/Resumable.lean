import CppNetEngine.Receive.Proof.Framing

/-!
# The framing loop on contiguous bytes

Bytes are packets that `OnReceive` accepts, and what is left: bytes that are too short for the next
packet, or begin with a header that no packet has (`exists_packets`). The loop delivers the packets
and goes on with what is left (`parse_packets`), so it can be resumed where it ended, with the bytes
that have come in between (`resumable`).
-/

namespace CppNetEngine.PacketSession

/-- Bytes that are contiguous in memory. -/
def bytes (xs : List UInt8) : Memory := fun i => xs[i]?

/-- `OnReceive` on contiguous bytes. -/
def parse (xs : List UInt8) : List (List (Option UInt8)) × ReceiveResult :=
  onReceive (bytes xs) xs.length

/-- The result of a call that begins `n` bytes later. -/
def ReceiveResult.add (n : Nat) : ReceiveResult → ReceiveResult
  | .processed processLen => .processed (n + processLen)
  | .malformed => .malformed
  | .indeterminate => .indeterminate

/-! ## Headers -/

theorem bytes_slice (xs ys : List UInt8) : (bytes (xs ++ ys)).slice 0 xs.length = xs.map some := by
  refine Memory.slice_eq fun i hi => ?_
  rw [Nat.zero_add]
  exact List.getElem?_append_left hi

/-- The memory from the end of the first bytes on. -/
theorem bytes_behind (xs ys : List UInt8) :
    (fun i => bytes (xs ++ ys) (xs.length + i)) = bytes ys := by
  funext i
  show (xs ++ ys)[xs.length + i]? = ys[i]?
  rw [List.getElem?_append_right (Nat.le_add_right _ _), Nat.add_sub_cancel_left]

theorem read_append {xs : List UInt8} (h : PacketHeader.sizeOf ≤ xs.length) (ys : List UInt8) :
    PacketHeader.read (bytes (xs ++ ys)) 0 = PacketHeader.read (bytes xs) 0 :=
  read_of_slice h (bytes_slice xs ys)

theorem exists_header {xs : List UInt8} (h : PacketHeader.sizeOf ≤ xs.length) :
    ∃ header, PacketHeader.read (bytes xs) 0 = some header := by
  match xs, h with
  | _ :: _ :: _ :: _ :: _ :: _ :: _, _ => exact ⟨_, rfl⟩

theorem read_shift (p : Memory) (k j : Nat) :
    PacketHeader.read p (k + j) = PacketHeader.read (fun i => p (k + i)) j := by
  simp only [PacketHeader.read, Nat.add_assoc]

/-- The loop from an offset on is the loop on the memory from there on. -/
theorem onReceiveLoop_shift (p : Memory) (k n j : Nat) :
    onReceiveLoop p (k + n) (k + j) =
      ((onReceiveLoop (fun i => p (k + i)) n j).1,
        (onReceiveLoop (fun i => p (k + i)) n j).2.add k) := by
  fun_induction onReceiveLoop (fun i => p (k + i)) n j with
  | case1 j dataSize h1 =>
    rw [onReceiveLoop, Nat.add_sub_add_left]
    exact if_pos h1
  | case2 j dataSize h1 hr =>
    rw [onReceiveLoop, Nat.add_sub_add_left, read_shift, hr]
    exact if_neg h1
  | case3 j dataSize h1 header hr h2 =>
    rw [onReceiveLoop, Nat.add_sub_add_left, read_shift, hr]
    dsimp only
    rw [if_neg h1, if_pos h2]
    rfl
  | case4 j dataSize h1 header hr h2 h3 =>
    rw [onReceiveLoop, Nat.add_sub_add_left, read_shift, hr]
    dsimp only
    rw [if_neg h1, if_neg h2, if_pos h3]
    rfl
  | case5 j dataSize h1 header hr h2 h3 rest ih =>
    rw [onReceiveLoop, Nat.add_sub_add_left, read_shift, hr]
    dsimp only
    rw [if_neg h1, if_neg h2, if_neg h3, Nat.add_assoc, ih]
    simp only [Memory.slice, Nat.add_assoc]
    rfl

/-! ## Packets and what is left -/

/-- Bytes shorter than a header, or than the packet that their header announces. -/
def Short (rest : List UInt8) : Prop :=
  rest.length < PacketHeader.sizeOf ∨ ∃ header, PacketHeader.read (bytes rest) 0 = some header ∧
    PacketHeader.sizeOf ≤ header.size ∧ header.size ≤ NetReceiveBuffer.defaultBufferSize ∧
    rest.length < header.size

/-- Bytes that begin with a header that no packet has. -/
def Malformed (rest : List UInt8) : Prop :=
  PacketHeader.sizeOf ≤ rest.length ∧ ∃ header, PacketHeader.read (bytes rest) 0 = some header ∧
    (header.size < PacketHeader.sizeOf ∨ NetReceiveBuffer.defaultBufferSize < header.size)

theorem onReceive_of_short {p : Memory} {rest : List UInt8} (h : Short rest)
    (hslice : p.slice 0 rest.length = rest.map some) :
    onReceive p rest.length = ([], .processed 0) := by
  by_cases hlen : rest.length < PacketHeader.sizeOf
  · exact onReceive_short p hlen
  obtain ⟨header, hread, hmin, hmax, hlong⟩ := h.resolve_left hlen
  unfold onReceive
  rw [onReceiveLoop, Nat.sub_zero, read_of_slice (Nat.le_of_not_lt hlen) hslice,
    show PacketHeader.read (fun i => rest[i]?) 0 = some header from hread]
  dsimp only
  rw [if_neg hlen, if_neg (by omega), if_pos hlong]

theorem parse_short {rest : List UInt8} (h : Short rest) : parse rest = ([], .processed 0) := by
  have hslice := bytes_slice rest []
  rw [List.append_nil] at hslice
  exact onReceive_of_short h hslice

theorem parse_malformed {rest : List UInt8} (h : Malformed rest) (ys : List UInt8) :
    parse (rest ++ ys) = ([], .malformed) := by
  obtain ⟨hlen, header, hread, hbad⟩ := h
  unfold parse onReceive
  rw [onReceiveLoop, Nat.sub_zero, List.length_append, read_append hlen, hread]
  dsimp only
  rw [if_neg (by omega), if_pos hbad]

/-- **Packets are delivered**, and the loop goes on behind them. -/
theorem parse_packets {packets : List (List UInt8)} (hw : ∀ packet ∈ packets, Accepted packet)
    (rest : List UInt8) :
    parse (packets.flatten ++ rest) =
      (inMemory packets ++ (parse rest).1, (parse rest).2.add packets.flatten.length) := by
  induction packets with
  | nil =>
    cases hrest : parse rest with
    | mk delivered result => cases result <;> simp [hrest, ReceiveResult.add]
  | cons packet packets ih =>
    obtain ⟨hpacket, hpackets⟩ := List.forall_mem_cons.1 hw
    have hlen : 0 + packet.length ≤ packet.length + (packets.flatten ++ rest).length := by omega
    have hfirst := onReceiveLoop_packet hpacket hlen
      (bytes_slice packet (packets.flatten ++ rest))
    have hbehind := onReceiveLoop_shift (bytes (packet ++ (packets.flatten ++ rest)))
      packet.length (packets.flatten ++ rest).length 0
    rw [bytes_behind] at hbehind
    have hrest := ih hpackets
    unfold parse onReceive at hrest ⊢
    rw [List.flatten_cons, List.append_assoc, List.length_append, hfirst, Nat.zero_add]
    rw [Nat.add_zero] at hbehind
    rw [hbehind, hrest, List.length_append]
    refine Prod.ext rfl ?_
    dsimp only
    cases (onReceiveLoop (bytes rest) rest.length 0).2 <;>
      simp [ReceiveResult.add, Nat.add_assoc]

theorem accepted_take {xs : List UInt8} {header : PacketHeader}
    (hread : PacketHeader.read (bytes xs) 0 = some header)
    (hmin : PacketHeader.sizeOf ≤ header.size)
    (hmax : header.size ≤ NetReceiveBuffer.defaultBufferSize) (hle : header.size ≤ xs.length) :
    Accepted (xs.take header.size) := by
  have htake : (xs.take header.size).length = header.size := List.length_take_of_le hle
  refine ⟨header.id, ?_, by rw [htake]; exact hmin, by rw [htake]; exact hmax⟩
  have hsize : PacketHeader.sizeOf ≤ (xs.take header.size).length := by
    rw [htake]
    exact hmin
  have happend := read_append hsize (xs.drop header.size)
  rw [List.take_append_drop, hread] at happend
  rw [htake]
  exact happend.symm

/-- **Bytes are packets, and what is left.** -/
theorem exists_packets (xs : List UInt8) : ∃ (packets : List (List UInt8)) (rest : List UInt8),
    xs = packets.flatten ++ rest ∧ (∀ packet ∈ packets, Accepted packet) ∧
      (Short rest ∨ Malformed rest) := by
  induction hn : xs.length using Nat.strongRecOn generalizing xs with
  | ind n ih =>
    by_cases hlen : xs.length < PacketHeader.sizeOf
    · exact ⟨[], xs, rfl, nofun, .inl (.inl hlen)⟩
    obtain ⟨header, hread⟩ := exists_header (Nat.le_of_not_lt hlen)
    by_cases hbad : header.size < PacketHeader.sizeOf ∨
        NetReceiveBuffer.defaultBufferSize < header.size
    · exact ⟨[], xs, rfl, nofun, .inr ⟨by omega, header, hread, hbad⟩⟩
    by_cases hshort : xs.length < header.size
    · exact ⟨[], xs, rfl, nofun, .inl (.inr ⟨header, hread, by omega, by omega, hshort⟩)⟩
    -- a packet, and fewer bytes behind it
    have hless : (xs.drop header.size).length < n := by
      rw [List.length_drop, ← hn]
      simp only [PacketHeader.sizeOf] at hlen hbad
      omega
    obtain ⟨packets, rest, hxs, hw, hrest⟩ := ih _ hless _ rfl
    refine ⟨xs.take header.size :: packets, rest, ?_, List.forall_mem_cons.2 ⟨?_, hw⟩, hrest⟩
    · rw [List.flatten_cons, List.append_assoc, ← hxs, List.take_append_drop]
    · exact accepted_take hread (by omega) (by omega) (by omega)

/-! ## Resuming -/

/-- What `OnReceive` has delivered, and what it returned, on `xs`. -/
structure Resumable (xs : List UInt8) (packets : List (List UInt8)) (processLen : Nat) : Prop where
  le : processLen ≤ xs.length
  flatten : packets.flatten = xs.take processLen
  /-- The size field of a packet is its length, and at least that of a header. -/
  accepted : ∀ packet ∈ packets, Accepted packet
  short : Short (xs.drop processLen)
  /-- With more bytes it delivers these packets, and goes on behind them. -/
  append : ∀ ys, parse (xs ++ ys) =
    (inMemory packets ++ (parse (xs.drop processLen ++ ys)).1,
      (parse (xs.drop processLen ++ ys)).2.add processLen)

/-- **`OnReceive` can be resumed** where it ended, unless it returned -1, which it then does with
more bytes, too. -/
theorem resumable (xs : List UInt8) : ∃ packets : List (List UInt8),
    (∃ processLen, parse xs = (inMemory packets, .processed processLen) ∧
      Resumable xs packets processLen) ∨
    (parse xs = (inMemory packets, .malformed) ∧
      ∀ ys, parse (xs ++ ys) = (inMemory packets, .malformed)) := by
  obtain ⟨packets, rest, rfl, hw, hshort | hmalformed⟩ := exists_packets xs
  · have hdrop : (packets.flatten ++ rest).drop packets.flatten.length = rest := List.drop_left
    refine ⟨packets, .inl ⟨packets.flatten.length, ?_, ?_, ?_, hw, ?_, fun ys => ?_⟩⟩
    · rw [parse_packets hw, parse_short hshort]
      simp [ReceiveResult.add]
    · rw [List.length_append]
      exact Nat.le_add_right _ _
    · exact List.take_left.symm
    · rw [hdrop]
      exact hshort
    · rw [hdrop, List.append_assoc, parse_packets hw]
  · have hall : ∀ ys, parse (packets.flatten ++ rest ++ ys) = (inMemory packets, .malformed) := by
      intro ys
      rw [List.append_assoc, parse_packets hw, parse_malformed hmalformed]
      simp [ReceiveResult.add]
    refine ⟨packets, .inr ⟨?_, hall⟩⟩
    have hnil := hall []
    rwa [List.append_nil] at hnil

end CppNetEngine.PacketSession
