import CppNetEngine.Receive.Receiver

/-!
# Facts about packet framing

When one `OnReceive` call is framing: where it delivers all the bytes it is given, it has cut them
without a gap (`onReceiveLoop_all`), and on a sequence of accepted packets it does
(`onReceiveLoop_packets`).
-/

namespace CppNetEngine.PacketSession

/-- A packet `OnReceive` accepts: its header's size field is its length, which is in bounds. -/
def Accepted (packet : List UInt8) : Prop :=
  ∃ id, PacketHeader.read (fun i => packet[i]?) 0 = some ⟨packet.length, id⟩ ∧
    PacketHeader.sizeOf ≤ packet.length ∧ packet.length ≤ NetReceiveBuffer.defaultBufferSize

/-- A packet that also fits the ring of a receiver, where one byte stays free. -/
def WellFormed (packet : List UInt8) : Prop :=
  Accepted packet ∧ packet.length < NetReceiveBuffer.defaultBufferSize

theorem WellFormed.accepted {packet : List UInt8} (h : WellFormed packet) : Accepted packet := h.1

/-- Bytes as memory holds them. -/
def inMemory (packets : List (List UInt8)) : List (List (Option UInt8)) :=
  packets.map fun packet => packet.map some

@[simp] theorem inMemory_nil : inMemory [] = [] := rfl

@[simp] theorem inMemory_append (a b : List (List UInt8)) :
    inMemory (a ++ b) = inMemory a ++ inMemory b := List.map_append

@[simp] theorem inMemory_flatten (a : List (List UInt8)) :
    (inMemory a).flatten = a.flatten.map some := by
  simp [inMemory, List.map_flatten]

theorem inMemory_inj {a b : List (List UInt8)} (h : inMemory a = inMemory b) : a = b :=
  List.map_injective_iff.2 (List.map_injective_iff.2 fun _ _ => Option.some.inj) h

/-! ## One call -/

/-- All bytes delivered: the loop ended after the last, and there is no gap between packets. -/
theorem onReceiveLoop_all (p : Memory) (len k : Nat) (hk : k ≤ len)
    (h : (onReceiveLoop p len k).1.flatten.length = len - k) :
    (onReceiveLoop p len k).2 = .processed len ∧
      (onReceiveLoop p len k).1.flatten = p.slice k (len - k) := by
  -- a call that ends without a packet has delivered nothing, so it was given nothing
  have stop : ∀ {k : Nat}, k ≤ len → ([] : List (List (Option UInt8))).flatten.length = len - k →
      k = len := fun hk h => by simp at h; omega
  fun_induction onReceiveLoop p len k with
  | case1 k dataSize h1 =>
    obtain rfl := stop hk h
    simp [Memory.slice]
  | case2 k dataSize h1 hr =>
    have := stop hk h
    simp only [PacketHeader.sizeOf] at h1
    omega
  | case3 k dataSize h1 header hr h2 =>
    have := stop hk h
    simp only [PacketHeader.sizeOf] at h1
    omega
  | case4 k dataSize h1 header hr h2 h3 =>
    have := stop hk h
    simp only [PacketHeader.sizeOf] at h1
    omega
  | case5 k dataSize h1 header hr h2 h3 rest ih =>
    simp only [List.flatten_cons, List.length_append, Memory.slice_length, rest] at h
    have hk' : k + header.size ≤ len := by omega
    obtain ⟨hres, hflat⟩ := ih hk' (by omega)
    refine ⟨hres, ?_⟩
    rw [List.flatten_cons, hflat, ← Memory.slice_add]
    congr 1
    omega

theorem read_of_slice {p : Memory} {k : Nat} {packet : List UInt8}
    (hp : PacketHeader.sizeOf ≤ packet.length)
    (h : p.slice k packet.length = packet.map some) :
    PacketHeader.read p k = PacketHeader.read (fun i => packet[i]?) 0 := by
  have hbyte : ∀ i, i < packet.length → p (k + i) = packet[i]? := by
    intro i hi
    have hget := congrArg (·[i]?) h
    simp only [Memory.slice, List.getElem?_map, List.getElem?_range hi, Option.map_some] at hget
    rw [List.getElem?_eq_getElem hi] at hget ⊢
    exact Option.some.inj hget
  simp only [PacketHeader.sizeOf] at hp
  have h0 := hbyte 0 (by omega)
  have h1 := hbyte 1 (by omega)
  have h2 := hbyte 2 (by omega)
  have h3 := hbyte 3 (by omega)
  have h4 := hbyte 4 (by omega)
  have h5 := hbyte 5 (by omega)
  simp only [Nat.add_zero] at h0
  simp only [PacketHeader.read, h0, h1, h2, h3, h4, h5, Nat.zero_add]

/-- A packet at `k` is delivered first. -/
theorem onReceiveLoop_packet {p : Memory} {len k : Nat} {packet : List UInt8}
    (hw : Accepted packet) (hlen : k + packet.length ≤ len)
    (h : p.slice k packet.length = packet.map some) :
    onReceiveLoop p len k =
      (packet.map some :: (onReceiveLoop p len (k + packet.length)).1,
        (onReceiveLoop p len (k + packet.length)).2) := by
  obtain ⟨id, hread, hmin, hmax⟩ := hw
  rw [← read_of_slice hmin h] at hread
  rw [onReceiveLoop, hread]
  simp only [h]
  rw [if_neg (by omega), if_neg (by omega), if_neg (by omega)]

/-- A sequence of packets that fills the buffer is delivered packet by packet. -/
theorem onReceiveLoop_packets {p : Memory} (packets : List (List UInt8)) :
    ∀ {k : Nat}, (∀ packet ∈ packets, Accepted packet) →
      p.slice k packets.flatten.length = packets.flatten.map some →
      onReceiveLoop p (k + packets.flatten.length) k =
        (inMemory packets, .processed (k + packets.flatten.length)) := by
  induction packets with
  | nil =>
    intro k _ _
    rw [onReceiveLoop]
    simp [PacketHeader.sizeOf]
  | cons packet packets ih =>
    intro k hw h
    rw [List.flatten_cons, List.length_append, Memory.slice_add, List.map_append] at h
    obtain ⟨h1, h2⟩ := List.append_inj h (by simp)
    rw [onReceiveLoop_packet (hw packet List.mem_cons_self) (by simp) h1, List.flatten_cons,
      List.length_append, ← Nat.add_assoc,
      ih (fun q hq => hw q (List.mem_cons_of_mem _ hq)) h2]
    rfl

end CppNetEngine.PacketSession
