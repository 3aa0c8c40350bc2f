import CppNetEngine.Receive.Proof.Framing
import CppNetEngine.Send.Buffer
import Mathlib.Tactic.Set

/-!
# Packets on the way out

The generated `MakeSendBuffer` template. It truncates the serialised length to 16 bits, adds the
header, again in 16 bits, and writes header and message into a buffer of that size.
`roundTrips_iff` says for which lengths this is safe and comes back as it was from `OnReceive`.
-/

namespace CppNetEngine

/-- A message as protobuf offers it: `ByteSizeLong` and `SerializeToArray`, which refuses a size
below the serialised length and otherwise writes exactly the serialised bytes. -/
structure Message where
  payload : List UInt8
  /-- The memory, the offset of the pointer in it and the size; the memory after it and whether it
  succeeds. -/
  serializeToArray : Memory → Nat → Nat → Memory × Bool
  serialize_short : ∀ p offset size, size < payload.length →
    (serializeToArray p offset size).2 = false
  serialize_fits : ∀ p offset size, payload.length ≤ size →
    serializeToArray p offset size = (p.store offset payload, true)

namespace Message

def byteSizeLong (packet : Message) : Nat := packet.payload.length

theorem serialize_self (packet : Message) (p : Memory) (offset : Nat) :
    packet.serializeToArray p offset packet.byteSizeLong = (p.store offset packet.payload, true) :=
  packet.serialize_fits p offset _ (Nat.le_refl _)

/-- A message that writes nothing when it does not fit. -/
def ofBytes (payload : List UInt8) : Message where
  payload := payload
  serializeToArray p offset size :=
    if size < payload.length then (p, false) else (p.store offset payload, true)
  serialize_short p offset size h := by rw [if_pos h]
  serialize_fits p offset size h := by rw [if_neg (Nat.not_lt.2 h)]

end Message

namespace PacketHandler

/-- What comes of `MakeSendBuffer`. -/
inductive MakeResult
  /-- It calls `CrashReporter::Crash`. -/
  | crash
  /-- It reads through a null pointer. -/
  | nullRead
  | sendBuffer (b : NetSendBuffer)

def makeSendBuffer (packet : Message) (packetId : UInt32) : MakeResult :=
  let dataSize := packet.byteSizeLong % 2 ^ 16
  let packetSize := (dataSize + PacketHeader.sizeOf) % 2 ^ 16
  match SendBufferAllocator.alloc packetSize with
  | none => .nullRead
  | some sendBuffer =>
    match sendBuffer.reserve packetSize with
    | .null => .crash
    | .nullRead => .nullRead
    | .ptr p offset =>
      let header : PacketHeader := ⟨packetSize, packetId.toNat⟩
      let p := p.store offset header.bytes
      let (p, ok) := packet.serializeToArray p (offset + PacketHeader.sizeOf) dataSize
      if ok then .sendBuffer ({ sendBuffer with mpBuffer := some p }.commit packetSize)
      else .crash

/-! ## What is in the buffer -/

/-- The memory `MakeSendBuffer` leaves behind. -/
def written (packet : Message) (header : PacketHeader) : Memory :=
  (Memory.fresh.store 0 header.bytes).store PacketHeader.sizeOf packet.payload

/-- With a packet size of 0 the buffer is empty, and `Reserve` reads its memory. -/
theorem makeSendBuffer_zero (packet : Message) (packetId : UInt32)
    (h : packet.byteSizeLong % 2 ^ 16 = 65530) : makeSendBuffer packet packetId = .nullRead := by
  simp only [makeSendBuffer, h]
  rfl

/-- With any other packet size the header is written, and what follows is up to protobuf. -/
theorem makeSendBuffer_pos (packet : Message) (packetId : UInt32)
    (h : packet.byteSizeLong % 2 ^ 16 ≠ 65530) :
    let dataSize := packet.byteSizeLong % 2 ^ 16
    let packetSize := (dataSize + PacketHeader.sizeOf) % 2 ^ 16
    let header : PacketHeader := ⟨packetSize, packetId.toNat⟩
    let serialized := packet.serializeToArray (Memory.fresh.store 0 header.bytes)
      PacketHeader.sizeOf dataSize
    let sendBuffer := NetSendBuffer.new (SendBufferAllocator.getAllocSize packetSize)
    makeSendBuffer packet packetId =
      if serialized.2 then
        .sendBuffer ({ sendBuffer with mpBuffer := some serialized.1 }.commit packetSize)
      else .crash := by
  intro dataSize packetSize header serialized sendBuffer
  have hpos : 0 < packetSize := by
    simp only [packetSize, dataSize, PacketHeader.sizeOf]
    omega
  have hsize : ¬ packetSize > SendBufferAllocator.maxSize := by
    simp only [packetSize, SendBufferAllocator.maxSize]
    omega
  have hle := SendBufferAllocator.le_getAllocSize packetSize
  have halloc : SendBufferAllocator.alloc packetSize = some sendBuffer := if_neg hsize
  have hreserve : sendBuffer.reserve packetSize = .ptr Memory.fresh 0 := by
    unfold NetSendBuffer.reserve NetSendBuffer.getFreeSize
    simp only [sendBuffer, NetSendBuffer.new]
    rw [if_neg (by omega), if_neg (by omega)]
  show (match SendBufferAllocator.alloc packetSize with
    | none => MakeResult.nullRead
    | some sendBuffer => _) = _
  rw [halloc]
  dsimp only
  rw [hreserve]
  simp only [Nat.zero_add]
  rfl

/-- A length of 2^16 or more does not survive the truncation, so protobuf refuses. -/
theorem makeSendBuffer_long (packet : Message) (packetId : UInt32)
    (h0 : packet.byteSizeLong % 2 ^ 16 ≠ 65530) (h : 2 ^ 16 ≤ packet.byteSizeLong) :
    makeSendBuffer packet packetId = .crash := by
  rw [makeSendBuffer_pos packet packetId h0]
  refine if_neg ?_
  rw [packet.serialize_short]
  · decide
  · unfold Message.byteSizeLong at h ⊢
    omega

/-- A length below 2^16 is written whole, into a buffer made for the truncated packet size. -/
theorem makeSendBuffer_short (packet : Message) (packetId : UInt32)
    (h0 : packet.byteSizeLong ≠ 65530) (h : packet.byteSizeLong < 2 ^ 16) :
    let packetSize := (packet.byteSizeLong + PacketHeader.sizeOf) % 2 ^ 16
    ∃ b, makeSendBuffer packet packetId = .sendBuffer b ∧
      b.mMaxBufferSize = SendBufferAllocator.getAllocSize packetSize ∧
      b.getUseSize = packetSize ∧
      b.mpBuffer = some (written packet ⟨packetSize, packetId.toNat⟩) := by
  intro packetSize
  have hmod : packet.byteSizeLong % 2 ^ 16 = packet.byteSizeLong := Nat.mod_eq_of_lt h
  rw [makeSendBuffer_pos packet packetId (by rwa [hmod]), hmod, packet.serialize_self]
  have hle := SendBufferAllocator.le_getAllocSize packetSize
  refine ⟨_, rfl, NetSendBuffer.commit_mMaxBufferSize _ _, ?_, NetSendBuffer.commit_mpBuffer _ _⟩
  rw [NetSendBuffer.commit_getUseSize hle]
  exact Nat.zero_add _

/-! ## The round trip -/

/-- What the other side gets: one packet, of the whole buffer, with this id and payload. -/
def Received (packet : Message) (packetId : UInt32) (pBuffer : Memory) (len : Nat) : Prop :=
  ∃ data : List (Option UInt8),
    PacketSession.onReceive pBuffer len = ([data], .processed len) ∧
    (∃ size, PacketHeader.read (fun i => data[i]?.join) 0 = some ⟨size, packetId.toNat⟩) ∧
    data.drop PacketHeader.sizeOf = packet.payload.map some

/-- Either `MakeSendBuffer` crashes on purpose, or it stays inside the buffer it returns and what it
returns comes back from `OnReceive`. -/
def RoundTrips (packet : Message) (packetId : UInt32) : MakeResult → Prop
  | .crash => True
  | .nullRead => False
  | .sendBuffer b => ∃ p, b.mpBuffer = some p ∧ (∀ i, b.mMaxBufferSize ≤ i → p i = none) ∧
      Received packet packetId p b.getUseSize

theorem written_slice (packet : Message) (header : PacketHeader) :
    (written packet header).slice 0 (header.bytes ++ packet.payload).length =
      (header.bytes ++ packet.payload).map some := by
  have hheader : (written packet header).slice 0 header.bytes.length = header.bytes.map some := by
    rw [written, Memory.slice_store_outside, Memory.slice_store]
    exact .inl (Nat.le_of_eq (Nat.zero_add _))
  have hpayload : (written packet header).slice header.bytes.length packet.payload.length =
      packet.payload.map some := Memory.slice_store _ PacketHeader.sizeOf _
  rw [List.length_append, Memory.slice_add, List.map_append, Nat.zero_add, hheader, hpayload]

theorem written_outside {packet : Message} (header : PacketHeader) {i : Nat}
    (h : PacketHeader.sizeOf + packet.byteSizeLong ≤ i) : written packet header i = none := by
  rw [written, Memory.store_outside (.inr h), Memory.store_outside]
  · rfl
  · right
    rw [PacketHeader.bytes_length]
    omega

theorem received_written (packet : Message) (packetId : UInt32)
    (h : packet.byteSizeLong + PacketHeader.sizeOf < 2 ^ 16) :
    Received packet packetId
      (written packet ⟨packet.byteSizeLong + PacketHeader.sizeOf, packetId.toNat⟩)
      (packet.byteSizeLong + PacketHeader.sizeOf) := by
  set header : PacketHeader := ⟨packet.byteSizeLong + PacketHeader.sizeOf, packetId.toNat⟩
  have hlen : (header.bytes ++ packet.payload).length =
      packet.byteSizeLong + PacketHeader.sizeOf := by
    rw [List.length_append, PacketHeader.bytes_length, Nat.add_comm]
    rfl
  have hread := PacketHeader.read_bytes (h := header) h packetId.toNat_lt packet.payload
  have haccepted : PacketSession.Accepted (header.bytes ++ packet.payload) := by
    refine ⟨packetId.toNat, ?_, ?_, ?_⟩
    · rw [hread, hlen]
    · rw [hlen]
      exact Nat.le_add_left _ _
    · rw [hlen]
      exact Nat.le_of_lt_succ h
  have hloop := PacketSession.onReceiveLoop_packets [header.bytes ++ packet.payload] (k := 0)
    (by simpa using haccepted) (by simpa using written_slice packet header)
  simp only [List.flatten_cons, List.flatten_nil, List.append_nil, Nat.zero_add, hlen] at hloop
  refine ⟨(header.bytes ++ packet.payload).map some, hloop, ⟨header.size, ?_⟩, ?_⟩
  · rw [← hread]
    congr 1
    funext i
    rw [List.getElem?_map]
    cases (header.bytes ++ packet.payload)[i]? <;> rfl
  · rw [← List.map_drop, ← PacketHeader.bytes_length header, List.drop_left]

theorem not_roundTrips_cut (packet : Message) (packetId : UInt32)
    (h : 65531 ≤ packet.byteSizeLong ∧ packet.byteSizeLong ≤ 65535) :
    ¬ RoundTrips packet packetId (makeSendBuffer packet packetId) := by
  obtain ⟨b, hb, hmax, -, hbuf⟩ := makeSendBuffer_short packet packetId (by omega) (by omega)
  rw [hb]
  rintro ⟨p, hp, hin, -⟩
  cases hbuf.symm.trans hp
  have hle : b.mMaxBufferSize ≤ SendBufferAllocator.threshold := by
    rw [hmax]
    apply SendBufferAllocator.getAllocSize_le
    unfold PacketHeader.sizeOf SendBufferAllocator.threshold
    omega
  unfold SendBufferAllocator.threshold at hle
  -- the last byte of the payload
  have hlast := hin (PacketHeader.sizeOf + (packet.byteSizeLong - 1)) (by omega)
  have hi : packet.byteSizeLong - 1 < packet.payload.length := by
    unfold Message.byteSizeLong at h ⊢
    omega
  rw [written, Memory.store_inside hi, List.getElem?_eq_getElem hi] at hlast
  cases hlast

/-- **For which lengths `MakeSendBuffer` is right.** -/
theorem roundTrips_iff (packet : Message) (packetId : UInt32) :
    RoundTrips packet packetId (makeSendBuffer packet packetId) ↔
      packet.byteSizeLong % 2 ^ 16 ≠ 65530 ∧
        ¬ (65531 ≤ packet.byteSizeLong ∧ packet.byteSizeLong ≤ 65535) := by
  constructor
  · intro h
    refine ⟨fun h0 => ?_, fun hcut => not_roundTrips_cut packet packetId hcut h⟩
    rw [makeSendBuffer_zero packet packetId h0] at h
    exact h
  · rintro ⟨h0, hcut⟩
    by_cases hlong : 2 ^ 16 ≤ packet.byteSizeLong
    · rw [makeSendBuffer_long packet packetId h0 hlong]
      trivial
    · have hfit : packet.byteSizeLong + PacketHeader.sizeOf < 2 ^ 16 := by
        unfold PacketHeader.sizeOf
        omega
      obtain ⟨b, hb, hmax, huse, hbuf⟩ := makeSendBuffer_short packet packetId
        (by omega) (by omega)
      rw [Nat.mod_eq_of_lt hfit] at hmax huse hbuf
      rw [hb]
      refine ⟨_, hbuf, fun i hi => ?_, ?_⟩
      · have := SendBufferAllocator.le_getAllocSize (packet.byteSizeLong + PacketHeader.sizeOf)
        exact written_outside _ (by omega)
      · rw [huse]
        exact received_written packet packetId hfit

/-- A message of 65531 bytes is written into a buffer of 256. -/
theorem not_roundTrips_65531 :
    ¬ RoundTrips (.ofBytes (List.replicate 65531 0)) 1
      (makeSendBuffer (.ofBytes (List.replicate 65531 0)) 1) := by
  apply not_roundTrips_cut
  have hlen : (Message.ofBytes (List.replicate 65531 0)).byteSizeLong = 65531 :=
    List.length_replicate
  omega

end PacketHandler

end CppNetEngine
