import CppNetEngine.Receive.Proof.Resumable
import CppNetEngine.Receive.Proof.Reading

/-!
# Packets that fit the ring

One byte of the ring stays free, so of the sizes that the check of the header admits, the largest
does not fit. A ring without free bytes makes progress if and only if its first packet is not
announced with that size (`receives_iff`).
-/

namespace CppNetEngine.Receiver

open PacketSession NetReceiveBuffer

/-- The size that the first header announces. -/
def announced (xs : List UInt8) : Option Nat := (PacketHeader.read (bytes xs) 0).map (·.size)

/-- `OnReceive` on all unread bytes returns -1, or consumes a packet, so that `Register` finds free
bytes. -/
def Receives (b : NetReceiveBuffer) (xs : List UInt8) : Prop :=
  (parse xs).2 = .malformed ∨ ∃ processLen, (parse xs).2 = .processed processLen ∧
    (parse xs).1 ≠ [] ∧ 0 < (b.moveReadPos processLen).getFreeSize

variable {b : NetReceiveBuffer} {xs : List UInt8}

theorem freeSize_of_consumed {n : Nat} (hpos : 0 < n) (hle : n ≤ b.getUseSize) :
    0 < (b.moveReadPos n).getFreeSize := by
  have hsum := b.useSize_add_freeSize
  have hsum' := (b.moveReadPos n).useSize_add_freeSize
  have huse := useSize_moveReadPos hle
  have hmax : (b.moveReadPos n).mMaxBufferSize = b.mMaxBufferSize := rfl
  omega

theorem length_pos_of_accepted {packets : List (List UInt8)} (hne : packets ≠ [])
    (hw : ∀ packet ∈ packets, Accepted packet) : 0 < packets.flatten.length := by
  obtain ⟨packet, packets, rfl⟩ := List.exists_cons_of_ne_nil hne
  obtain ⟨_, _, hmin, _⟩ := hw packet List.mem_cons_self
  rw [List.flatten_cons, List.length_append]
  simp only [PacketHeader.sizeOf] at hmin
  omega

/-- A full ring whose first packet is announced with the largest size holds less than that. -/
theorem short_of_announced (hlen : xs.length = 65534)
    (h : announced xs = some NetReceiveBuffer.defaultBufferSize) : Short xs := by
  obtain ⟨header, hread, hsize⟩ := Option.map_eq_some_iff.1 h
  exact .inr ⟨header, hread, by rw [hsize]; decide, Nat.le_of_eq hsize, by rw [hsize, hlen]; decide⟩

theorem not_receives_of_short (h : Short xs) : ¬ Receives b xs := by
  have hparse := parse_short h
  rintro (hmalformed | ⟨processLen, -, hne, -⟩)
  · rw [hparse] at hmalformed
    cases hmalformed
  · rw [hparse] at hne
    exact hne rfl

/-- A full ring whose first packet is announced with less is long enough for it. -/
theorem not_short_of_announced (hlen : xs.length = 65534)
    (h : announced xs ≠ some NetReceiveBuffer.defaultBufferSize) : ¬ Short xs := by
  rintro (hshort | ⟨header, hread, -, hmax, hlong⟩)
  · rw [hlen] at hshort
    exact absurd hshort (by decide)
  · refine h ?_
    rw [announced, hread, Option.map_some, Option.some.injEq]
    rw [hlen] at hlong
    exact Nat.le_antisymm hmax hlong

/-- **When every admitted packet can be received**: a ring without free bytes makes progress if and
only if its first packet is not announced with the largest size there is. -/
theorem receives_iff (hmax : b.mMaxBufferSize = NetReceiveBuffer.defaultBufferSize)
    (hfull : b.getFreeSize = 0) (hcontent : b.content = xs.map some) :
    Receives b xs ↔ announced xs ≠ some NetReceiveBuffer.defaultBufferSize := by
  have huse : b.getUseSize = xs.length := by
    rw [← content_length, hcontent, List.length_map]
  have hlen : xs.length = 65534 := by
    have hsum := b.useSize_add_freeSize
    rw [huse, hfull, hmax] at hsum
    exact Nat.succ.inj hsum
  constructor
  · exact fun hreceives h => not_receives_of_short (short_of_announced hlen h) hreceives
  · intro h
    have hlong := not_short_of_announced hlen h
    obtain ⟨packets, rest, rfl, hw, hshort | hmalformed⟩ := exists_packets xs
    · -- what is left behind the packets is short, so there are packets
      have hne : packets ≠ [] := by
        rintro rfl
        exact hlong hshort
      have hparse := parse_packets hw rest
      rw [parse_short hshort, List.append_nil] at hparse
      refine .inr ⟨packets.flatten.length, by rw [hparse]; rfl, ?_, ?_⟩
      · rw [hparse]
        exact fun hnil => hne (inMemory_inj hnil)
      · refine freeSize_of_consumed (length_pos_of_accepted hne hw) ?_
        rw [huse, List.length_append]
        exact Nat.le_add_right _ _
    · have hparse := parse_packets hw rest
      have hbad := parse_malformed hmalformed []
      rw [List.append_nil] at hbad
      rw [hbad] at hparse
      exact .inl (by rw [hparse]; rfl)

/-! ## Full rings -/

/-- A header, and all that fits a fresh ring behind it. -/
def fullOf (header : List UInt8) : List UInt8 := header ++ List.replicate (65534 - header.length) 0

theorem fullOf_length {header : List UInt8} (h : header.length ≤ 65534) :
    (fullOf header).length = 65534 := by
  rw [fullOf, List.length_append, List.length_replicate]
  omega

theorem filled_full (h : xs.length = 65534) :
    (filled (.new defaultBufferSize (by decide)) xs).getFreeSize = 0 ∧
      (filled (.new defaultBufferSize (by decide)) xs).content = xs.map some := by
  have hfree : (NetReceiveBuffer.new defaultBufferSize (by decide)).getFreeSize = 65534 := rfl
  refine ⟨?_, content_filled (by omega)⟩
  have hlen : xs.length ≤ (NetReceiveBuffer.new defaultBufferSize (by decide)).getFreeSize := by
    omega
  have huse := useSize_filled hlen
  have hsum :=
    (filled (.new defaultBufferSize (by decide)) xs).useSize_add_freeSize
  have hempty : (NetReceiveBuffer.new defaultBufferSize (by decide)).getUseSize = 0 := rfl
  have hmax : (filled (.new defaultBufferSize (by decide)) xs).mMaxBufferSize = 65535 := rfl
  omega

/-- A packet of six bytes, and a header that no packet has. -/
theorem receives_iff_ping : ∃ b : NetReceiveBuffer, b.getFreeSize = 0 ∧
    Receives b (fullOf [6, 0, 1, 0, 0, 0]) := by
  have hlen : (fullOf [6, 0, 1, 0, 0, 0]).length = 65534 := fullOf_length (by decide)
  obtain ⟨hfull, hcontent⟩ := filled_full hlen
  exact ⟨_, hfull, (receives_iff rfl hfull hcontent).2 (by decide)⟩

theorem receive_short_full (hlen : xs.length = 65534) (hshort : Short xs) :
    ∃ s, start.receive xs = some s ∧ s.onDisconnecting = [.kicked] := by
  have hidle := start_idle.1
  have hreceive := onReceive_of_short hshort (linear_slice hidle (by omega) (by omega))
  have hbuffer := moveWritePos_arrive hidle.posted xs
  have hfull : (filled start.mNetReceiveBuffer xs).getFreeSize = 0 := (filled_full hlen).1
  refine ⟨_, process_processed (s := start.arrive xs) hidle.owner hidle.connected (by omega)
    hreceive (Nat.zero_le _), ?_⟩
  rw [hbuffer, NetReceiveBuffer.moveReadPos_zero, register_full]
  · rfl
  · exact hidle.owner
  · exact hidle.connected
  · exact hfull

/-- The first 65534 bytes of a packet of 65535, whose header is admitted, fill the ring, and the
session is kicked. -/
theorem not_receives : ∃ b : NetReceiveBuffer,
    b.mMaxBufferSize = defaultBufferSize ∧ b.getFreeSize = 0 ∧
      b.content = (fullOf [255, 255, 1, 0, 0, 0]).map some ∧
      ¬ Receives b (fullOf [255, 255, 1, 0, 0, 0]) ∧
      ∃ s, start.receive (fullOf [255, 255, 1, 0, 0, 0]) = some s ∧
        s.onDisconnecting = [.kicked] := by
  have hlen : (fullOf [255, 255, 1, 0, 0, 0]).length = 65534 := fullOf_length (by decide)
  have hshort := short_of_announced hlen rfl
  obtain ⟨hfull, hcontent⟩ := filled_full hlen
  exact ⟨_, rfl, hfull, hcontent, not_receives_of_short hshort, receive_short_full hlen hshort⟩

end CppNetEngine.Receiver
