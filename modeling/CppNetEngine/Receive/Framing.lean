import CppNetEngine.Receive.Buffer

/-!
# Packet framing

`PacketHeader` (`PacketSession.h`) and the loop of `PacketSession::OnReceive`, which cuts the
bytes it is given into packets and hands each to `OnRecvPacket`.
-/

namespace CppNetEngine

/-- `PacketHeader`, packed: two bytes of size and four of id, little-endian. -/
structure PacketHeader where
  size : Nat
  id : Nat
  deriving DecidableEq

namespace PacketHeader

/-- `sizeof(PacketHeader)`. -/
def sizeOf : Nat := 6

/-- The header at offset `k`. -/
def read (p : Memory) (k : Nat) : Option PacketHeader := do
  let b0 ← p k
  let b1 ← p (k + 1)
  let b2 ← p (k + 2)
  let b3 ← p (k + 3)
  let b4 ← p (k + 4)
  let b5 ← p (k + 5)
  return ⟨b0.toNat + 256 * b1.toNat,
    b2.toNat + 256 * b3.toNat + 65536 * b4.toNat + 16777216 * b5.toNat⟩

/-- The bytes of a header. -/
def bytes (h : PacketHeader) : List UInt8 :=
  [UInt8.ofNat h.size, UInt8.ofNat (h.size / 256), UInt8.ofNat h.id, UInt8.ofNat (h.id / 256),
    UInt8.ofNat (h.id / 65536), UInt8.ofNat (h.id / 16777216)]

@[simp] theorem bytes_length (h : PacketHeader) : h.bytes.length = sizeOf := rfl

theorem read_bytes {h : PacketHeader} (hs : h.size < 2 ^ 16) (hi : h.id < 2 ^ 32)
    (data : List UInt8) : read (fun i => (h.bytes ++ data)[i]?) 0 = some h := by
  obtain ⟨size, id⟩ := h
  simp only at hs hi
  simp only [bytes, read, List.cons_append, List.nil_append, List.getElem?_cons_zero,
    List.getElem?_cons_succ, Nat.zero_add, Option.bind_eq_bind, Option.bind_some,
    UInt8.toNat_ofNat', Option.pure_def, Option.some.injEq, PacketHeader.mk.injEq]
  omega

end PacketHeader

namespace PacketSession

/-- How `OnReceive` ends. -/
inductive ReceiveResult
  /-- It returns `processLen`. -/
  | processed (processLen : Nat)
  /-- It returns -1. -/
  | malformed
  /-- It reads a header from bytes nobody wrote. -/
  | indeterminate
  deriving DecidableEq

/-- The loop of `OnReceive` from `processLen` on: the packets it hands to `OnRecvPacket`, as the
bytes in memory there, and how it ends. -/
def onReceiveLoop (pBuffer : Memory) (len processLen : Nat) :
    List (List (Option UInt8)) × ReceiveResult :=
  let dataSize := len - processLen
  if dataSize < PacketHeader.sizeOf then ([], .processed processLen)
  else
    match PacketHeader.read pBuffer processLen with
    | none => ([], .indeterminate)
    | some header =>
      if header.size < PacketHeader.sizeOf ∨ NetReceiveBuffer.defaultBufferSize < header.size then
        ([], .malformed)
      else if dataSize < header.size then ([], .processed processLen)
      else
        let rest := onReceiveLoop pBuffer len (processLen + header.size)
        (pBuffer.slice processLen header.size :: rest.1, rest.2)
termination_by len - processLen
decreasing_by
  simp only [PacketHeader.sizeOf] at *
  omega

theorem onReceiveLoop_length (p : Memory) (len k : Nat) :
    (onReceiveLoop p len k).1.flatten.length ≤ len - k := by
  fun_induction onReceiveLoop p len k with
  | case1 => exact Nat.zero_le _
  | case2 => exact Nat.zero_le _
  | case3 => exact Nat.zero_le _
  | case4 => exact Nat.zero_le _
  | case5 k dataSize h1 header hr h2 h3 rest ih =>
    simp only [List.flatten_cons, List.length_append, Memory.slice_length, rest]
    omega

/-- `OnReceive`. -/
def onReceive (pBuffer : Memory) (len : Nat) : List (List (Option UInt8)) × ReceiveResult :=
  onReceiveLoop pBuffer len 0

theorem onReceive_short (p : Memory) {len : Nat} (h : len < PacketHeader.sizeOf) :
    onReceive p len = ([], .processed 0) := by
  rw [onReceive, onReceiveLoop]
  exact if_pos h

end PacketSession

end CppNetEngine
