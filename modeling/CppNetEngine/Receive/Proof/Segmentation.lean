import CppNetEngine.Receive.Proof.Framing
import Mathlib.Tactic.Set

/-!
# Framing over a run of completions

A stream of well-formed packets, cut into completions, is handed over packet by packet exactly
when every completion holds whole packets and none wraps around the end of the ring
(`framed_iff_aligned`). `Process` passes `OnReceive` the byte count of the completion, not of the
ring, as one linear buffer: bytes left from an earlier completion and bytes behind the wrap are
out of its reach. The proof counts bytes: no completion delivers more than it brought
(`run_onRecvPacket`), so a run that delivers the whole stream delivers with each completion what it
brought, and finds the ring empty at the next (`Idle`, `idle_receive`).
-/

namespace CppNetEngine.Receiver

open PacketSession

/-! ## What a run delivers -/

theorem run_onRecvPacket (chunks : List (List UInt8)) :
    ∀ {s s' : Receiver}, s.run chunks = some s' →
    ∃ d, s'.onRecvPacket = s.onRecvPacket ++ d ∧ d.flatten.length ≤ chunks.flatten.length := by
  induction chunks with
  | nil =>
    intro s s' h
    cases h
    exact ⟨[], by simp, by simp⟩
  | cons chunk chunks ih =>
    intro s s' h
    obtain ⟨s1, h1, h2⟩ := Option.bind_eq_some_iff.1 h
    obtain ⟨d1, he1, hl1⟩ := process_onRecvPacket h1
    change s1.onRecvPacket = s.onRecvPacket ++ d1 at he1
    obtain ⟨d2, he2, hl2⟩ := ih h2
    refine ⟨d1 ++ d2, by rw [he2, he1, List.append_assoc], ?_⟩
    simp only [List.flatten_append, List.flatten_cons, List.length_append]
    omega

/-! ## An empty ring -/

/-- The ring is empty, `t` bytes have gone through it, and a `WSARecv` is in flight. -/
structure Idle (s : Receiver) (t : Nat) : Prop where
  owner : s.mpOwner = true
  connected : s.isDisconnected = false
  max : s.mNetReceiveBuffer.mMaxBufferSize = 65535
  readPos : s.mNetReceiveBuffer.mReadPos = t % 65535
  writePos : s.mNetReceiveBuffer.mWritePos = t % 65535
  outside : ∀ i, 65535 ≤ i → s.mNetReceiveBuffer.mpBuffer i = none
  posted : s.wsabufs = some (registerBufs s.mNetReceiveBuffer)

theorem register_idle {s : Receiver} {t : Nat} (ho : s.mpOwner = true)
    (hc : s.isDisconnected = false) (hm : s.mNetReceiveBuffer.mMaxBufferSize = 65535)
    (hr : s.mNetReceiveBuffer.mReadPos = t % 65535)
    (hw : s.mNetReceiveBuffer.mWritePos = t % 65535)
    (hout : ∀ i, 65535 ≤ i → s.mNetReceiveBuffer.mpBuffer i = none) :
    Idle (s.register .pending) t ∧ (s.register .pending).onRecvPacket = s.onRecvPacket := by
  have hfree : ¬ s.mNetReceiveBuffer.getFreeSize = 0 := by
    unfold NetReceiveBuffer.getFreeSize
    rw [hr, hw, hm, if_neg (by omega)]
    omega
  unfold register
  rw [if_neg (by simp [ho, hc]), if_neg hfree]
  exact ⟨⟨ho, hc, hm, hr, hw, hout, rfl⟩, rfl⟩

theorem start_idle : Idle start 0 ∧ start.onRecvPacket = [] :=
  register_idle (s := new) rfl rfl rfl rfl rfl fun _ _ => rfl

/-- What a completion leaves in memory: its bytes up to the end of the ring, the rest at the start
of the ring, and nothing behind the end. -/
theorem arrive_memory {s : Receiver} {t : Nat} (h : Idle s t) {data : List UInt8}
    (hlen : data.length ≤ 65534) :
    (∀ i, i < data.length → t % 65535 + i < 65535 →
      (s.arrive data).mNetReceiveBuffer.mpBuffer (t % 65535 + i) = data[i]?) ∧
    ∀ i, 65535 ≤ i → (s.arrive data).mNetReceiveBuffer.mpBuffer i = none := by
  set b := s.mNetReceiveBuffer with hb
  have hlin : b.getLinearWriteSize = 65535 - t % 65535 - (if t % 65535 = 0 then 1 else 0) := by
    unfold NetReceiveBuffer.getLinearWriteSize
    rw [hb, h.readPos, h.writePos, h.max, if_neg (by omega)]
  have hfree : b.getFreeSize = 65534 := by
    unfold NetReceiveBuffer.getFreeSize
    rw [hb, h.readPos, h.writePos, h.max, if_neg (by omega)]
    omega
  have hmem : (s.arrive data).mNetReceiveBuffer.mpBuffer =
      scatter b.mpBuffer (registerBufs b) data := by
    unfold arrive
    rw [h.posted]
    rfl
  have hlt : t % 65535 < 65535 := Nat.mod_lt _ (by omega)
  have hinside : ∀ {i}, i < data.length → t % 65535 + i < 65535 →
      i < (data.take b.getLinearWriteSize).length := by
    intro i hi hend
    rw [List.length_take, hlin]
    split <;> omega
  rw [hmem]
  unfold registerBufs
  rw [hfree, show b.mWritePos = t % 65535 from h.writePos]
  constructor
  · intro i hi hend
    have hin := hinside hi hend
    have hfirst : b.mpBuffer.store (t % 65535) (data.take b.getLinearWriteSize) (t % 65535 + i) =
        data[i]? := by
      rw [Memory.store_inside hin, List.getElem?_take_of_lt (by rw [List.length_take] at hin; omega)]
    dsimp only
    split
    · -- the second `WSABUF` ends before the first begins
      simp only [scatter]
      rw [Memory.store_outside, hfirst]
      rw [List.length_take, List.length_drop, hlin]
      split <;> omega
    · exact hfirst
  · intro i hi
    have hfirst : b.mpBuffer.store (t % 65535) (data.take b.getLinearWriteSize) i = none := by
      rw [Memory.store_outside, h.outside i hi]
      rw [List.length_take, hlin]
      split <;> omega
    dsimp only
    split
    · simp only [scatter]
      rw [Memory.store_outside, hfirst]
      rw [List.length_take, List.length_drop, hlin]
      split <;> omega
    · exact hfirst

/-- The bytes `OnReceive` is given for a completion on an empty ring. -/
def linear (s : Receiver) (data : List UInt8) : Memory :=
  ((s.arrive data).mNetReceiveBuffer.moveWritePos data.length).getReadPtr

theorem linear_inside {s : Receiver} {t : Nat} (h : Idle s t) {data : List UInt8}
    (hlen : data.length ≤ 65534) {i : Nat} (hi : i < data.length) (hend : t % 65535 + i < 65535) :
    linear s data i = data[i]? := by
  show (s.arrive data).mNetReceiveBuffer.mpBuffer (s.mNetReceiveBuffer.mReadPos + i) = _
  rw [h.readPos]
  exact (arrive_memory h hlen).1 i hi hend

theorem linear_outside {s : Receiver} {t : Nat} (h : Idle s t) {data : List UInt8}
    (hlen : data.length ≤ 65534) {i : Nat} (hend : 65535 ≤ t % 65535 + i) :
    linear s data i = none := by
  show (s.arrive data).mNetReceiveBuffer.mpBuffer (s.mNetReceiveBuffer.mReadPos + i) = _
  rw [h.readPos]
  exact (arrive_memory h hlen).2 _ hend

/-- A completion of which `OnReceive` processes every byte leaves the ring empty. -/
theorem idle_receive {s : Receiver} {t : Nat} (h : Idle s t) {data : List UInt8}
    (hpos : 1 ≤ data.length) (hlen : data.length ≤ 65534)
    (hall : (onReceive (linear s data) data.length).2 = .processed data.length) :
    ∃ s', s.receive data = some s' ∧ Idle s' (t + data.length) ∧
      s'.onRecvPacket = s.onRecvPacket ++ (onReceive (linear s data) data.length).1 := by
  set b := (s.arrive data).mNetReceiveBuffer.moveWritePos data.length with hb
  have hmax : b.mMaxBufferSize = 65535 := h.max
  have hread : b.mReadPos = t % 65535 := h.readPos
  have hwrite : b.mWritePos = (t + data.length) % 65535 := by
    show (s.mNetReceiveBuffer.mWritePos + data.length) % s.mNetReceiveBuffer.mMaxBufferSize = _
    rw [h.writePos, h.max, Nat.mod_add_mod]
  have huse : ¬ b.getUseSize < data.length := by
    unfold NetReceiveBuffer.getUseSize
    rw [hmax, hread, hwrite]
    split <;> omega
  obtain ⟨hi, hp⟩ := register_idle (t := t + data.length)
    (s := { s.arrive data with
      mNetReceiveBuffer := b.moveReadPos data.length
      onRecvPacket := s.onRecvPacket ++ (onReceive (linear s data) data.length).1 })
    h.owner h.connected hmax
    (by show (b.mReadPos + data.length) % b.mMaxBufferSize = _
        rw [hmax, hread, Nat.mod_add_mod])
    hwrite (arrive_memory h hlen).2
  exact ⟨_, process_processed (s := s.arrive data) h.owner h.connected (by omega)
    (Prod.ext rfl hall) (Nat.le_of_not_lt huse), hi, hp⟩

/-- On an empty ring a completion that stays in front of the end of the ring is given to
`OnReceive` as it is. -/
theorem linear_slice {s : Receiver} {t : Nat} (h : Idle s t) {data : List UInt8}
    (hlen : data.length ≤ 65534) (hend : t % 65535 + data.length ≤ 65535) :
    (linear s data).slice 0 data.length = data.map some := by
  apply Memory.slice_eq
  intro i hi
  rw [Nat.zero_add]
  exact linear_inside h hlen hi (by omega)

/-- A completion that goes beyond it is not. -/
theorem none_mem_slice {s : Receiver} {t : Nat} (h : Idle s t) {data : List UInt8}
    (hlen : data.length ≤ 65534) (hend : ¬ t % 65535 + data.length ≤ 65535) :
    none ∈ (linear s data).slice 0 data.length := by
  have hlt : t % 65535 < 65535 := Nat.mod_lt _ (by omega)
  have hmem := Memory.mem_slice (p := linear s data) (k := 0) (i := 65535 - t % 65535)
    (n := data.length) (by omega)
  rwa [Nat.zero_add, linear_outside h hlen (by omega)] at hmem

/-! ## Runs from an empty ring -/

/-- Every completion has at least one byte, and at most those free in the ring when it comes. -/
def Admissible : Receiver → List (List UInt8) → Prop
  | _, [] => True
  | s, chunk :: chunks =>
    1 ≤ chunk.length ∧ chunk.length ≤ s.mNetReceiveBuffer.getFreeSize ∧
      ∀ s', s.receive chunk = some s' → Admissible s' chunks

/-- No completion wraps around the end of a ring that is empty whenever one comes. -/
def Unwrapped : Nat → List (List UInt8) → Prop
  | _, [] => True
  | t, chunk :: chunks => t % 65535 + chunk.length ≤ 65535 ∧ Unwrapped (t + chunk.length) chunks

theorem Idle.freeSize {s : Receiver} {t : Nat} (h : Idle s t) :
    s.mNetReceiveBuffer.getFreeSize = 65534 := by
  unfold NetReceiveBuffer.getFreeSize
  rw [h.readPos, h.writePos, h.max, if_neg (by omega)]
  omega

/-- The whole packets of a completion are handed over with it, and leave the ring empty. -/
theorem receive_group {s : Receiver} {t : Nat} (h : Idle s t) (group : List (List UInt8))
    (hw : ∀ packet ∈ group, WellFormed packet) (hpos : 1 ≤ group.flatten.length)
    (hlen : group.flatten.length ≤ 65534)
    (hend : t % 65535 + group.flatten.length ≤ 65535) :
    ∃ s', s.receive group.flatten = some s' ∧ Idle s' (t + group.flatten.length) ∧
      s'.onRecvPacket = s.onRecvPacket ++ inMemory group := by
  have hparse := onReceiveLoop_packets group (p := linear s group.flatten) (k := 0)
    (fun packet hp => (hw packet hp).accepted) (linear_slice h hlen hend)
  rw [Nat.zero_add] at hparse
  obtain ⟨s', hs', hidle, hd⟩ := idle_receive h hpos hlen (congrArg Prod.snd hparse)
  refine ⟨s', hs', hidle, ?_⟩
  rw [hd]
  exact congrArg (s.onRecvPacket ++ ·) (congrArg Prod.fst hparse)

/-- Whole packets in every completion: each is handed over with its completion. -/
theorem run_groups (groups : List (List (List UInt8))) : ∀ {s : Receiver} {t : Nat}, Idle s t →
    (∀ packet ∈ groups.flatten, WellFormed packet) → Admissible s (groups.map List.flatten) →
    Unwrapped t (groups.map List.flatten) →
    ∃ s', s.run (groups.map List.flatten) = some s' ∧
      s'.onRecvPacket = s.onRecvPacket ++ inMemory groups.flatten := by
  induction groups with
  | nil => exact fun _ _ _ _ => ⟨_, rfl, by simp⟩
  | cons group groups ih =>
    intro s t h hw ha hu
    obtain ⟨hpos, hfree, hrest⟩ := ha
    obtain ⟨hend, hu⟩ := hu
    rw [h.freeSize] at hfree
    obtain ⟨s1, h1, hidle, hd1⟩ := receive_group h _
      (fun packet hp => hw packet (List.mem_append_left _ hp)) hpos hfree hend
    obtain ⟨s2, h2, hd2⟩ := ih hidle (fun packet hp => hw packet (List.mem_append_right _ hp))
      (hrest s1 h1) hu
    refine ⟨s2, ?_, ?_⟩
    · rw [List.map_cons, run, h1]
      exact h2
    · rw [hd2, hd1, List.flatten_cons, inMemory_append, List.append_assoc]

/-- The whole stream handed over: every completion held whole packets and none wrapped. -/
theorem groups_of_run (chunks : List (List UInt8)) : ∀ {s s' : Receiver} {t : Nat}
    {packets : List (List UInt8)}, Idle s t → Admissible s chunks → s.run chunks = some s' →
    s'.onRecvPacket = s.onRecvPacket ++ inMemory packets →
    packets.flatten.length = chunks.flatten.length →
    Unwrapped t chunks ∧ ∃ groups : List (List (List UInt8)),
      groups.flatten = packets ∧ groups.map List.flatten = chunks := by
  induction chunks with
  | nil =>
    intro s s' t packets _ _ hrun hd _
    cases hrun
    have hnil : packets = [] := inMemory_inj (by simpa using hd)
    exact ⟨trivial, [], hnil.symm, rfl⟩
  | cons chunk chunks ih =>
    intro s s' t packets h ha hrun hd hlen
    obtain ⟨hpos, hfree, hrest⟩ := ha
    rw [h.freeSize] at hfree
    obtain ⟨s1, h1, h2⟩ := Option.bind_eq_some_iff.1 hrun
    obtain ⟨d2, hd2, hl2⟩ := run_onRecvPacket chunks h2
    have hd1 : s1.onRecvPacket =
        s.onRecvPacket ++ (onReceive (linear s chunk) chunk.length).1 :=
      process_delivers (s := s.arrive chunk) h.owner h.connected (by omega) h1
    have hl1 := onReceiveLoop_length (linear s chunk) chunk.length 0
    -- both parts of the run deliver as many bytes as they bring
    have hsplit : inMemory packets = (onReceive (linear s chunk) chunk.length).1 ++ d2 := by
      rw [hd2, hd1, List.append_assoc] at hd
      exact (List.append_cancel_left hd).symm
    obtain ⟨p1, p2, rfl, he1, he2⟩ := List.map_eq_append_iff.1 hsplit
    change inMemory p1 = _ at he1
    change inMemory p2 = _ at he2
    have hn1 : (onReceive (linear s chunk) chunk.length).1.flatten.length = p1.flatten.length := by
      rw [← he1, inMemory_flatten, List.length_map]
    have hn2 : d2.flatten.length = p2.flatten.length := by
      rw [← he2, inMemory_flatten, List.length_map]
    have hn1' : (onReceiveLoop (linear s chunk) chunk.length 0).1.flatten.length =
        p1.flatten.length := hn1
    simp only [List.flatten_append, List.flatten_cons, List.length_append] at hlen
    obtain ⟨hres, hflat⟩ := onReceiveLoop_all (linear s chunk) chunk.length 0 (Nat.zero_le _)
      (by omega)
    change (onReceive (linear s chunk) chunk.length).1.flatten = _ at hflat
    rw [← he1, inMemory_flatten, Nat.sub_zero] at hflat
    have hend : t % 65535 + chunk.length ≤ 65535 := by
      by_contra hend
      have hnone := none_mem_slice h hfree hend
      rw [← hflat] at hnone
      simp at hnone
    rw [linear_slice h hfree hend] at hflat
    have hp1 : p1.flatten = chunk := List.map_injective_iff.2 (fun _ _ => Option.some.inj) hflat
    obtain ⟨s1', h1', hidle, -⟩ := idle_receive h hpos hfree hres
    cases h1.symm.trans h1'
    obtain ⟨hu, groups, hg, hgc⟩ := ih hidle (hrest s1 h1) h2 (by rw [hd2, he2]) (by omega)
    exact ⟨⟨hend, hu⟩, p1 :: groups, by rw [List.flatten_cons, hg], by rw [List.map_cons, hp1, hgc]⟩

theorem Admissible.take (k : Nat) : ∀ {s : Receiver} {chunks : List (List UInt8)},
    Admissible s chunks → Admissible s (chunks.take k) := by
  induction k with
  | zero => exact fun _ => trivial
  | succ k ih =>
    intro s chunks h
    cases chunks with
    | nil => trivial
    | cons chunk chunks => exact ⟨h.1, h.2.1, fun s' hs => ih (h.2.2 s' hs)⟩

theorem Unwrapped.take (k : Nat) : ∀ {t : Nat} {chunks : List (List UInt8)},
    Unwrapped t chunks → Unwrapped t (chunks.take k) := by
  induction k with
  | zero => exact fun _ => trivial
  | succ k ih =>
    intro t chunks h
    cases chunks with
    | nil => trivial
    | cons chunk chunks => exact ⟨h.1, ih h.2⟩

/-! ## Framing -/

/-- From a fresh receiver the completions hand over exactly the packets, in order, and each with
the completion that completes it at the latest. -/
def Framed (packets chunks : List (List UInt8)) : Prop :=
  (∃ s, start.run chunks = some s ∧ s.onRecvPacket = inMemory packets) ∧
  ∀ k, ∃ s, start.run (chunks.take k) = some s ∧
    ∀ n, (packets.take n).flatten.length ≤ (chunks.take k).flatten.length →
      inMemory (packets.take n) <+: s.onRecvPacket

/-- Every completion holds whole packets, and none wraps around the end of the ring. -/
def Aligned (packets chunks : List (List UInt8)) : Prop :=
  Unwrapped 0 chunks ∧ ∃ groups : List (List (List UInt8)),
    groups.flatten = packets ∧ groups.map List.flatten = chunks

theorem take_prefix_of_length {packets front : List (List UInt8)} {n : Nat}
    (hw : ∀ packet ∈ packets, WellFormed packet) (hf : front <+: packets)
    (hlen : (packets.take n).flatten.length ≤ front.flatten.length) : packets.take n <+: front := by
  rcases List.prefix_or_prefix_of_prefix (List.take_prefix n packets) hf with h | h
  · exact h
  · obtain ⟨rest, hr⟩ := h
    rw [← hr, List.flatten_append, List.length_append] at hlen
    have hnil : rest = [] := by
      cases rest with
      | nil => rfl
      | cons packet rest =>
        have hmem : packet ∈ packets :=
          List.mem_of_mem_take (hr ▸ List.mem_append_right _ List.mem_cons_self)
        obtain ⟨_, _, hmin, _⟩ := (hw packet hmem).accepted
        simp only [List.flatten_cons, List.length_append, PacketHeader.sizeOf] at hlen hmin
        omega
    exact ⟨[], by rw [← hr, hnil, List.append_nil, List.append_nil]⟩

/-- **When framing is independent of segmentation.** -/
theorem framed_iff_aligned (packets chunks : List (List UInt8))
    (hw : ∀ packet ∈ packets, WellFormed packet) (hc : chunks.flatten = packets.flatten)
    (ha : Admissible start chunks) : Framed packets chunks ↔ Aligned packets chunks := by
  constructor
  · rintro ⟨⟨s, hrun, hd⟩, -⟩
    exact groups_of_run chunks start_idle.1 ha hrun (by rw [start_idle.2, hd, List.nil_append])
      (by rw [hc])
  · rintro ⟨hu, groups, rfl, rfl⟩
    refine ⟨?_, fun k => ?_⟩
    · obtain ⟨s, hrun, hd⟩ := run_groups groups start_idle.1 hw ha hu
      exact ⟨s, hrun, by rw [hd, start_idle.2, List.nil_append]⟩
    · have hfront : (groups.take k).flatten <+: groups.flatten := by
        conv_rhs => rw [← List.take_append_drop k groups, List.flatten_append]
        exact List.prefix_append _ _
      obtain ⟨s, hrun, hd⟩ := run_groups (groups.take k) start_idle.1
        (fun packet hp => hw packet (hfront.subset hp)) (by rw [List.map_take]; exact ha.take k)
        (by rw [List.map_take]; exact hu.take k)
      rw [List.map_take] at hrun
      refine ⟨s, hrun, fun n hn => ?_⟩
      rw [hd, start_idle.2, List.nil_append]
      rw [← List.map_take, ← List.flatten_flatten] at hn
      exact (take_prefix_of_length hw hfront hn).map _

/-- Two packets in one completion and a third in the next are framed. -/
theorem framed_iff_aligned_three :
    Framed [[6, 0, 1, 0, 0, 0], [7, 0, 2, 0, 0, 0, 9], [6, 0, 3, 0, 0, 0]]
      [[6, 0, 1, 0, 0, 0, 7, 0, 2, 0, 0, 0, 9], [6, 0, 3, 0, 0, 0]] := by
  have hw : ∀ packet ∈ [[6, 0, 1, 0, 0, 0], [7, 0, 2, 0, 0, 0, 9], [6, 0, 3, 0, 0, 0]],
      WellFormed packet := by
    simp only [List.forall_mem_cons]
    exact ⟨⟨⟨1, by decide⟩, by decide⟩, ⟨⟨2, by decide⟩, by decide⟩, ⟨⟨3, by decide⟩, by decide⟩,
      fun _ h => (by cases h)⟩
  obtain ⟨s, hs, hidle, -⟩ := receive_group start_idle.1
    [[6, 0, 1, 0, 0, 0], [7, 0, 2, 0, 0, 0, 9]]
    (fun packet hp => hw packet (List.mem_append_left [_] hp)) (by decide) (by decide) (by decide)
  have ha : Admissible start [[6, 0, 1, 0, 0, 0, 7, 0, 2, 0, 0, 0, 9], [6, 0, 3, 0, 0, 0]] := by
    refine ⟨by decide, by decide, fun s' hs' => ⟨by decide, ?_, fun _ _ => trivial⟩⟩
    cases hs.symm.trans hs'
    rw [hidle.freeSize]
    decide
  exact (framed_iff_aligned _ [_, _] hw rfl ha).2 ⟨⟨by decide, by decide, trivial⟩,
    [[[6, 0, 1, 0, 0, 0], [7, 0, 2, 0, 0, 0, 9]], [[6, 0, 3, 0, 0, 0]]], rfl, rfl⟩

/-- A completion of less than a header hands over nothing, whatever is in the ring already. -/
theorem receive_short {s : Receiver} (data : List UInt8) (ho : s.mpOwner = true)
    (hc : s.isDisconnected = false) (hpos : data.length ≠ 0)
    (hlen : data.length < PacketHeader.sizeOf) :
    s.receive data = some ({ s.arrive data with
      mNetReceiveBuffer :=
        ((s.arrive data).mNetReceiveBuffer.moveWritePos data.length).moveReadPos 0
      onRecvPacket := s.onRecvPacket ++ [] }.register .pending) :=
  process_processed (s := s.arrive data) ho hc hpos (onReceive_short _ hlen) (Nat.zero_le _)

/-- The same packet in two halves is never handed over. -/
theorem halves_not_framed :
    WellFormed [6, 0, 1, 0, 0, 0] ∧ Admissible start [[6, 0, 1], [0, 0, 0]] ∧
      ¬ Framed [[6, 0, 1, 0, 0, 0]] [[6, 0, 1], [0, 0, 0]] := by
  have h1 := receive_short (s := start) [6, 0, 1] rfl rfl (by decide) (by decide)
  refine ⟨⟨⟨1, by decide⟩, by decide⟩, ⟨by decide, by decide, ?_⟩, ?_⟩
  · intro s' hs
    cases h1.symm.trans hs
    exact ⟨by decide, by decide, fun _ _ => trivial⟩
  · rintro ⟨⟨s, hrun, hd⟩, -⟩
    rw [run, h1, Option.bind_some, run, receive_short _ rfl rfl (by decide) (by decide),
      Option.bind_some, run] at hrun
    cases hrun
    cases hd

end CppNetEngine.Receiver
