import CppNetEngine.Receive.Proof.Segmentation
import CppNetEngine.Send.Proof.Sending
import CppNetEngine.Session.Connection

/-!
# What is sent is received

From one end of a connection to the other: whatever the interleaving of the threads that send and of
the completions, the packets that `OnRecvPacket` gets are those of the messages, in the order in
which `Send` enqueued them, as long as each completion of `WSARecv` holds whole packets and none
wraps around the end of the ring. And that is needed: when everything has been sent and has arrived,
it was received as it was sent exactly if all completions were so (`received_iff_aligned`).
-/

namespace CppNetEngine.Sender

/-! ## Buffers on their way through the sender -/

variable {τ β : Type}

/-- The buffer a thread in `Send` has not enqueued yet. -/
def Pc.given : Pc β → Option β
  | .sendOwner b => some b
  | .sendEnqueue b => some b
  | _ => none

/-- What was submitted stays, and every buffer was once given to `Send`. -/
structure Grows (s s' : Sender β) (pc pc' : Pc β) (sent : Option β) : Prop where
  submitted : s.submitted <+: s'.submitted
  enqueued : ∀ b ∈ s'.enqueued, b ∈ s.enqueued ∨ pc.given = some b
  given : ∀ b, pc'.given = some b → pc.given = some b ∨ sent = some b

theorem disconnect_submitted (s : Sender β) (reason : DisconnectReason) :
    (s.disconnect reason).submitted = s.submitted := by
  unfold disconnect
  split <;> rfl

theorem disconnect_enqueued (s : Sender β) (reason : DisconnectReason) :
    (s.disconnect reason).enqueued = s.enqueued := by
  unfold disconnect
  split <;> rfl

/-- A step that neither enqueues nor submits, of a thread with nothing to enqueue after it. -/
theorem Grows.keep {s s' : Sender β} {pc pc' : Pc β} {sent : Option β}
    (hsub : s'.submitted = s.submitted) (henq : s'.enqueued = s.enqueued)
    (hgiven : pc'.given = none) : Grows s s' pc pc' sent := by
  refine ⟨hsub ▸ List.prefix_refl _, fun b hb => .inl (henq ▸ hb), fun b hb => ?_⟩
  rw [hgiven] at hb
  cases hb

theorem clearStep_submitted (s : Sender β) (c : ClearStep) :
    (s.clearStep c).submitted = s.submitted := by
  cases c <;> rfl

theorem clearStep_enqueued (s : Sender β) (c : ClearStep) :
    (s.clearStep c).enqueued = s.enqueued := by
  cases c <;> rfl

theorem exec_grows {s s' : Sender β} {pc pc' : Pc β} {wsaSend : WsaResult}
    (h : exec wsaSend s pc = some (s', pc')) : Grows s s' pc pc' none := by
  cases pc with
  | idle => cases h
  | nullOwner => cases h
  | sendOwner b =>
    cases h
    refine ⟨List.prefix_refl _, fun b hb => .inl hb, fun c hc => .inl ?_⟩
    split at hc
    · cases hc
    · exact hc
  | sendEnqueue b =>
    rw [exec] at h
    split at h
    · cases h
      exact .keep rfl rfl rfl
    · cases h
      refine ⟨List.prefix_refl _, fun c hc => ?_, fun c hc => by cases hc⟩
      rcases List.mem_append.1 hc with hc | hc
      · exact .inl hc
      · exact .inr (congrArg some (List.mem_singleton.1 hc).symm)
  | registerOwner =>
    cases h
    exact .keep rfl rfl (by split <;> rfl)
  | registerExchange =>
    cases h
    exact .keep rfl rfl (by split <;> rfl)
  | registerDequeue wsabufs =>
    rw [exec] at h
    split at h
    · cases h
      exact .keep rfl rfl (by split <;> rfl)
    · cases h
      exact .keep rfl rfl (by split <;> rfl)
  | registerStore =>
    cases h
    exact .keep rfl rfl rfl
  | registerIsEmpty =>
    cases h
    exact .keep rfl rfl (by split <;> rfl)
  | registerSend wsabufs =>
    have hsubmit : Grows s { s with
        mSendEventOwner := s.mpOwner
        outstanding := s.outstanding ++ [wsabufs]
        submitted := s.submitted ++ wsabufs } (.registerSend wsabufs) .idle none :=
      ⟨List.prefix_append _ _, fun b hb => .inl hb, fun b hb => by cases hb⟩
    cases wsaSend with
    | ok =>
      cases h
      exact hsubmit
    | pending =>
      cases h
      exact hsubmit
    | error errorCode =>
      cases h
      exact .keep rfl rfl rfl
  | processClear n =>
    cases h
    exact .keep rfl rfl rfl
  | processOwner n =>
    rw [exec] at h
    split at h
    · cases h
      exact .keep rfl rfl rfl
    · split at h
      · cases h
        exact .keep rfl rfl rfl
      · cases h
        exact .keep rfl rfl rfl
  | processStore =>
    cases h
    exact .keep rfl rfl rfl
  | processIsEmpty =>
    cases h
    exact .keep rfl rfl (by split <;> rfl)
  | disconnect reason thenClear =>
    rw [exec] at h
    split at h
    · cases h
      exact .keep (disconnect_submitted s reason) (disconnect_enqueued s reason)
        (by split <;> rfl)
    · cases h
      exact .keep rfl rfl rfl
  | clear todo thenDisconnect =>
    cases todo with
    | nil =>
      cases h
      exact .keep rfl rfl (by split <;> rfl)
    | cons c todo =>
      cases h
      exact .keep (clearStep_submitted s c) (clearStep_enqueued s c) rfl

/-- The buffer an action gives to `Send`. -/
def Act.sent : Act β → Option β
  | .send b => some b
  | _ => none

theorem act_grows {s s' : Sender β} {pc pc' : Pc β} {a : Act β}
    (h : act a s pc = some (s', pc')) : Grows s s' pc pc' a.sent := by
  cases a with
  | next wsaSend =>
    have hexec : exec wsaSend s pc = some (s', pc') := by
      cases pc <;> exact h
    exact exec_grows hexec
  | send b =>
    cases pc <;> cases h
    exact ⟨List.prefix_refl _, fun c hc => .inl hc, fun c hc => .inr hc⟩
  | process k n =>
    cases pc <;> try cases h
    rw [act] at h
    split at h
    · cases h
      exact .keep rfl rfl rfl
    · cases h

/-- When nothing is in progress or in flight, everything was submitted. -/
theorem Inv.submitted {s : Threads τ (Pc β) (Sender β)} (h : Inv s)
    (hidle : ∀ t, s.locals t = .idle) (hout : s.shared.outstanding = []) :
    s.shared.submitted = s.shared.enqueued := by
  cases h.flag with
  | held t _ _ _ ht _ _ =>
    rw [hidle t] at ht
    cases ht
  | sending _ hone _ _ =>
    rw [hout] at hone
    cases hone
  | down hdown _ _ horder =>
    have hempty : s.shared.mSendQueue = [] := by
      by_contra hne
      obtain ⟨t, ht⟩ := h.watched hdown hne
      rw [hidle t] at ht
      exact ht
    rwa [hempty, List.append_nil] at horder

end CppNetEngine.Sender

namespace CppNetEngine.Receiver

/-! ## One completion more -/

theorem run_concat (chunks : List (List UInt8)) (data : List UInt8) : ∀ {s s' : Receiver},
    s.run chunks = some s' → s.run (chunks ++ [data]) = s'.receive data := by
  induction chunks with
  | nil =>
    intro s s' h
    cases h
    exact Option.bind_fun_some (s.receive data)
  | cons chunk chunks ih =>
    intro s s' h
    obtain ⟨s1, h1, h2⟩ := Option.bind_eq_some_iff.1 h
    rw [List.cons_append, run, h1]
    exact ih h2

theorem Admissible.concat {chunks : List (List UInt8)} {data : List UInt8} :
    ∀ {s s' : Receiver}, Admissible s chunks → s.run chunks = some s' → 1 ≤ data.length →
      data.length ≤ s'.mNetReceiveBuffer.getFreeSize → Admissible s (chunks ++ [data]) := by
  induction chunks with
  | nil =>
    intro s s' _ h hpos hfree
    cases h
    exact ⟨hpos, hfree, fun _ _ => trivial⟩
  | cons chunk chunks ih =>
    rintro s s' ⟨h1, h2, hrest⟩ h hpos hfree
    obtain ⟨s1, hs1, hrun⟩ := Option.bind_eq_some_iff.1 h
    refine ⟨h1, h2, fun s2 hs2 => ?_⟩
    cases hs1.symm.trans hs2
    exact ih (hrest s1 hs1) hrun hpos hfree

end CppNetEngine.Receiver

namespace CppNetEngine.Connection

open PacketSession

/-! ## Packets of messages -/

/-- The bytes of the packet of a message. -/
def packetBytes (m : Message × UInt32) : List UInt8 :=
  (PacketHeader.mk (m.1.byteSizeLong + PacketHeader.sizeOf) m.2.toNat).bytes ++ m.1.payload

/-- The packet of a message fits the ring of a receiver. -/
def Fits (packet : Message) : Prop :=
  packet.byteSizeLong + PacketHeader.sizeOf < NetReceiveBuffer.defaultBufferSize

/-- The buffer is what `MakeSendBuffer` returns for the message. -/
def MadeOf (b : NetSendBuffer) (m : Message × UInt32) : Prop :=
  PacketHandler.makeSendBuffer m.1 m.2 = .sendBuffer b ∧ Fits m.1

theorem packetBytes_length (m : Message × UInt32) :
    (packetBytes m).length = m.1.byteSizeLong + PacketHeader.sizeOf := by
  rw [packetBytes, List.length_append, PacketHeader.bytes_length, Nat.add_comm]
  rfl

theorem wellFormed_packetBytes {m : Message × UInt32} (h : Fits m.1) :
    WellFormed (packetBytes m) := by
  have hlen := packetBytes_length m
  unfold Fits at h
  refine ⟨⟨m.2.toNat, ?_, ?_, ?_⟩, ?_⟩
  · rw [hlen]
    refine PacketHeader.read_bytes ?_ m.2.toNat_lt m.1.payload
    exact Nat.lt_trans h (by decide)
  · rw [hlen]
    exact Nat.le_add_left _ _
  · rw [hlen]
    exact Nat.le_of_lt h
  · rw [hlen]
    exact h

theorem MadeOf.wsaBuf {b : NetSendBuffer} {m : Message × UInt32} (h : MadeOf b m) :
    b.wsaBuf = (packetBytes m).map some := by
  obtain ⟨hmake, hfits⟩ := h
  unfold Fits NetReceiveBuffer.defaultBufferSize PacketHeader.sizeOf at hfits
  have hlen : m.1.byteSizeLong % 2 ^ 16 = m.1.byteSizeLong := Nat.mod_eq_of_lt (by omega)
  have hsize : (m.1.byteSizeLong + PacketHeader.sizeOf) % 2 ^ 16 =
      m.1.byteSizeLong + PacketHeader.sizeOf := Nat.mod_eq_of_lt (by
    unfold PacketHeader.sizeOf
    omega)
  have hle := SendBufferAllocator.le_getAllocSize (m.1.byteSizeLong + PacketHeader.sizeOf)
  rw [PacketHandler.makeSendBuffer_pos m.1 m.2 (by omega)] at hmake
  rw [hlen, hsize, m.1.serialize_self, if_pos rfl] at hmake
  cases hmake
  set header : PacketHeader := ⟨m.1.byteSizeLong + PacketHeader.sizeOf, m.2.toNat⟩
  have hslice : (PacketHandler.written m.1 header).slice 0 (packetBytes m).length =
    (packetBytes m).map some := PacketHandler.written_slice m.1 header
  unfold NetSendBuffer.wsaBuf
  rw [NetSendBuffer.commit_getUseSize hle, NetSendBuffer.commit_getReadPtr, ← hslice,
    packetBytes_length]
  -- the read position is 0
  show Memory.slice (fun i => PacketHandler.written m.1 header (0 + i)) 0 (0 + _) = _
  simp only [Nat.zero_add]

theorem exists_messages {bufs : List NetSendBuffer} (h : ∀ b ∈ bufs, ∃ m, MadeOf b m) :
    ∃ messages, List.Forall₂ MadeOf bufs messages := by
  induction bufs with
  | nil => exact ⟨[], .nil⟩
  | cons b bufs ih =>
    obtain ⟨m, hm⟩ := h b List.mem_cons_self
    obtain ⟨messages, hrest⟩ := ih fun c hc => h c (List.mem_cons_of_mem _ hc)
    exact ⟨m :: messages, .cons hm hrest⟩

theorem wsaBufs {bufs : List NetSendBuffer} {messages : List (Message × UInt32)}
    (h : List.Forall₂ MadeOf bufs messages) :
    (bufs.map NetSendBuffer.wsaBuf).flatten = ((messages.map packetBytes).flatten).map some := by
  induction h with
  | nil => rfl
  | cons hm _ ih =>
    rw [List.map_cons, List.flatten_cons, List.map_cons, List.flatten_cons, List.map_append, ih,
      hm.wsaBuf]

theorem wellFormed_messages {bufs : List NetSendBuffer} {messages : List (Message × UInt32)}
    (h : List.Forall₂ MadeOf bufs messages) :
    ∀ packet ∈ messages.map packetBytes, WellFormed packet := by
  induction h with
  | nil => simp
  | cons hm _ ih =>
    rintro packet hp
    rcases List.mem_cons.1 hp with rfl | hp
    · exact wellFormed_packetBytes hm.2
    · exact ih packet hp

/-! ## The invariant -/

/-- What is assumed of a step of the sending end: the packet fits a receiver's ring, and for the
rest what is assumed of the `Sender` alone. -/
def Assumed (c : Connection) (pc : Sender.Pc NetSendBuffer) : Action → Prop
  | .sendPacket packet _ => Fits packet
  | .process _ n => 0 < n
  | .next wsaSend => Sender.Assumed c.sender pc (.next wsaSend)

/-- A completion of `WSARecv` has at least one byte, and at most those free in the ring. -/
def Posted (c : Connection) (data : List UInt8) : Prop :=
  1 ≤ data.length ∧ data.length ≤ c.receiver.mNetReceiveBuffer.getFreeSize

variable {τ : Type} [DecidableEq τ]

/-- The runs the assumptions allow. -/
abbrev Connected (s : State τ) : Prop :=
  (machine τ).ReachableIf (Threads.Guard (fun s t => Assumed s.shared (s.locals t)) Posted) s

/-- The sending end alone. -/
def sending (s : State τ) : Threads τ (Sender.Pc NetSendBuffer) (Sender NetSendBuffer) :=
  ⟨s.shared.sender, s.locals⟩

structure Inv (s : State τ) : Prop where
  sender : Sender.Inv (sending s)
  made : ∀ b ∈ s.shared.sender.enqueued, ∃ m, MadeOf b m
  given : ∀ t b, (s.locals t).given = some b → ∃ m, MadeOf b m
  arrived : s.shared.completions.flatten.map some <+: s.shared.stream
  admissible : Receiver.Admissible .start s.shared.completions
  run : Receiver.start.run s.shared.completions = some s.shared.receiver

/-- A step of the sending end is one of the `Sender`, of which what is assumed of it holds, and
what it gives to `Send` was made of a message. -/
theorem act_spec {a : Action} {c c' : Connection} {pc pc' : Sender.Pc NetSendBuffer}
    (h : act a c pc = some (c', pc')) (hok : Assumed c pc a) :
    ∃ b sender, Sender.act b c.sender pc = some (sender, pc') ∧ Sender.Assumed c.sender pc b ∧
      c' = { c with sender := sender } ∧ ∀ buf, b.sent = some buf → ∃ m, MadeOf buf m := by
  have hsender : ∀ {b}, c.senderAct b pc = some (c', pc') →
      ∃ sender, Sender.act b c.sender pc = some (sender, pc') ∧
        c' = { c with sender := sender } := by
    intro b hb
    obtain ⟨⟨sender, l⟩, hact, heq⟩ := Option.map_eq_some_iff.1 hb
    cases heq
    exact ⟨sender, hact, rfl⟩
  cases a with
  | sendPacket packet packetId =>
    rw [act] at h
    split at h
    · rename_i b hmake
      obtain ⟨sender, hact, hc⟩ := hsender h
      refine ⟨_, sender, hact, trivial, hc, fun buf hbuf => ⟨(packet, packetId), ?_, hok⟩⟩
      cases hbuf
      exact hmake
    · cases h
    · cases h
  | process k n =>
    obtain ⟨sender, hact, hc⟩ := hsender h
    exact ⟨_, sender, hact, by cases pc <;> exact hok, hc, fun buf hbuf => by cases hbuf⟩
  | next wsaSend =>
    obtain ⟨sender, hact, hc⟩ := hsender h
    exact ⟨_, sender, hact, hok, hc, fun buf hbuf => by cases hbuf⟩

theorem stream_grows {c : Connection} {sender : Sender NetSendBuffer}
    (h : c.sender.submitted <+: sender.submitted) :
    c.stream <+: { c with sender := sender }.stream := by
  obtain ⟨rest, hrest⟩ := h
  refine ⟨(rest.map NetSendBuffer.wsaBuf).flatten, ?_⟩
  unfold stream
  rw [← hrest, List.map_append, List.flatten_append]

theorem act_inv (s : State τ) (t : τ) (a : Action) (shared : Connection)
    (l : Sender.Pc NetSendBuffer) (h : Inv s) (hok : Assumed s.shared (s.locals t) a)
    (hs : act a s.shared (s.locals t) = some (shared, l)) : Inv (s.set t shared l) := by
  obtain ⟨b, sender, hact, hassumed, rfl, hsent⟩ := act_spec hs hok
  obtain ⟨hsub, henq, hgiven⟩ := Sender.act_grows hact
  refine ⟨?_, fun buf hbuf => ?_, fun u buf hbuf => ?_, ?_, h.admissible, h.run⟩
  · exact Sender.act_inv (sending s) t b sender l h.sender hassumed hact
  · rcases henq buf hbuf with hold | hpc
    · exact h.made buf hold
    · exact h.given t buf hpc
  · by_cases hu : u = t
    · subst hu
      rw [Threads.set_self] at hbuf
      rcases hgiven buf hbuf with hold | hnew
      · exact h.given u buf hold
      · exact hsent buf hnew
    · rw [Threads.set_other _ _ _ _ hu] at hbuf
      exact h.given u buf hbuf
  · exact h.arrived.trans (stream_grows hsub)

omit [DecidableEq τ] in
theorem receive_inv (s : State τ) (data : List UInt8) (shared : Connection) (h : Inv s)
    (hok : Posted s.shared data) (hs : receive data s.shared = some shared) :
    Inv { s with shared := shared } := by
  unfold receive at hs
  split at hs
  · rename_i hnext
    obtain ⟨receiver, hreceive, rfl⟩ := Option.map_eq_some_iff.1 hs
    refine ⟨h.sender, h.made, h.given, ?_, ?_, ?_⟩
    · obtain ⟨rest, hrest⟩ := h.arrived
      obtain ⟨-, more, hmore⟩ := hnext
      refine ⟨more, ?_⟩
      change (s.shared.completions ++ [data]).flatten.map some ++ more = s.shared.stream
      rw [← hrest, List.drop_left' (List.length_map _)] at hmore
      rw [List.flatten_append, List.flatten_singleton, List.map_append, List.append_assoc, hmore,
        hrest]
    · exact h.admissible.concat h.run hok.1 hok.2
    · exact (Receiver.run_concat _ data h.run).trans hreceive
  · cases hs

theorem connected_inv {s : State τ} (h : Connected s) : Inv s := by
  refine Threads.invariant (I := Inv) ?_ act_inv receive_inv h
  rintro ⟨shared, locals⟩ ⟨⟨maxCount, rfl⟩, hidle⟩
  refine ⟨?_, fun b hb => ?_, fun t b hb => ?_, List.prefix_refl _, trivial, rfl⟩
  · exact Sender.connected_inv (.init ⟨⟨maxCount, rfl⟩, hidle⟩)
  · cases hb
  · rw [hidle t] at hb
    cases hb

/-! ## From end to end -/

/-- No call is in progress, nothing is in flight, and everything has arrived. -/
structure AtRest (s : State τ) : Prop where
  idle : ∀ t, s.locals t = .idle
  outstanding : s.shared.sender.outstanding = []
  arrived : s.shared.completions.flatten.map some = s.shared.stream

omit [DecidableEq τ] in
/-- Whole packets in every completion, and none that wraps: they are received. -/
theorem received_of_aligned {s : State τ} (h : Inv s) {packets : List (List UInt8)}
    (hw : ∀ packet ∈ packets, WellFormed packet)
    (ha : Receiver.Aligned packets s.shared.completions) :
    s.shared.receiver.onRecvPacket = inMemory packets := by
  obtain ⟨hu, groups, rfl, hgroups⟩ := ha
  have hadm := h.admissible
  have hrun := h.run
  rw [← hgroups] at hadm hrun hu
  obtain ⟨s', hs', hd⟩ := Receiver.run_groups groups Receiver.start_idle.1 hw hadm hu
  cases hrun.symm.trans hs'
  rw [hd, Receiver.start_idle.2, List.nil_append]

/-- **From `Send` to `OnRecvPacket`.** Every buffer that was enqueued is the packet of a message. If
the completions hold whole packets and do not wrap, the packets received so far are those of the
messages enqueued first; and once everything has arrived, what was received is what was sent exactly
if the completions are so. -/
theorem received_iff_aligned {s : State τ} (h : Connected s) :
    ∃ messages, List.Forall₂ MadeOf s.shared.sender.enqueued messages ∧
      (∀ n, Receiver.Aligned ((messages.map packetBytes).take n) s.shared.completions →
        s.shared.receiver.onRecvPacket = inMemory ((messages.map packetBytes).take n)) ∧
      (AtRest s → (s.shared.receiver.onRecvPacket = inMemory (messages.map packetBytes) ↔
        Receiver.Aligned (messages.map packetBytes) s.shared.completions)) := by
  have hinv := connected_inv h
  obtain ⟨messages, hmade⟩ := exists_messages hinv.made
  have hw := wellFormed_messages hmade
  refine ⟨messages, hmade, fun n => ?_, fun hrest => ⟨fun hd => ?_, ?_⟩⟩
  · exact received_of_aligned hinv fun packet hp => hw packet (List.mem_of_mem_take hp)
  · have hall : s.shared.sender.submitted = s.shared.sender.enqueued :=
      hinv.sender.submitted hrest.idle hrest.outstanding
    have hbytes := hrest.arrived
    unfold stream at hbytes
    rw [hall, wsaBufs hmade] at hbytes
    have hlen := congrArg List.length hbytes
    rw [List.length_map, List.length_map] at hlen
    exact Receiver.groups_of_run _ Receiver.start_idle.1 hinv.admissible hinv.run
      (by rw [hd, Receiver.start_idle.2, List.nil_append]) hlen.symm
  · exact received_of_aligned hinv hw

/-! ## Two messages -/

theorem packetBytes_unique {bufs : List NetSendBuffer} {messages messages' : List (Message × UInt32)}
    (h : List.Forall₂ MadeOf bufs messages) (h' : List.Forall₂ MadeOf bufs messages') :
    messages.map packetBytes = messages'.map packetBytes := by
  induction h generalizing messages' with
  | nil =>
    cases h'
    rfl
  | cons hm _ ih =>
    cases h' with
    | cons hm' hrest =>
      have hbytes : packetBytes _ = packetBytes _ :=
        List.map_injective_iff.2 (fun _ _ => Option.some.inj) (hm.wsaBuf.symm.trans hm'.wsaBuf)
      rw [List.map_cons, List.map_cons, hbytes, ih hrest]

/-- A sender that has sent these buffers, and is at rest. -/
def sentBy (bufs : List NetSendBuffer) (onSend : List Nat) : Sender NetSendBuffer :=
  { Sender.new NetSendBuffer 1000 with enqueued := bufs, submitted := bufs, onSend := onSend }

/-- One more packet is sent, and its `WSASend` completes. -/
theorem connected_send {bufs : List NetSendBuffer} {onSend : List Nat} {b : NetSendBuffer}
    {m : Message × UInt32} (hmade : MadeOf b m)
    (h : @Connected Unit _ ⟨⟨sentBy bufs onSend, [], .start⟩, fun _ => .idle⟩) :
    @Connected Unit _ ⟨⟨sentBy (bufs ++ [b]) (onSend ++ [6]), [], .start⟩, fun _ => .idle⟩ := by
  let next : ThreadAction Unit Action (List UInt8) := .thread () (.next .pending)
  have hsend : @Connected Unit _ ⟨⟨sentBy bufs onSend, [], .start⟩, fun _ => .sendOwner b⟩ :=
    h.step (a := .thread () (.sendPacket m.1 m.2)) hmade.2 (by
      simp only [machine, Threads.machine, act, hmade.1]
      rfl)
  exact hsend.exec [next, next, next, next, next, next, next, .thread () (.process 0 6), next, next,
      next, next]
      (by simp [Machine.Allowed, next, Threads.Guard, Assumed, Sender.Assumed, machine,
        Threads.machine, act, senderAct, Sender.act, Sender.exec, Threads.set, Sender.new, sentBy,
        Sender.isGone, Sender.maxSendWsabufSize, WsaResult.Accepted]) rfl

/-- Two messages are sent, and arrive in a completion each. -/
theorem received_iff_aligned_two : ∃ s : State Unit,
    s.shared.completions = [[7, 0, 1, 0, 0, 0, 9], [8, 0, 2, 0, 0, 0, 8, 7]] ∧ AtRest s ∧
      ∃ messages, List.Forall₂ MadeOf s.shared.sender.enqueued messages ∧
        s.shared.receiver.onRecvPacket = inMemory (messages.map packetBytes) := by
  obtain ⟨b, hb⟩ : ∃ b, MadeOf b (.ofBytes [9], 1) := ⟨_, rfl, by unfold Fits; decide⟩
  obtain ⟨b', hb'⟩ : ∃ b, MadeOf b (.ofBytes [8, 7], 2) := ⟨_, rfl, by unfold Fits; decide⟩
  have hmade : List.Forall₂ MadeOf [b, b'] [(.ofBytes [9], 1), (.ofBytes [8, 7], 2)] :=
    .cons hb (.cons hb' .nil)
  have hw := wellFormed_messages hmade
  have hinit : @Connected Unit _ ⟨⟨sentBy [] [], [], .start⟩, fun _ => .idle⟩ :=
    .init ⟨⟨1000, rfl⟩, fun _ => rfl⟩
  have hsent := connected_send hb' (connected_send hb hinit)
  -- the first packet arrives, and then the second
  obtain ⟨r, hr, hidle, -⟩ := Receiver.receive_group Receiver.start_idle.1
    [[7, 0, 1, 0, 0, 0, 9]] (fun packet hp => hw packet (List.mem_append_left [_] hp))
    (by decide) (by decide) (by decide)
  obtain ⟨r', hr', -, -⟩ := Receiver.receive_group hidle
    [[8, 0, 2, 0, 0, 0, 8, 7]] (fun packet hp => hw packet (List.mem_cons_of_mem _ hp))
    (by decide) (by decide) (by decide)
  have hstream : (Connection.mk (sentBy [b, b'] [6, 6]) [] .start).stream =
      [7, 0, 1, 0, 0, 0, 9, 8, 0, 2, 0, 0, 0, 8, 7].map some := wsaBufs hmade
  have hfirst : @Connected Unit _ ⟨⟨sentBy [b, b'] [6, 6], [[7, 0, 1, 0, 0, 0, 9]], r⟩,
      fun _ => .idle⟩ := by
    have hposted : 1 ≤ 7 ∧ 7 ≤ Receiver.start.mNetReceiveBuffer.getFreeSize := by decide
    refine hsent.step (a := .env [7, 0, 1, 0, 0, 0, 9]) hposted ?_
    simp only [machine, Threads.machine, receive]
    rw [if_pos ⟨rfl, ⟨_, hstream.symm⟩⟩,
      show Receiver.start.receive [7, 0, 1, 0, 0, 0, 9] = some r from hr]
    rfl
  have hboth : @Connected Unit _ ⟨⟨sentBy [b, b'] [6, 6],
      [[7, 0, 1, 0, 0, 0, 9], [8, 0, 2, 0, 0, 0, 8, 7]], r'⟩, fun _ => .idle⟩ := by
    refine hfirst.step (a := .env [8, 0, 2, 0, 0, 0, 8, 7]) ⟨by decide, ?_⟩ ?_
    · rw [hidle.freeSize]
      decide
    · simp only [machine, Threads.machine, receive]
      rw [if_pos ⟨Option.isSome_of_eq_some hidle.posted,
          ⟨[], (congrArg (List.drop 7) hstream).symm⟩⟩,
        show r.receive [8, 0, 2, 0, 0, 0, 8, 7] = some r' from hr']
      rfl
  have hrest : @AtRest Unit ⟨⟨sentBy [b, b'] [6, 6],
      [[7, 0, 1, 0, 0, 0, 9], [8, 0, 2, 0, 0, 0, 8, 7]], r'⟩, fun _ => .idle⟩ :=
    ⟨fun _ => rfl, rfl, hstream.symm⟩
  obtain ⟨messages, hforall, -, hiff⟩ := received_iff_aligned hboth
  refine ⟨_, rfl, hrest, messages, hforall, (hiff hrest).2 ⟨⟨by decide, by decide, trivial⟩,
    [[[7, 0, 1, 0, 0, 0, 9]], [[8, 0, 2, 0, 0, 0, 8, 7]]], ?_, rfl⟩⟩
  rw [packetBytes_unique hforall hmade]
  rfl

end CppNetEngine.Connection
