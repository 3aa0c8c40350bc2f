import CppNetEngine.Generator.Proof.Written
import CppNetEngine.Generator.Routing

/-!
# Which handlers are reached

`Generate` compares nothing: the proto a message stands in, the number of its id and the handler name
of a service type come from different places. A packet of a registered id gets where the last handler
name says that is given to its service type (`reached_iff`).
-/

namespace CppNetEngine.PacketGenerator

open Assignments

/-- The last enumerator with a handler name and this service type has this handler name. -/
def Names (dir : ProtoDir) (serviceType : UInt16) (handlerName : String) : Prop :=
  ∃ before enumName after,
    handlerNames (packetIdFile dir) = before ++ (enumName, handlerName) :: after ∧
    enumerator dir "eServiceType" enumName = some serviceType.toUInt32 ∧
    ∀ line ∈ after, enumerator dir "eServiceType" line.1 ≠ some serviceType.toUInt32

/-- No enumerator with a handler name has this service type. -/
def Unnamed (dir : ProtoDir) (serviceType : UInt16) : Prop :=
  ∀ line ∈ handlerNames (packetIdFile dir),
    enumerator dir "eServiceType" line.1 ≠ some serviceType.toUInt32

variable {rt : Runtime} {canWrite : Disk → Bool} {dir : ProtoDir} {projects : List ProjectConfig}
  {d disk : Disk}

theorem serviceTypeEntry_eq_some {line : String × String} {key : UInt32} {handlerName : String} :
    serviceTypeEntry dir line = some (key, handlerName) ↔
      enumerator dir "eServiceType" line.1 = some key ∧ line.2 = handlerName := by
  simp [serviceTypeEntry, Option.map_eq_some_iff]

/-- What the map of the service types has for a service type. -/
theorem names_iff {serviceType : UInt16} {handlerName : String} :
    find (packetServiceTypeMap dir (serviceTypeHeader dir)) serviceType.toUInt32 =
      some handlerName ↔ Names dir serviceType handlerName := by
  unfold packetServiceTypeMap Names
  rw [find_filterMap_eq_some_iff]
  simp only [ne_eq, serviceTypeEntry_eq_some]
  constructor
  · rintro ⟨before, line, after, heq, ⟨hkey, rfl⟩, hafter⟩
    exact ⟨before, line.1, after, heq, hkey, fun l hl h => hafter l hl l.2 ⟨h, rfl⟩⟩
  · rintro ⟨before, enumName, after, heq, hkey, hafter⟩
    exact ⟨before, (enumName, handlerName), after, heq, ⟨hkey, rfl⟩,
      fun l hl _ h => hafter l hl h.1⟩

theorem unnamed_iff {serviceType : UInt16} :
    find (packetServiceTypeMap dir (serviceTypeHeader dir)) serviceType.toUInt32 = none ↔
      Unnamed dir serviceType := by
  unfold packetServiceTypeMap Unnamed
  rw [find_eq_none_iff]
  constructor
  · intro h line hline hkey
    exact h line.2 (List.mem_filterMap.2 ⟨line, hline, serviceTypeEntry_eq_some.2 ⟨hkey, rfl⟩⟩)
  · intro h handlerName hmem
    obtain ⟨line, hline, hentry⟩ := List.mem_filterMap.1 hmem
    exact h line hline (serviceTypeEntry_eq_some.1 hentry).1

theorem className_injective {p q : String} (h : className p = className q) : p = q :=
  (String.append_left_inj _).1 h

theorem mem_handled {f : DescFile} (hf : f ∈ dir.descFiles) (hshared : isShared f.protoName = false) :
    f.protoName ∈ handled dir :=
  List.mem_filter.2 ⟨List.mem_map.2 ⟨f, hf, rfl⟩, by rw [hshared]; rfl⟩

theorem handlerClass_eq {output : String} {f : DescFile} (hf : f ∈ dir.descFiles)
    (hshared : isShared f.protoName = false) {h : HandlerHeader}
    (hfind : find disk (output, handlerFile f.protoName) = some (.handler h)) :
    handlerClass disk output (serviceTypeHeader dir) (className f.protoName) = some h := by
  unfold handlerClass
  have hclass : (serviceTypeHeader dir).includes.find? (className · = className f.protoName) =
      some f.protoName := by
    cases hq : (serviceTypeHeader dir).includes.find? (className · = className f.protoName) with
    | none => exact absurd rfl (of_decide_eq_false
        (Bool.eq_false_iff.2 (List.find?_eq_none.1 hq _ (mem_handled hf hshared))))
    | some q =>
      have hfound := List.find?_some (p := (className · = className f.protoName)) hq
      rw [className_injective (of_decide_eq_true hfound)]
  rw [hclass, Option.bind_some, hfind]

/-- The last headers of a project that has another one. -/
theorem find_headers (h : generate rt canWrite dir projects d = some disk)
    {p other : ProjectConfig} (hp : p ∈ projects) (hother : other ∈ projects)
    (hname : p.name ≠ other.name) :
    find disk (p.name, serviceTypeFile) = some (.serviceType (serviceTypeHeader dir)) ∧
    ∃ receiver sender, ∀ f ∈ dir.descFiles, isShared f.protoName = false →
      find disk (p.name, handlerFile f.protoName) =
        some (.handler (handlerHeader rt receiver sender f)) := by
  have hsame : projects.filter (·.name = p.name) ≠ [] :=
    List.ne_nil_of_mem (List.mem_filter.2 ⟨hp, decide_eq_true rfl⟩)
  have hdiffer : projects.filter (·.name ≠ p.name) ≠ [] :=
    List.ne_nil_of_mem (List.mem_filter.2 ⟨hother, decide_eq_true hname.symm⟩)
  have hreceiver := List.getLast?_eq_some_getLast hsame
  have hsender := List.getLast?_eq_some_getLast hdiffer
  obtain ⟨hr, hrname⟩ := List.mem_filter.1 (List.getLast_mem hsame)
  obtain ⟨hs, hsname⟩ := List.mem_filter.1 (List.getLast_mem hdiffer)
  generalize (projects.filter (·.name = p.name)).getLast hsame = receiver at *
  generalize (projects.filter (·.name ≠ p.name)).getLast hdiffer = sender at *
  have hrname := of_decide_eq_true hrname
  have hne : receiver.name ≠ sender.name := by
    rw [hrname]
    exact Ne.symm (of_decide_eq_true hsname)
  obtain ⟨receiverRole, senderRole, hrrole, hsrole⟩ := generate_roles h hr hs hne
  refine ⟨find_generate h hreceiver hsender ?_, receiverRole, senderRole, fun f hf hshared =>
    find_generate h hreceiver hsender ?_⟩
  · rw [← hrname]
    exact find_serviceType hne hrrole hsrole
  · rw [← hrname]
    exact find_handler hne hrrole hsrole hf hshared

/-- **Where the packets of registered ids get.** For all descriptors for which `Generate` is
successful, a packet of an id that a class registers is handled by the class exactly if the handler
name of its service type is the name of the class, the last one counting, and it then comes to the
function of its id; no service type is found exactly if there is no handler name. -/
theorem reached_iff (h : generate rt canWrite dir projects d = some disk) {p other : ProjectConfig}
    (hp : p ∈ projects) (hother : other ∈ projects) (hname : p.name ≠ other.name) :
    ∃ sh, find disk (p.name, serviceTypeFile) = some (.serviceType sh) ∧
      ∀ f ∈ dir.descFiles, isShared f.protoName = false →
        ∃ header, find disk (p.name, handlerFile f.protoName) = some (.handler header) ∧
          ∀ packetId function, handlePacket dir sh header packetId = some function →
            (handlePacketServiceType dir disk p.name sh packetId =
                .handle (className f.protoName) function ↔
              Names dir (getServiceType packetId) (className f.protoName)) ∧
            (handlePacketServiceType dir disk p.name sh packetId = .serviceTypeInvalid ↔
              Unnamed dir (getServiceType packetId)) := by
  obtain ⟨hservice, receiver, sender, hheaders⟩ := find_headers h hp hother hname
  refine ⟨_, hservice, fun f hf hshared => ⟨_, hheaders f hf hshared, fun packetId function hreg => ?_⟩⟩
  have hclass := handlerClass_eq hf hshared (hheaders f hf hshared)
  rw [← names_iff, ← unnamed_iff]
  unfold handlePacketServiceType
  cases hentry : find (packetServiceTypeMap dir (serviceTypeHeader dir))
      (getServiceType packetId).toUInt32 with
  | none => simp
  | some handlerName =>
    by_cases hown : handlerName = className f.protoName
    · simp [hown, hclass, hreg]
    · simp only [Option.some.injEq, hown, iff_false, reduceCtorEq]
      cases handlerClass disk p.name (serviceTypeHeader dir) handlerName with
      | none => simp
      | some other =>
        cases hother : handlePacket dir (serviceTypeHeader dir) other packetId with
        | none => simp [hother]
        | some function' => simp [hother, hown]

/-! ## The enumerators of the repository -/

/-- `PacketId.proto`. -/
def packetIdProto : FileDescriptorProto :=
  { name := "PacketId.proto"
    messageType := []
    enumType := [
      ⟨"eServiceType", [⟨"SERVICE_TYPE_NONE", 0, none⟩,
        ⟨"SERVICE_TYPE_LOGIN", 1, some ⟨some "LoginPacketHandler"⟩⟩]⟩,
      ⟨"ePacketId", [⟨"ID_NONE", 0, none⟩, ⟨"ID_C2S_ECHO_REQ", 0x00010001, none⟩,
        ⟨"ID_S2C_ECHO_RES", 0x00010002, none⟩, ⟨"ID_C2S_LOGIN_REQ", 0x00010003, none⟩,
        ⟨"ID_S2C_LOGIN_RES", 0x00010004, none⟩, ⟨"ID_C2S_MOVE", 0x0201, none⟩]⟩] }

/-- With a proto of one message, from the client to the server. -/
def idDir (packetName : String) : ProtoDir :=
  { descFiles := [⟨"PacketId", some [packetIdProto]⟩,
      ⟨"Login", some [⟨"Login.proto", [⟨packetName, some ⟨some .client, some .gameServer⟩⟩], []⟩]⟩]
    nodup := by simp }

/-- What is generated from it. -/
def idDisk (packetName : String) : Disk :=
  (generate ordinal (fun _ => true) (idDir packetName) packetConfig []).getD []

theorem reached_iff_login : ∃ sh,
    find (idDisk "C2S_LOGIN_REQ") ("GameServer", serviceTypeFile) = some (.serviceType sh) ∧
    handlePacketServiceType (idDir "C2S_LOGIN_REQ") (idDisk "C2S_LOGIN_REQ") "GameServer" sh
      0x00010003 = .handle "LoginPacketHandler" "HANDLE_C2S_LOGIN_REQ" := by
  have hgenerate : generate ordinal (fun _ => true) (idDir "C2S_LOGIN_REQ") packetConfig [] =
      some (idDisk "C2S_LOGIN_REQ") := rfl
  obtain ⟨sh, hservice, hreached⟩ := reached_iff hgenerate
    (p := ⟨"GameServer", "GameServer"⟩) (List.mem_cons_of_mem _ List.mem_cons_self)
    List.mem_cons_self (by decide)
  refine ⟨sh, hservice, ?_⟩
  obtain ⟨header, hheader, hids⟩ := hreached _ (List.mem_cons_of_mem _ List.mem_cons_self) rfl
  have hsh : find (idDisk "C2S_LOGIN_REQ") ("GameServer", serviceTypeFile) =
      some (.serviceType (serviceTypeHeader (idDir "C2S_LOGIN_REQ"))) := rfl
  have hlogin : find (idDisk "C2S_LOGIN_REQ") ("GameServer", handlerFile "Login") =
      some (.handler ⟨"Login", [("ID_C2S_LOGIN_REQ", "C2S_LOGIN_REQ")], ["C2S_LOGIN_REQ"], []⟩) := rfl
  rw [hsh] at hservice
  cases hservice
  rw [hlogin] at hheader
  cases hheader
  exact (hids 0x00010003 "HANDLE_C2S_LOGIN_REQ" rfl).1.2
    ⟨[], "SERVICE_TYPE_LOGIN", [], rfl, rfl, fun _ hline => absurd hline List.not_mem_nil⟩

/-- `ID_C2S_MOVE` is of no service type with a handler. -/
theorem not_reached_move :
    ¬ (∀ (dir : ProtoDir) (projects : List ProjectConfig) (disk : Disk),
      (∀ f ∈ dir.descFiles, isShared f.protoName = false → ∀ msg ∈ protoMessages ordinal f,
        (enumerator dir "ePacketId" ("ID_" ++ msg.name)).isSome) →
      generate ordinal (fun _ => true) dir projects [] = some disk →
      ∀ p ∈ projects, ∀ f ∈ dir.descFiles, ∀ sh header,
        find disk (p.name, serviceTypeFile) = some (.serviceType sh) →
        find disk (p.name, handlerFile f.protoName) = some (.handler header) →
        ∀ packetId function, handlePacket dir sh header packetId = some function →
          handlePacketServiceType dir disk p.name sh packetId =
            .handle (className f.protoName) function) := by
  intro h
  have hmove := h (idDir "C2S_MOVE") packetConfig (idDisk "C2S_MOVE") (by decide) rfl
    ⟨"GameServer", "GameServer"⟩ (List.mem_cons_of_mem _ List.mem_cons_self) _
    (List.mem_cons_of_mem _ List.mem_cons_self) _ _ rfl rfl 0x0201 "HANDLE_C2S_MOVE" rfl
  exact absurd hmove (by decide)

end CppNetEngine.PacketGenerator
