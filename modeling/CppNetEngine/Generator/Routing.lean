import CppNetEngine.Generator.Generate

/-!
# Routing packets

What the generated headers of a project do with a packet: `PacketServiceTypeHandler::Init` fills the
maps, and `HandlePacketServiceType` looks up the service type of the packet's id and then the id. A
map is the list of the assignments in the text; what they name are enumerators of `PacketId.proto`
and the classes of the headers that are included.
-/

namespace CppNetEngine.PacketGenerator

open Assignments

/-- The value of an enumerator in `PacketId.pb.h`, if it has it. -/
def enumerator (dir : ProtoDir) (enumName name : String) : Option UInt32 :=
  (((packetIdFile dir).flatMap (·.enumType)).find? (·.name = enumName)).bind fun enumType =>
    (enumType.value.find? (·.name = name)).map (·.number.toUInt32)

/-- What becomes of a packet. -/
inductive Handled
  /-- `HANDLE_SERVICE_TYPE_INVALID`. -/
  | serviceTypeInvalid
  /-- `HANDLE_PACKET_ID_INVALID` of a class. -/
  | packetIdInvalid (handlerName : String)
  /-- A function of a class. -/
  | handle (handlerName function : String)
  /-- There is no such class: the header does not compile. -/
  | undeclared (handlerName : String)
  deriving DecidableEq

section Headers

variable (dir : ProtoDir) (disk : Disk) (output : String) (sh : ServiceTypeHeader)

/-- `sPacketHandleMap`, as `Init` of a class fills it. -/
def packetHandleMap (h : HandlerHeader) : Assignments UInt32 String :=
  h.initHandle.filterMap fun line =>
    (enumerator dir "ePacketId" line.1).map (·, "HANDLE_" ++ line.2)

/-- `HandlePacket` of a class whose `Init` was called or not. -/
def handlePacket (h : HandlerHeader) (packetId : UInt32) : Option String :=
  if h.protoName ∈ sh.initHandler then find (packetHandleMap dir h) packetId else none

/-- The assignment of a line to `sPacketServiceTypeMap`. -/
def serviceTypeEntry (line : String × String) : Option (UInt32 × String) :=
  (enumerator dir "eServiceType" line.1).map (·, line.2)

/-- `sPacketServiceTypeMap`. -/
def packetServiceTypeMap : Assignments UInt32 String :=
  sh.handleInit.filterMap (serviceTypeEntry dir)

/-- `GET_SERVICE_TYPE`. -/
def getServiceType (packetId : UInt32) : UInt16 := ((packetId >>> 16) &&& 0x0000FFFF).toUInt16

/-- The class of that name. -/
def handlerClass (handlerName : String) : Option HandlerHeader :=
  (sh.includes.find? (className · = handlerName)).bind fun protoName =>
    match find disk (output, handlerFile protoName) with
    | some (.handler h) => some h
    | _ => none

def handlePacketServiceType (packetId : UInt32) : Handled :=
  match find (packetServiceTypeMap dir sh) (getServiceType packetId).toUInt32 with
  | none => .serviceTypeInvalid
  | some handlerName =>
    match handlerClass disk output sh handlerName with
    | none => .undeclared handlerName
    | some h =>
      match handlePacket dir sh h packetId with
      | none => .packetIdInvalid handlerName
      | some function => .handle handlerName function

end Headers

end CppNetEngine.PacketGenerator
