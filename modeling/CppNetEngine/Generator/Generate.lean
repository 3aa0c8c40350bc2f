import CppNetEngine.Generator.Descriptors
import CppNetEngine.Lib.Assignments

/-!
# Generating the packet handlers

`PacketHandlerGenerator.Generate`, which writes the headers of each receiving project once for each
sending one. A header is what its format string was applied to, and the disk is what was written to
it in this order. Without a result a function has returned false; what it has written then is left
out, and so are the messages on the console.
-/

namespace CppNetEngine.PacketGenerator

/-- A `.desc` file, by its name without the extension; it has no set of descriptors if it cannot be
opened or parsed. -/
structure DescFile where
  protoName : String
  descriptorSet : Option (List FileDescriptorProto)

/-- The directory of the protos; `GetFiles` lists its `.desc` files in some order. -/
structure ProtoDir where
  descFiles : List DescFile
  nodup : (descFiles.map (·.protoName)).Nodup

/-- `PacketId.desc`. -/
def packetIdFile (dir : ProtoDir) : List FileDescriptorProto :=
  ((dir.descFiles.find? (·.protoName = "PacketId")).bind (·.descriptorSet)).getD []

structure ProjectConfig where
  name : String
  role : String

/-- `PacketConfig.json`. -/
def packetConfig : List ProjectConfig := [⟨"DummyClient", "Client"⟩, ⟨"GameServer", "GameServer"⟩]

/-- What `HANDLE_FILE_FORMAT` was applied to. -/
structure HandlerHeader where
  protoName : String
  initHandle : List (String × String)
  handleFunctionDeclare : List String
  makeSendBufferFunction : List (String × String)
  deriving DecidableEq

/-- What `HANDLE_SERVICE_TYPE_FILE_FORMAT` was applied to: the arguments of
`SERVICE_TYPE_INCLUDE_FORMAT`, `SERVICE_TYPE_INIT_FORMAT` and `SERVICE_TYPE_HANDLE_INIT_FORMAT`. -/
structure ServiceTypeHeader where
  includes : List String
  initHandler : List String
  handleInit : List (String × String)
  deriving DecidableEq

inductive Header
  | handler (h : HandlerHeader)
  | serviceType (h : ServiceTypeHeader)
  deriving DecidableEq

/-- A file of the directory `Generated` of a project: each project has its own. -/
abbrev Path := String × String

/-- What was written. -/
abbrev Disk := Assignments Path Header

/-- `class {0}PacketHandler`. -/
def className (protoName : String) : String := protoName ++ "PacketHandler"

def handlerFile (protoName : String) : String := className protoName ++ ".h"

def serviceTypeFile : String := "PacketServiceTypeHandler.h"

/-- `protoName is "Enum" or "PacketId" or "Struct"`. -/
def isShared (protoName : String) : Bool :=
  protoName = "Enum" || protoName = "PacketId" || protoName = "Struct"

section Files

variable (rt : Runtime) (canWrite : Disk → Bool)

/-- `File.WriteAllText`, which throws for whatever reason. -/
def writeAllText (path : Path) (content : Header) (d : Disk) : Option Disk :=
  if canWrite d then some (d ++ [(path, content)]) else none

/-- `GenerateHandlerFile`: the body of the loop. -/
def generateHandler (receiver sender : ERole) (output : String) (d : Disk) (f : DescFile) :
    Option Disk :=
  if isShared f.protoName then some d
  else
    let protoFile := f.protoName ++ ".proto"
    let initHandle := generateInitHandleString rt receiver sender protoFile f.descriptorSet
    let declares := generateHandleFunctionDeclares rt receiver sender protoFile f.descriptorSet
    let makeSendBuffer :=
      generateMakeSendBufferFunction rt receiver sender protoFile f.descriptorSet
    if initHandle.1 && declares.1 && makeSendBuffer.1 then
      writeAllText canWrite (output, handlerFile f.protoName)
        (.handler ⟨f.protoName, initHandle.2, declares.2, makeSendBuffer.2⟩) d
    else none

def generateHandlerFile (receiver sender : ERole) (dir : ProtoDir) (output : String) (d : Disk) :
    Option Disk :=
  if dir.descFiles.isEmpty then none
  else dir.descFiles.foldlM (generateHandler rt canWrite receiver sender output) d

/-- The enumerators with a handler name, and their handler names. -/
def handlerNames (file : List FileDescriptorProto) : List (String × String) :=
  file.flatMap fun fileProto => fileProto.enumType.flatMap fun enumType =>
    enumType.value.filterMap fun enumValue =>
      (enumValue.options.bind (·.handlerName)).map (enumValue.name, ·)

def generateHandleInitString (descriptorSet : Option (List FileDescriptorProto))
    (handleInit : List (String × String)) : Option (List (String × String)) :=
  descriptorSet.map fun file => handleInit ++ handlerNames file

/-- `GenerateServiceTypeHandlerFile`: the body of the loop. -/
def addProto (h : ServiceTypeHeader) (f : DescFile) : Option ServiceTypeHeader :=
  if f.protoName = "Enum" ∨ f.protoName = "Struct" then some h
  else if f.protoName = "PacketId" then
    (generateHandleInitString f.descriptorSet h.handleInit).map fun handleInit =>
      { h with handleInit := handleInit }
  else
    some { h with
      includes := h.includes ++ [f.protoName]
      initHandler := h.initHandler ++ [f.protoName] }

def generateServiceTypeHandlerFile (_receiver _sender : ERole) (dir : ProtoDir) (output : String)
    (d : Disk) : Option Disk :=
  if dir.descFiles.isEmpty then none
  else
    (dir.descFiles.foldlM addProto ⟨[], [], []⟩).bind fun h =>
      writeAllText canWrite (output, serviceTypeFile) (.serviceType h) d

/-- `Generate`: the body of the inner loop. -/
def generatePair (dir : ProtoDir) (projectReceiver : ProjectConfig) (d : Disk)
    (projectSender : ProjectConfig) : Option Disk :=
  if projectReceiver.name = projectSender.name then some d
  else
    match rt.tryParse projectReceiver.role, rt.tryParse projectSender.role with
    | some receiver, some sender =>
      (generateHandlerFile rt canWrite receiver sender dir projectReceiver.name d).bind
        (generateServiceTypeHandlerFile canWrite receiver sender dir projectReceiver.name)
    | _, _ => none

def generate (dir : ProtoDir) (projects : List ProjectConfig) (d : Disk) : Option Disk :=
  projects.foldlM (fun d projectReceiver =>
    projects.foldlM (generatePair rt canWrite dir projectReceiver) d) d

end Files

end CppNetEngine.PacketGenerator
