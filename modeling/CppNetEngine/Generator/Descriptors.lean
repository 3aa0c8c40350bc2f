import Mathlib.Data.List.Basic

/-!
# Descriptors, and what is generated from one proto

The descriptors that `protoc` writes, with the options of `PacketId.proto`, and the three functions
of `PacketHandlerGenerator` that go through the messages of a proto: `GenerateInitHandleString`,
`GenerateHandleFunctionDeclares` and `GenerateMakeSendBufferFunction`. They return whether they were
successful (an exception is caught) and a string; here it is the list of the arguments that the
format strings of `PacketFormatter` were applied to.
-/

namespace CppNetEngine.PacketGenerator

/-! ## Descriptors -/

/-- `eRole`, an open enumeration: it may have values without a name. -/
structure ERole where
  value : Int32
  deriving DecidableEq

namespace ERole

def roleNone : ERole := ⟨0⟩
def client : ERole := ⟨1⟩
def gameServer : ERole := ⟨2⟩

end ERole

/-- The options of a message: its extensions `sender` and `receiver`, where they are set. -/
structure MessageOptions where
  sender : Option ERole
  receiver : Option ERole

namespace MessageOptions

/-- `GetExtension(PacketIdExtensions.Sender)`. -/
def getSender (o : MessageOptions) : ERole := o.sender.getD .roleNone

/-- `GetExtension(PacketIdExtensions.Receiver)`. -/
def getReceiver (o : MessageOptions) : ERole := o.receiver.getD .roleNone

end MessageOptions

structure DescriptorProto where
  name : String
  /-- Null where the message has no options. -/
  options : Option MessageOptions

/-- The options of an enumerator: its extension `handler_name`, where it is set. -/
structure EnumValueOptions where
  handlerName : Option String

structure EnumValueDescriptorProto where
  name : String
  number : Int32
  options : Option EnumValueOptions

structure EnumDescriptorProto where
  name : String
  value : List EnumValueDescriptorProto

structure FileDescriptorProto where
  name : String
  messageType : List DescriptorProto
  enumType : List EnumDescriptorProto

/-- What the runtime answers: `string.EndsWith`, which goes by the culture, and
`Enum.TryParse<eRole>` of a text, where case is ignored. -/
structure Runtime where
  endsWith : String → String → Bool
  tryParse : String → Option ERole

/-- A runtime with an ordinal comparison, which knows two roles by their names. -/
def ordinal : Runtime where
  endsWith name protoName := decide (protoName.toList <:+ name.toList)
  tryParse role :=
    if role = "Client" then some .client
    else if role = "GameServer" then some .gameServer
    else none

/-! ## One proto -/

section Proto

variable (rt : Runtime) (receiver sender : ERole) (protoName : String)

/-- The messages that the loops come to: those of the files whose name ends with `protoName`. -/
def messages (file : List FileDescriptorProto) : List DescriptorProto :=
  (file.filter (rt.endsWith ·.name protoName)).flatMap (·.messageType)

/-- The filter of the three functions does not skip the message. -/
def accepts (options : MessageOptions) : Bool :=
  !(options.getReceiver != receiver && options.getSender != sender)

/-- The loop that skips messages without options, and those that `wanted` does not want. -/
def collect {β : Type} (wanted : MessageOptions → Bool) (format : String → β) :
    List DescriptorProto → List β
  | [] => []
  | msg :: rest =>
    match msg.options with
    | none => collect wanted format rest
    | some options =>
      if wanted options then format msg.name :: collect wanted format rest
      else collect wanted format rest

theorem collect_eq {β : Type} (wanted : MessageOptions → Bool) (format : String → β)
    (l : List DescriptorProto) :
    collect wanted format l = (l.filter (·.options.any wanted)).map (format ·.name) := by
  induction l with
  | nil => rfl
  | cons msg l ih =>
    rw [collect, List.filter_cons]
    cases msg.options with
    | none => exact ih
    | some options =>
      by_cases hw : wanted options
      · simp [hw, ih]
      · simp [hw, ih]

/-- The arguments of `HANDLE_INIT_FORMAT`. No set: the file cannot be opened or parsed. -/
def generateInitHandleString (descriptorSet : Option (List FileDescriptorProto)) :
    Bool × List (String × String) :=
  match descriptorSet with
  | none => (false, [])
  | some file =>
    (true, collect (accepts receiver sender) (fun packetName => ("ID_" ++ packetName, packetName))
      (messages rt protoName file))

/-- The loop of `GenerateHandleFunctionDeclares`: it reads the options of each message, and a null
reference ends it. -/
def declare : List DescriptorProto → Bool × List String
  | [] => (true, [])
  | msg :: rest =>
    match msg.options with
    | none => (false, [])
    | some options =>
      if accepts receiver sender options then
        let r := declare rest
        (r.1, msg.name :: r.2)
      else declare rest

/-- The arguments of `HANDLE_DECLARE_FORMAT`. -/
def generateHandleFunctionDeclares (descriptorSet : Option (List FileDescriptorProto)) :
    Bool × List String :=
  match descriptorSet with
  | none => (false, [])
  | some file => declare receiver sender (messages rt protoName file)

/-- The arguments of `MAKE_SEND_BUFFER_FORMAT`: the filter has the roles the other way round. -/
def generateMakeSendBufferFunction (descriptorSet : Option (List FileDescriptorProto)) :
    Bool × List (String × String) :=
  match descriptorSet with
  | none => (false, [])
  | some file =>
    (true, collect (accepts sender receiver) (fun packetName => (packetName, "ID_" ++ packetName))
      (messages rt protoName file))

end Proto

end CppNetEngine.PacketGenerator
