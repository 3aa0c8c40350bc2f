import CppNetEngine.Generator.Descriptors

/-!
# Messages without options

`GenerateInitHandleString` and `GenerateMakeSendBufferFunction` skip a message without options.
`GenerateHandleFunctionDeclares` does not test for the null reference: such a message ends its loop,
so it is noticed unless the loop had nothing to do any more (`ignored_iff`). Where all three are
successful, they declare what they register (`collect_eq_declare`).
-/

namespace CppNetEngine.PacketGenerator

variable (rt : Runtime) (receiver sender : ERole) (protoName : String)

/-! ## Places -/

/-- A place for a message in a set of descriptors: its file is between others, and it is between
other messages there. -/
structure Place where
  front : List FileDescriptorProto
  name : String
  before : List DescriptorProto
  after : List DescriptorProto
  enumType : List EnumDescriptorProto
  back : List FileDescriptorProto

namespace Place

/-- The set. -/
def without (p : Place) : List FileDescriptorProto :=
  p.front ++ ⟨p.name, p.before ++ p.after, p.enumType⟩ :: p.back

/-- The set with a message without options added. -/
def withMessage (p : Place) (name : String) : List FileDescriptorProto :=
  p.front ++ ⟨p.name, p.before ++ ⟨name, none⟩ :: p.after, p.enumType⟩ :: p.back

/-- The messages that the loops come to before the place. -/
def preceding (p : Place) : List DescriptorProto := messages rt protoName p.front ++ p.before

/-- Those that they come to after it. -/
def following (p : Place) : List DescriptorProto := p.after ++ messages rt protoName p.back

/-- Adding a message without options there changes nothing. -/
def Ignored (p : Place) (name : String) : Prop :=
  generateInitHandleString rt receiver sender protoName (some (p.withMessage name)) =
    generateInitHandleString rt receiver sender protoName (some p.without) ∧
  generateHandleFunctionDeclares rt receiver sender protoName (some (p.withMessage name)) =
    generateHandleFunctionDeclares rt receiver sender protoName (some p.without) ∧
  generateMakeSendBufferFunction rt receiver sender protoName (some (p.withMessage name)) =
    generateMakeSendBufferFunction rt receiver sender protoName (some p.without)

/-- The loops do not come to the place, or one without options is before it, or the first one
without options behind it is behind no message that is declared. -/
def Idle (p : Place) : Prop :=
  rt.endsWith p.name protoName = false ∨
  (∃ msg ∈ p.preceding rt protoName, msg.options = none) ∨
  ∃ skipped msg rest, p.following rt protoName = skipped ++ msg :: rest ∧ msg.options = none ∧
    ∀ m ∈ skipped, ∃ options, m.options = some options ∧ accepts receiver sender options = false

variable {rt protoName} {p : Place}

theorem messages_without (h : rt.endsWith p.name protoName = true) :
    messages rt protoName p.without = p.preceding rt protoName ++ p.following rt protoName := by
  simp [messages, without, preceding, following, h]

theorem messages_withMessage (h : rt.endsWith p.name protoName = true) (name : String) :
    messages rt protoName (p.withMessage name) =
      p.preceding rt protoName ++ ⟨name, none⟩ :: p.following rt protoName := by
  simp [messages, withMessage, preceding, following, h]

theorem messages_other (h : rt.endsWith p.name protoName = false) (name : String) :
    messages rt protoName (p.withMessage name) = messages rt protoName p.without := by
  simp [messages, withMessage, without, h]

end Place

/-! ## The loops -/

theorem collect_without {β : Type} (wanted : MessageOptions → Bool) (format : String → β)
    (l l' : List DescriptorProto) (name : String) :
    collect wanted format (l ++ ⟨name, none⟩ :: l') = collect wanted format (l ++ l') := by
  rw [collect_eq, collect_eq, List.filter_append, List.filter_append]
  rfl

variable {receiver sender}

/-- The second part of the messages is declared if the first one does not end the loop. -/
theorem declare_append (l l' : List DescriptorProto) :
    declare receiver sender (l ++ l') =
      if (declare receiver sender l).1 then
        ((declare receiver sender l').1,
          (declare receiver sender l).2 ++ (declare receiver sender l').2)
      else declare receiver sender l := by
  induction l with
  | nil => rfl
  | cons msg l ih =>
    rw [List.cons_append, declare, declare]
    cases msg.options with
    | none => rfl
    | some options =>
      by_cases hw : accepts receiver sender options
      · simp only [hw, if_true, ih]
        split <;> rfl
      · simp only [hw, Bool.false_eq_true, if_false, ih]

/-- A message without options ends the loop. -/
theorem declare_fst_iff (l : List DescriptorProto) :
    (declare receiver sender l).1 = false ↔ ∃ msg ∈ l, msg.options = none := by
  induction l with
  | nil => simp [declare]
  | cons msg l ih =>
    rw [declare]
    cases h : msg.options with
    | none => simp [h]
    | some options =>
      by_cases hw : accepts receiver sender options
      · simp [hw, ih, h]
      · simp [hw, ih, h]

theorem declare_nothing_iff (l : List DescriptorProto) :
    declare receiver sender l = (false, []) ↔ ∃ skipped msg rest, l = skipped ++ msg :: rest ∧
      msg.options = none ∧ ∀ m ∈ skipped, ∃ options, m.options = some options ∧
        accepts receiver sender options = false := by
  constructor
  · intro h
    induction l with
    | nil => cases h
    | cons msg l ih =>
      rw [declare] at h
      cases hmsg : msg.options with
      | none => exact ⟨[], msg, l, rfl, hmsg, fun _ hm => absurd hm List.not_mem_nil⟩
      | some options =>
        rw [hmsg] at h
        by_cases hw : accepts receiver sender options
        · simp [hw] at h
        · simp only [hw, Bool.false_eq_true, if_false] at h
          obtain ⟨skipped, last, rest, rfl, hlast, hskipped⟩ := ih h
          refine ⟨msg :: skipped, last, rest, rfl, hlast, fun m hm => ?_⟩
          rcases List.mem_cons.1 hm with rfl | hm
          · exact ⟨options, hmsg, Bool.eq_false_iff.2 hw⟩
          · exact hskipped m hm
  · rintro ⟨skipped, msg, rest, rfl, hmsg, hskipped⟩
    induction skipped with
    | nil => rw [List.nil_append, declare, hmsg]
    | cons m skipped ih =>
      obtain ⟨options, hoptions, hw⟩ := hskipped m List.mem_cons_self
      rw [List.cons_append, declare, hoptions]
      simp only [hw, Bool.false_eq_true, if_false]
      exact ih fun x hx => hskipped x (List.mem_cons_of_mem m hx)

/-- When a message without options is not noticed. -/
theorem declare_without_iff (l l' : List DescriptorProto) (name : String) :
    declare receiver sender (l ++ ⟨name, none⟩ :: l') = declare receiver sender (l ++ l') ↔
      (declare receiver sender l).1 = false ∨ declare receiver sender l' = (false, []) := by
  rw [declare_append, declare_append]
  by_cases hl : (declare receiver sender l).1 = true
  · rw [if_pos hl, if_pos hl, hl, declare]
    simp only [List.append_nil, Prod.mk.injEq, Bool.true_eq_false, false_or]
    constructor
    · rintro ⟨hfst, hsnd⟩
      exact Prod.ext hfst.symm (List.append_right_eq_self.1 hsnd.symm)
    · intro h
      rw [h]
      exact ⟨rfl, (List.append_nil _).symm⟩
  · rw [if_neg hl, if_neg hl]
    exact ⟨fun _ => .inl (Bool.eq_false_iff.2 hl), fun _ => rfl⟩

theorem collect_eq_declare {β : Type} (format : String → β) (l : List DescriptorProto)
    (h : (declare receiver sender l).1 = true) :
    collect (accepts receiver sender) format l = (declare receiver sender l).2.map format := by
  induction l with
  | nil => rfl
  | cons msg l ih =>
    rw [declare] at h ⊢
    rw [collect]
    cases hmsg : msg.options with
    | none =>
      rw [hmsg] at h
      cases h
    | some options =>
      rw [hmsg] at h
      by_cases hw : accepts receiver sender options
      · simp only [hw, if_true] at h ⊢
        rw [ih h, List.map_cons]
      · simp only [hw, Bool.false_eq_true, if_false] at h ⊢
        exact ih h

/-- **When a message without options is ignored.** Adding one changes nothing in the results of the
three functions exactly if its place is idle, whatever the roles are; and in every set in which all
three are successful the handlers that are declared are those that are registered. -/
theorem ignored_iff (rt : Runtime) (receiver sender : ERole) (protoName : String) :
    (∀ (p : Place) (name : String),
      p.Ignored rt receiver sender protoName name ↔ p.Idle rt receiver sender protoName) ∧
    ∀ descriptorSet : Option (List FileDescriptorProto),
      (generateInitHandleString rt receiver sender protoName descriptorSet).1 = true →
      (generateHandleFunctionDeclares rt receiver sender protoName descriptorSet).1 = true →
      (generateMakeSendBufferFunction rt receiver sender protoName descriptorSet).1 = true →
      (generateInitHandleString rt receiver sender protoName descriptorSet).2.map Prod.snd =
        (generateHandleFunctionDeclares rt receiver sender protoName descriptorSet).2 := by
  refine ⟨fun p name => ?_, fun descriptorSet _ hdeclares _ => ?_⟩
  · unfold Place.Ignored Place.Idle generateInitHandleString generateHandleFunctionDeclares
      generateMakeSendBufferFunction
    cases hname : rt.endsWith p.name protoName with
    | false => simp [Place.messages_other hname]
    | true =>
      simp only [Place.messages_without hname, Place.messages_withMessage hname, collect_without,
        true_and, and_true, Bool.true_eq_false, false_or]
      rw [declare_without_iff, declare_fst_iff, declare_nothing_iff]
  · cases descriptorSet with
    | none => cases hdeclares
    | some file =>
      have hcollect := collect_eq_declare
        (fun packetName => ("ID_" ++ packetName, packetName)) _ hdeclares
      unfold generateInitHandleString generateHandleFunctionDeclares
      simp only [hcollect, List.map_map]
      exact List.map_id _

/-- One proto, in which a message without options stands between two others. -/
def betweenRouted : Place :=
  { front := []
    name := "Login.proto"
    before := [⟨"C2S_LOGIN_REQ", some ⟨some .client, some .gameServer⟩⟩]
    after := [⟨"S2C_LOGIN_RES", some ⟨some .gameServer, some .client⟩⟩]
    enumType := []
    back := [] }

theorem ignored_iff_routed :
    (generateInitHandleString ordinal .gameServer .client "Login.proto"
      (some betweenRouted.without)).2.map Prod.snd =
    (generateHandleFunctionDeclares ordinal .gameServer .client "Login.proto"
      (some betweenRouted.without)).2 :=
  (ignored_iff ordinal .gameServer .client "Login.proto").2 (some betweenRouted.without) rfl
    (by decide) rfl

/-- The loop over the messages has begun, and ends with a null reference. -/
theorem not_ignored_between :
    ¬ (∀ (p : Place) (name : String),
      p.Ignored ordinal .gameServer .client "Login.proto" name) := by
  intro h
  have hdeclares := (h betweenRouted "PING").2.1
  exact absurd (congrArg Prod.fst hdeclares) (by decide)

end CppNetEngine.PacketGenerator
