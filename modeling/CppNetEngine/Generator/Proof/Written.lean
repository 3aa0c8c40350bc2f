import CppNetEngine.Generator.Generate

/-!
# What is on the disk in the end

Where `Generate` is successful, it has written the headers of each project once for each other
project, one after the other (`generate_disk`). So the handlers of a project are those of its last
pair, and its service types are the same for every pair (`find_handler`, `find_serviceType`).
-/

namespace CppNetEngine.PacketGenerator

open Assignments

variable {rt : Runtime} {canWrite : Disk → Bool} {dir : ProtoDir}

/-! ## Headers -/

/-- The messages of a proto that stands in `f`. -/
def protoMessages (rt : Runtime) (f : DescFile) : List DescriptorProto :=
  messages rt (f.protoName ++ ".proto") (f.descriptorSet.getD [])

/-- The header of a proto for two roles. -/
def handlerHeader (rt : Runtime) (receiver sender : ERole) (f : DescFile) : HandlerHeader :=
  let protoFile := f.protoName ++ ".proto"
  { protoName := f.protoName
    initHandle := (generateInitHandleString rt receiver sender protoFile f.descriptorSet).2
    handleFunctionDeclare :=
      (generateHandleFunctionDeclares rt receiver sender protoFile f.descriptorSet).2
    makeSendBufferFunction :=
      (generateMakeSendBufferFunction rt receiver sender protoFile f.descriptorSet).2 }

theorem initHandle_eq (rt : Runtime) (receiver sender : ERole) (f : DescFile) :
    (handlerHeader rt receiver sender f).initHandle =
      collect (accepts receiver sender) (fun packetName => ("ID_" ++ packetName, packetName))
        (protoMessages rt f) := by
  unfold handlerHeader generateInitHandleString protoMessages
  cases f.descriptorSet with
  | none => rfl
  | some file => rfl

/-- The protos that have a header. -/
def handled (dir : ProtoDir) : List String :=
  (dir.descFiles.map (·.protoName)).filter (!isShared ·)

def serviceTypeHeader (dir : ProtoDir) : ServiceTypeHeader :=
  ⟨handled dir, handled dir, handlerNames (packetIdFile dir)⟩

/-! ## Writes -/

def handlerWrites (rt : Runtime) (receiver sender : ERole) (output : String) (f : DescFile) :
    Disk :=
  if isShared f.protoName then []
  else [((output, handlerFile f.protoName), .handler (handlerHeader rt receiver sender f))]

/-- What is written for a pair of projects. -/
def pairWrites (rt : Runtime) (dir : ProtoDir) (projectReceiver projectSender : ProjectConfig) :
    Disk :=
  if projectReceiver.name = projectSender.name then []
  else
    match rt.tryParse projectReceiver.role, rt.tryParse projectSender.role with
    | some receiver, some sender =>
      dir.descFiles.flatMap (handlerWrites rt receiver sender projectReceiver.name) ++
        [((projectReceiver.name, serviceTypeFile), .serviceType (serviceTypeHeader dir))]
    | _, _ => []

theorem writeAllText_disk {path : Path} {content : Header} {d d' : Disk}
    (h : writeAllText canWrite path content d = some d') : d' = d ++ [(path, content)] := by
  unfold writeAllText at h
  split at h
  · exact (Option.some.inj h).symm
  · cases h

theorem generateHandlerFile_disk {receiver sender : ERole} {output : String} {d d' : Disk}
    (h : generateHandlerFile rt canWrite receiver sender dir output d = some d') :
    d' = d ++ dir.descFiles.flatMap (handlerWrites rt receiver sender output) := by
  unfold generateHandlerFile at h
  split at h
  · cases h
  · refine foldlM_append (fun f _ d d' hf => ?_) h
    unfold generateHandler at hf
    unfold handlerWrites
    split at hf
    · rename_i hshared
      rw [if_pos hshared, List.append_nil]
      exact (Option.some.inj hf).symm
    · rename_i hshared
      rw [if_neg hshared]
      simp only at hf
      split at hf
      · exact writeAllText_disk hf
      · cases hf

theorem addProto_foldlM {l : List DescFile} : ∀ {h h' : ServiceTypeHeader},
    l.foldlM addProto h = some h' → h' =
      ⟨h.includes ++ (l.map (·.protoName)).filter (!isShared ·),
        h.initHandler ++ (l.map (·.protoName)).filter (!isShared ·),
        h.handleInit ++ (l.filter (·.protoName = "PacketId")).flatMap
          fun f => handlerNames (f.descriptorSet.getD [])⟩ := by
  induction l with
  | nil =>
    intro h h' hl
    cases hl
    simp
  | cons f l ih =>
    intro h h' hl
    rw [List.foldlM_cons] at hl
    obtain ⟨h1, hf, hrest⟩ := Option.bind_eq_some_iff.1 hl
    rw [ih hrest]
    unfold addProto at hf
    by_cases hbase : f.protoName = "Enum" ∨ f.protoName = "Struct"
    · have hshared : isShared f.protoName = true := by
        rcases hbase with hbase | hbase <;> rw [hbase] <;> rfl
      have hother : f.protoName ≠ "PacketId" := by
        rcases hbase with hbase | hbase <;> rw [hbase] <;> decide
      rw [if_pos hbase] at hf
      cases hf
      simp [hshared, hother]
    · rw [if_neg hbase] at hf
      by_cases hids : f.protoName = "PacketId"
      · rw [if_pos hids] at hf
        obtain ⟨handleInit, hinit, rfl⟩ := Option.map_eq_some_iff.1 hf
        obtain ⟨file, hfile, rfl⟩ := Option.map_eq_some_iff.1 hinit
        simp [hids, hfile, isShared]
      · have hshared : isShared f.protoName = false := by
          simp [isShared, hids, not_or.1 hbase]
        rw [if_neg hids] at hf
        cases hf
        simp [hshared, hids]

theorem generateServiceTypeHandlerFile_disk {receiver sender : ERole} {output : String}
    {d d' : Disk}
    (h : generateServiceTypeHandlerFile canWrite receiver sender dir output d = some d') :
    d' = d ++ [((output, serviceTypeFile), .serviceType (serviceTypeHeader dir))] := by
  unfold generateServiceTypeHandlerFile at h
  split at h
  · cases h
  · obtain ⟨header, hheader, hwrite⟩ := Option.bind_eq_some_iff.1 h
    rw [writeAllText_disk hwrite, addProto_foldlM hheader, filter_key dir.nodup]
    unfold serviceTypeHeader packetIdFile
    cases dir.descFiles.find? (·.protoName = "PacketId") with
    | none => rfl
    | some f => simp [handled]

theorem generatePair_disk {projectReceiver projectSender : ProjectConfig} {d d' : Disk}
    (h : generatePair rt canWrite dir projectReceiver d projectSender = some d') :
    d' = d ++ pairWrites rt dir projectReceiver projectSender := by
  unfold generatePair at h
  unfold pairWrites
  split at h
  · rename_i hsame
    rw [if_pos hsame, List.append_nil]
    exact (Option.some.inj h).symm
  · rename_i hother
    rw [if_neg hother]
    cases hreceiver : rt.tryParse projectReceiver.role with
    | none => simp [hreceiver] at h
    | some receiver =>
      cases hsender : rt.tryParse projectSender.role with
      | none => simp [hreceiver, hsender] at h
      | some sender =>
        simp only [hreceiver, hsender] at h ⊢
        obtain ⟨d1, hhandlers, hservice⟩ := Option.bind_eq_some_iff.1 h
        rw [generateServiceTypeHandlerFile_disk hservice, generateHandlerFile_disk hhandlers,
          List.append_assoc]

/-- **What `Generate` writes.** -/
theorem generate_disk {projects : List ProjectConfig} {d d' : Disk}
    (h : generate rt canWrite dir projects d = some d') :
    d' = d ++ projects.flatMap fun projectReceiver =>
      projects.flatMap (pairWrites rt dir projectReceiver) :=
  foldlM_append (fun _ _ _ _ hpass => foldlM_append (fun _ _ _ _ hpair =>
    generatePair_disk hpair) hpass) h

theorem generate_roles {projects : List ProjectConfig} {d d' : Disk}
    (h : generate rt canWrite dir projects d = some d') {projectReceiver projectSender : ProjectConfig}
    (hreceiver : projectReceiver ∈ projects) (hsender : projectSender ∈ projects)
    (hname : projectReceiver.name ≠ projectSender.name) : ∃ receiver sender,
      rt.tryParse projectReceiver.role = some receiver ∧
      rt.tryParse projectSender.role = some sender := by
  obtain ⟨d1, d2, hpass⟩ := foldlM_step h projectReceiver hreceiver
  obtain ⟨d3, d4, hpair⟩ := foldlM_step hpass projectSender hsender
  unfold generatePair at hpair
  rw [if_neg hname] at hpair
  split at hpair
  · rename_i receiver sender hr hs
    exact ⟨receiver, sender, hr, hs⟩
  · cases hpair

/-! ## Files -/

theorem handlerFile_injective {p q : String} (h : handlerFile p = handlerFile q) : p = q :=
  (String.append_left_inj _).1 ((String.append_left_inj _).1 h)

theorem handlerFile_ne (p : String) : handlerFile p ≠ serviceTypeFile := by
  intro h
  have hlist := congrArg (fun s : String => s.toList.reverse[10]?) h
  simp [handlerFile, className, serviceTypeFile] at hlist

/-- The headers of the protos are in files of their own. -/
theorem find_handlerWrites {f : DescFile} (hf : f ∈ dir.descFiles)
    (hshared : isShared f.protoName = false) (receiver sender : ERole) (output : String) :
    find (dir.descFiles.flatMap (handlerWrites rt receiver sender output))
      (output, handlerFile f.protoName) = some (.handler (handlerHeader rt receiver sender f)) := by
  rw [find_flatMap_filter (p := (·.protoName = f.protoName)), filter_key_mem dir.nodup hf]
  · simp [handlerWrites, hshared, find]
  · intro g _ hg
    unfold handlerWrites
    split
    · rfl
    · have hne : handlerFile g.protoName ≠ handlerFile f.protoName :=
        fun heq => of_decide_eq_false hg (handlerFile_injective heq)
      simp [find, hne]

/-- A pair writes to the directory of the receiver, if it is one. -/
theorem find_pairWrites_other {projectReceiver projectSender : ProjectConfig} {path : Path}
    (h : projectReceiver.name ≠ path.1 ∨ projectReceiver.name = projectSender.name) :
    find (pairWrites rt dir projectReceiver projectSender) path = none := by
  rw [find_eq_none_iff]
  intro content hmem
  unfold pairWrites at hmem
  split at hmem
  · exact absurd hmem List.not_mem_nil
  · rename_i hother
    have hname := h.resolve_right hother
    split at hmem
    · rcases List.mem_append.1 hmem with hmem | hmem
      · obtain ⟨f, -, hf⟩ := List.mem_flatMap.1 hmem
        unfold handlerWrites at hf
        split at hf
        · exact absurd hf List.not_mem_nil
        · exact hname (congrArg (·.1.1) (List.mem_singleton.1 hf)).symm
      · exact hname (congrArg (·.1.1) (List.mem_singleton.1 hmem)).symm
    · exact absurd hmem List.not_mem_nil

/-- **The last pair counts.** What is in the directory of a project in the end was written for the
last project of its name and the last one of another name. -/
theorem find_generate {projects : List ProjectConfig} {d d' : Disk}
    (h : generate rt canWrite dir projects d = some d') {path : Path}
    {projectReceiver projectSender : ProjectConfig} {content : Header}
    (hreceiver : (projects.filter (·.name = path.1)).getLast? = some projectReceiver)
    (hsender : (projects.filter (·.name ≠ path.1)).getLast? = some projectSender)
    (hpair : find (pairWrites rt dir projectReceiver projectSender) path = some content) :
    find d' path = some content := by
  have hname : projectReceiver.name = path.1 :=
    of_decide_eq_true (List.mem_filter.1 (List.mem_of_getLast? hreceiver)).2
  rw [generate_disk h, find_append, find_flatMap_filter (p := (·.name = path.1))]
  · rw [find_flatMap_last hreceiver]
    · rfl
    · rw [find_flatMap_filter (p := (·.name ≠ path.1))]
      · exact find_flatMap_last hsender hpair
      · intro sender _ hs
        refine find_pairWrites_other (.inr ?_)
        rw [hname]
        exact (not_not.1 (of_decide_eq_false hs)).symm
  · intro receiver _ hr
    rw [find_eq_none_iff]
    intro content' hmem
    obtain ⟨sender, -, hs⟩ := List.mem_flatMap.1 hmem
    exact find_eq_none_iff.1 (find_pairWrites_other (.inl (of_decide_eq_false hr))) content' hs

section Pair

variable {projectReceiver projectSender : ProjectConfig} {receiver sender : ERole}
  (hname : projectReceiver.name ≠ projectSender.name)
  (hreceiver : rt.tryParse projectReceiver.role = some receiver)
  (hsender : rt.tryParse projectSender.role = some sender)

include hname hreceiver hsender

theorem find_handler {f : DescFile} (hf : f ∈ dir.descFiles)
    (hshared : isShared f.protoName = false) :
    find (pairWrites rt dir projectReceiver projectSender)
        (projectReceiver.name, handlerFile f.protoName) =
      some (.handler (handlerHeader rt receiver sender f)) := by
  unfold pairWrites
  rw [if_neg hname, hreceiver, hsender]
  simp only
  rw [find_append, find_handlerWrites hf hshared]
  simp [find, (handlerFile_ne f.protoName).symm]

theorem find_serviceType :
    find (pairWrites rt dir projectReceiver projectSender)
        (projectReceiver.name, serviceTypeFile) =
      some (.serviceType (serviceTypeHeader dir)) := by
  unfold pairWrites
  rw [if_neg hname, hreceiver, hsender]
  simp only
  rw [find_append]
  simp [find]

end Pair

end CppNetEngine.PacketGenerator
