import CppNetEngine.Generator.Proof.Written

/-!
# Which messages get a handler

The last pair of projects writes the headers that stay, and its filter keeps a message of which one
role is right. So a project handles exactly the messages that come to it if no message is routed by
half: to the project from nobody, or from its last sender to somebody else (`matchesRoutes_iff`).
-/

namespace CppNetEngine.PacketGenerator

open Assignments

variable (rt : Runtime)

/-- The role of a project that has a valid one. -/
def roleOf (p : ProjectConfig) : ERole := (rt.tryParse p.role).getD .roleNone

def others (projects : List ProjectConfig) (p : ProjectConfig) : List ProjectConfig :=
  projects.filter (·.name ≠ p.name)

/-- The message comes to the project from another one. -/
def routed (projects : List ProjectConfig) (p : ProjectConfig) (msg : DescriptorProto) : Bool :=
  msg.options.any fun options =>
    options.getReceiver = roleOf rt p &&
      (others projects p).any (options.getSender = roleOf rt ·)

/-- Each project that has another one registers a handler for exactly the messages that come to
it. -/
def MatchesRoutes (dir : ProtoDir) (projects : List ProjectConfig) (disk : Disk) : Prop :=
  ∀ p ∈ projects, others projects p ≠ [] → ∀ f ∈ dir.descFiles, isShared f.protoName = false →
    ∃ h, find disk (p.name, handlerFile f.protoName) = some (.handler h) ∧
      h.initHandle = ((protoMessages rt f).filter (routed rt projects p)).map fun msg =>
        ("ID_" ++ msg.name, msg.name)

/-- A message that is received by the role of a project is sent by the role of another one; one that
is sent by the role of the last other project is received by that of the project. -/
def WholeRoutes (dir : ProtoDir) (projects : List ProjectConfig) : Prop :=
  ∀ p ∈ projects, ∀ last, (others projects p).getLast? = some last →
    ∀ f ∈ dir.descFiles, isShared f.protoName = false →
    ∀ msg ∈ protoMessages rt f, ∀ options, msg.options = some options →
      (options.getReceiver = roleOf rt p →
        ∃ other ∈ others projects p, options.getSender = roleOf rt other) ∧
      (options.getSender = roleOf rt last → options.getReceiver = roleOf rt p)

/-- A filter that keeps no more than another one keeps as many if it keeps the same. -/
theorem map_filter_eq_iff {α β : Type} {p q : α → Bool} {l : List α}
    (hsub : ∀ a ∈ l, q a = true → p a = true) (f : α → β) :
    (l.filter p).map f = (l.filter q).map f ↔ ∀ a ∈ l, p a = true → q a = true := by
  constructor
  · intro h
    have hfilter : (l.filter p).filter q = l.filter q := by
      rw [List.filter_filter]
      refine List.filter_congr fun a ha => ?_
      cases hq : q a with
      | false => rfl
      | true => rw [hsub a ha hq]; rfl
    have hlength : (l.filter q).length = (l.filter p).length := by
      have := congrArg List.length h
      rw [List.length_map, List.length_map] at this
      exact this.symm
    have hsublist : (l.filter q).Sublist (l.filter p) := by
      rw [← hfilter]
      exact List.filter_sublist
    have heq := hsublist.eq_of_length hlength
    intro a ha hp
    have hmem : a ∈ l.filter q := by
      rw [heq]
      exact List.mem_filter.2 ⟨ha, hp⟩
    exact (List.mem_filter.1 hmem).2
  · intro h
    rw [List.filter_congr fun a ha => Bool.eq_iff_iff.2 ⟨h a ha, hsub a ha⟩]

variable {rt} {canWrite : Disk → Bool} {dir : ProtoDir} {projects : List ProjectConfig}
  {d disk : Disk}

theorem accepts_iff {receiver sender : ERole} {options : MessageOptions} :
    accepts receiver sender options = true ↔
      options.getReceiver = receiver ∨ options.getSender = sender := by
  simp [accepts, Classical.or_iff_not_imp_left]

/-- The header that stays is that of the project and the last other one. -/
theorem find_last (hnames : (projects.map (·.name)).Nodup)
    (hroles : ∀ p ∈ projects, (rt.tryParse p.role).isSome)
    (h : generate rt canWrite dir projects d = some disk) {p last : ProjectConfig}
    (hp : p ∈ projects) (hlast : (others projects p).getLast? = some last) {f : DescFile}
    (hf : f ∈ dir.descFiles) (hshared : isShared f.protoName = false) :
    find disk (p.name, handlerFile f.protoName) =
      some (.handler (handlerHeader rt (roleOf rt p) (roleOf rt last) f)) := by
  have hrole {q : ProjectConfig} (hq : q ∈ projects) : rt.tryParse q.role = some (roleOf rt q) := by
    obtain ⟨role, hrole⟩ := Option.isSome_iff_exists.1 (hroles q hq)
    rw [roleOf, hrole]
    rfl
  obtain ⟨hmem, hother⟩ := List.mem_filter.1 (List.mem_of_getLast? hlast)
  have hfirst : (projects.filter (·.name = p.name)).getLast? = some p := by
    rw [filter_key_mem hnames hp]
    rfl
  refine find_generate h hfirst hlast ?_
  exact find_handler (Ne.symm (of_decide_eq_true hother)) (hrole hp) (hrole hmem) hf hshared

theorem routed_iff {p : ProjectConfig} {msg : DescriptorProto} {options : MessageOptions}
    (h : msg.options = some options) : routed rt projects p msg = true ↔
      options.getReceiver = roleOf rt p ∧
        ∃ other ∈ others projects p, options.getSender = roleOf rt other := by
  simp [routed, h]

/-- One header registers what comes to its project if no message of its proto is routed by half. -/
theorem registers_iff (p last : ProjectConfig) (f : DescFile) :
    (handlerHeader rt (roleOf rt p) (roleOf rt last) f).initHandle =
      ((protoMessages rt f).filter (routed rt projects p)).map
        (fun msg => ("ID_" ++ msg.name, msg.name)) ↔
    ∀ msg ∈ protoMessages rt f, ∀ options, msg.options = some options →
      (options.getReceiver = roleOf rt p →
        ∃ other ∈ others projects p, options.getSender = roleOf rt other) ∧
      (options.getSender = roleOf rt last → options.getReceiver = roleOf rt p) := by
  rw [initHandle_eq, collect_eq, map_filter_eq_iff]
  · constructor
    · intro h msg hmsg options hoptions
      have hkept (hone : options.getReceiver = roleOf rt p ∨ options.getSender = roleOf rt last) :=
        (routed_iff hoptions).1 (h msg hmsg (by simp [hoptions, accepts_iff, hone]))
      exact ⟨fun hr => (hkept (.inl hr)).2, fun hs => (hkept (.inr hs)).1⟩
    · intro h msg hmsg hkept
      obtain ⟨options, hoptions, haccepts⟩ := (Option.any_eq_true _ _).1 hkept
      obtain ⟨hfrom, hto⟩ := h msg hmsg options hoptions
      rw [routed_iff hoptions]
      rcases accepts_iff.1 haccepts with hr | hs
      · exact ⟨hr, hfrom hr⟩
      · exact ⟨hto hs, hfrom (hto hs)⟩
  · intro msg _ hrouted
    obtain ⟨options, hoptions, -⟩ := (Option.any_eq_true _ _).1 hrouted
    have hreceiver := ((routed_iff hoptions).1 hrouted).1
    exact (Option.any_eq_true _ _).2 ⟨options, hoptions, accepts_iff.2 (.inl hreceiver)⟩

/-- **When the handlers match the routes.** For all projects with different names and valid roles,
in any order, and all descriptors for which `Generate` is successful, the headers in the end register
exactly the messages that come to the project if and only if no message is routed by half. -/
theorem matchesRoutes_iff (hnames : (projects.map (·.name)).Nodup)
    (hroles : ∀ p ∈ projects, (rt.tryParse p.role).isSome)
    (h : generate rt canWrite dir projects d = some disk) :
    MatchesRoutes rt dir projects disk ↔ WholeRoutes rt dir projects := by
  constructor
  · intro hmatches p hp last hlast f hf hshared
    have hne : others projects p ≠ [] := by
      rintro hnil
      rw [hnil] at hlast
      cases hlast
    obtain ⟨header, hfind, hinit⟩ := hmatches p hp hne f hf hshared
    rw [find_last hnames hroles h hp hlast hf hshared] at hfind
    cases hfind
    exact (registers_iff p _ f).1 hinit
  · intro hwhole p hp hne f hf hshared
    have hlast := List.getLast?_eq_some_getLast hne
    exact ⟨_, find_last hnames hroles h hp hlast hf hshared,
      (registers_iff p _ f).2 (hwhole p hp _ hlast f hf hshared)⟩

/-! ## A few projects -/

/-- One proto with these messages. -/
def loginDir (messageType : List DescriptorProto) : ProtoDir :=
  { descFiles := [⟨"Login", some [⟨"Login.proto", messageType, []⟩]⟩]
    nodup := by simp }

/-- A request, the reply to it, and a message without roles that the reply contains. -/
def loginMessages : List DescriptorProto :=
  [⟨"C2S_LOGIN_REQ", some ⟨some .client, some .gameServer⟩⟩,
    ⟨"S2C_LOGIN_RES", some ⟨some .gameServer, some .client⟩⟩, ⟨"ACCOUNT_INFO", some ⟨none, none⟩⟩]

def threeProjects : List ProjectConfig :=
  [⟨"DummyClient", "Client"⟩, ⟨"LoadTest", "Client"⟩, ⟨"GameServer", "GameServer"⟩]

/-- Two clients and a server have handlers for what the others send to them. -/
theorem matchesRoutes_iff_login : ∃ disk,
    generate ordinal (fun _ => true) (loginDir loginMessages) threeProjects [] = some disk ∧
    MatchesRoutes ordinal (loginDir loginMessages) threeProjects disk := by
  have hgenerate : generate ordinal (fun _ => true) (loginDir loginMessages) threeProjects [] =
      some _ := rfl
  refine ⟨_, hgenerate, (matchesRoutes_iff (by decide) (by decide) hgenerate).2 ?_⟩
  intro p hp last hlast f hf _ msg hmsg options hoptions
  obtain rfl : f = _ := List.mem_singleton.1 hf
  have hp : p ∈ threeProjects := hp
  have hmsg : msg ∈ loginMessages := hmsg
  simp only [threeProjects, loginMessages, List.mem_cons, List.not_mem_nil, or_false] at hp hmsg
  rcases hp with rfl | rfl | rfl <;> cases hlast <;> rcases hmsg with rfl | rfl | rfl <;>
    cases hoptions <;> refine ⟨?_, ?_⟩ <;> decide

/-- A message from a server to a server. -/
def betweenServers : DescriptorProto := ⟨"S2S_SYNC", some ⟨some .gameServer, some .gameServer⟩⟩

/-- What is generated from it. -/
def twoDisk (messageType : List DescriptorProto) : Disk :=
  (generate ordinal (fun _ => true) (loginDir messageType) packetConfig []).getD []

/-- The client has a handler for what a server sends to a server. -/
theorem not_matchesRoutes_betweenServers :
    ¬ (∀ (dir : ProtoDir) (projects : List ProjectConfig) (disk : Disk),
      (projects.map (·.name)).Nodup → (∀ p ∈ projects, (ordinal.tryParse p.role).isSome) →
      generate ordinal (fun _ => true) dir projects [] = some disk →
      MatchesRoutes ordinal dir projects disk) := by
  intro h
  have hmatches := h (loginDir [betweenServers]) packetConfig (twoDisk [betweenServers]) (by decide)
    (by decide) rfl
  obtain ⟨header, hfind, hinit⟩ := hmatches ⟨"DummyClient", "Client"⟩ List.mem_cons_self
    (by decide) _ List.mem_cons_self rfl
  have hclient : find (twoDisk [betweenServers]) ("DummyClient", handlerFile "Login") =
      some (.handler (handlerHeader ordinal .client .gameServer
        ⟨"Login", some [⟨"Login.proto", [betweenServers], []⟩]⟩)) := rfl
  rw [hclient] at hfind
  cases hfind
  exact absurd hinit (by decide)

end CppNetEngine.PacketGenerator
