import AaOS.Executor.Services

/-!
# The names of MCP tools

`connect_and_register` of `aaos-mcp/src/client/mod.rs` registers the tools of the servers under
names made of the name of the server and that of the tool, with dots between.  The registry of
`aaos-tools/src/registry.rs` has one tool for a name, the last one.  A dot may also be part of a
name, so that two pairs of names have the same registered name exactly when one of the two
servers is named by the other one, a dot and the beginning of a tool.
-/

open List

namespace Mcp

structure McpToolDefinition where
  name : Text
  description : Option Text
  inputSchema : Json

/-- A configured server that could be connected, with its tools. -/
structure ConnectedServer where
  name : Text
  tools : List McpToolDefinition

/-- A tool of a server, with the name of the session that its calls are sent to. -/
structure McpToolProxy where
  registeredName : Text
  remoteName : Text
  session : Text
  definition : ToolDefinition

/-- The proxy of a tool of a server. -/
def McpToolProxy.new (serverName remoteName description : Text) (inputSchema : Json) :
    McpToolProxy :=
  let registeredName := "mcp." ++ serverName ++ "." ++ remoteName
  { registeredName
    remoteName
    session := serverName
    definition := ⟨registeredName, description, inputSchema⟩ }

abbrev ToolRegistry : Type := Table Text McpToolProxy

def ToolRegistry.register (registry : ToolRegistry) (tool : McpToolProxy) : ToolRegistry :=
  registry.insert tool.definition.name tool

def ConnectedServer.proxies (server : ConnectedServer) : List McpToolProxy :=
  server.tools.map fun tool =>
    .new server.name tool.name (tool.description.getD []) tool.inputSchema

def connectAndRegister (servers : List ConnectedServer) (registry : ToolRegistry) : ToolRegistry :=
  servers.foldl (fun registry server => server.proxies.foldl ToolRegistry.register registry)
    registry

/-! ### Names that collide -/

/-- The second server is the first one, a dot and the beginning of its tool, whose rest is the
second tool. -/
def Overlaps (server tool server' tool' : Text) : Prop :=
  ∃ middle, server' = server ++ '.' :: middle ∧ tool = middle ++ '.' :: tool'

theorem append_dot_eq_iff {server tool server' tool' : Text} :
  server ++ '.' :: tool = server' ++ '.' :: tool'
    ↔ (server = server' ∧ tool = tool') ∨ Overlaps server tool server' tool'
      ∨ Overlaps server' tool' server tool
  := by
  have hcut : ∀ {s t s' t' : Text},
      (∃ m, s' = s ++ m ∧ '.' :: t = m ++ '.' :: t')
        ↔ (s = s' ∧ t = t') ∨ Overlaps s t s' t' := by
    intro s t s' t'
    constructor
    · rintro ⟨_ | ⟨c, m⟩, rfl, heq⟩
      · simp_all
      · cases heq
        exact .inr ⟨m, rfl, rfl⟩
    · rintro (⟨rfl, rfl⟩ | ⟨m, rfl, rfl⟩)
      · exact ⟨[], by simp⟩
      · exact ⟨'.' :: m, rfl, rfl⟩
  rw [append_eq_append_iff, hcut, hcut]
  tauto

/-- A name leads to one of the tools that were registered under it. -/
theorem lookup_foldl_register (proxies : List McpToolProxy) (name : Text) :
  (proxies.foldl ToolRegistry.register ∅).lookup name = none
      ∧ (∀ proxy ∈ proxies, proxy.definition.name ≠ name)
    ∨ ∃ proxy ∈ proxies, proxy.definition.name = name
      ∧ (proxies.foldl ToolRegistry.register ∅).lookup name = some proxy
  := by
  induction proxies using reverseRecOn with
  | nil => simp
  | append_singleton proxies proxy ih =>
    rw [foldl_append, foldl_cons, foldl_nil, ToolRegistry.register, Table.lookup_insert']
    by_cases hname : name = proxy.definition.name
    · right
      use proxy
      simp [hname]
    · rw [if_neg hname]
      obtain ⟨hnone, hall⟩ | ⟨other, hmem, hother, hlook⟩ := ih
      · left
        use hnone
        simpa [or_imp, forall_and, eq_comm, hname] using hall
      · exact .inr ⟨other, mem_append_left _ hmem, hother, hlook⟩

variable {servers : List ConnectedServer}

/-- All proxies, in the order in which they are registered. -/
def allProxies (servers : List ConnectedServer) : List McpToolProxy :=
  servers.flatMap ConnectedServer.proxies

theorem connectAndRegister_eq (registry : ToolRegistry) :
  connectAndRegister servers registry
    = (allProxies servers).foldl ToolRegistry.register registry
  := by
  rw [connectAndRegister, allProxies, foldl_flatMap]

theorem name_of_mem {proxy : McpToolProxy} (hmem : proxy ∈ allProxies servers) :
  proxy.definition.name = "mcp." ++ (proxy.session ++ '.' :: proxy.remoteName)
  := by
  obtain ⟨server, -, hmem⟩ := mem_flatMap.mp hmem
  obtain ⟨tool, -, rfl⟩ := mem_map.mp hmem
  change "mcp." ++ server.name ++ "." ++ tool.name = _
  rw [append_assoc, append_assoc]
  rfl

/-- Different pairs of a server and a tool have different names, each of which leads to its own
tool. -/
def NamesApart (servers : List ConnectedServer) : Prop :=
  (∀ p ∈ allProxies servers, ∀ q ∈ allProxies servers,
      p.definition.name = q.definition.name → p.session = q.session ∧ p.remoteName = q.remoteName)
    ∧ ∀ p ∈ allProxies servers, ∃ q,
      (connectAndRegister servers ∅).lookup p.definition.name = some q
        ∧ q.session = p.session ∧ q.remoteName = p.remoteName

/-- The tools are kept apart exactly when no two pairs of names overlap. -/
theorem namesApart_iff (servers : List ConnectedServer) :
  NamesApart servers
    ↔ ∀ p ∈ allProxies servers, ∀ q ∈ allProxies servers,
      ¬ Overlaps p.session p.remoteName q.session q.remoteName
  := by
  have hname : ∀ p ∈ allProxies servers, ∀ q ∈ allProxies servers,
      (p.definition.name = q.definition.name
        ↔ (p.session = q.session ∧ p.remoteName = q.remoteName)
          ∨ Overlaps p.session p.remoteName q.session q.remoteName
          ∨ Overlaps q.session q.remoteName p.session p.remoteName) := by
    intro p hp q hq
    rw [name_of_mem hp, name_of_mem hq, List.append_right_inj, append_dot_eq_iff]
  constructor
  · rintro ⟨hdis, -⟩ p hp q hq hover
    obtain ⟨hsess, -⟩ := hdis p hp q hq ((hname p hp q hq).mpr (.inr (.inl hover)))
    obtain ⟨middle, hserv, -⟩ := hover
    simp [hsess] at hserv
  · intro hnone
    have hdis : ∀ p ∈ allProxies servers, ∀ q ∈ allProxies servers,
        p.definition.name = q.definition.name
          → p.session = q.session ∧ p.remoteName = q.remoteName := by
      intro p hp q hq heq
      obtain h | h | h := (hname p hp q hq).mp heq
      · apply h
      · apply absurd h (hnone p hp q hq)
      · apply absurd h (hnone q hq p hp)
    use hdis
    intro p hp
    rw [connectAndRegister_eq]
    obtain ⟨-, hall⟩ | ⟨q, hq, heq, hlook⟩ :=
      lookup_foldl_register (allProxies servers) p.definition.name
    · apply absurd rfl (hall p hp)
    · exact ⟨q, hlook, hdis q hq p hp heq⟩

/-- Two servers, one of which is named by the other one and the beginning of its tool. -/
def dottedServers : List ConnectedServer :=
  [⟨"files", [⟨"eu.read", none, .null⟩]⟩, ⟨"files.eu", [⟨"read", none, .null⟩]⟩]

/-- The name of the tool of the first server leads to the second server. -/
theorem not_namesApart_dotted :
  ¬ NamesApart dottedServers
    ∧ ((connectAndRegister dottedServers ∅).lookup "mcp.files.eu.read".toList).map
      (fun proxy => (proxy.session, proxy.remoteName)) = some ("files.eu".toList, "read".toList)
  := by
  constructor
  · rintro ⟨hdis, -⟩
    have hfirst : .new "files" "eu.read" [] .null ∈ allProxies dottedServers := .head _
    have hsec : .new "files.eu" "read" [] .null ∈ allProxies dottedServers := .tail _ (.head _)
    obtain ⟨hsess, -⟩ := hdis _ hfirst _ hsec rfl
    cases hsess
  · rfl

end Mcp
