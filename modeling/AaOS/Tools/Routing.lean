import AaOS.Tools.Invocation

/-!
# Which tools a surface has

Three tables decide where a tool runs: the tools that the daemon registers (`with_llm_and_audit` of
`agentd/src/server.rs`), with those of the servers that it connects to; the tools that always run
in the daemon; and the tools that a worker registers.  Whatever is not in the second table is sent
to the worker when agents have workers.
-/

open ToolInvocation

/-! ### The registries -/

def builtinTools : List Text :=
  ["echo", "web_fetch", "file_read", "file_list",
    "file_read_many", "file_write", "file_edit", "cargo_run",
    "grep", "git_commit", "memory_store", "memory_query",
    "memory_delete", "skill_read", "spawn_agent", "spawn_agents"]

/-- A server to which the daemon has connected, and its tools. -/
structure McpServer where
  name : Text
  tools : List Text

def registeredName (serverName remoteName : Text) : Text :=
  "mcp." ++ serverName ++ "." ++ remoteName

def McpServer.registeredNames (server : McpServer) : List Text :=
  server.tools.map (registeredName server.name)

def toolRegistry (servers : List McpServer) : List Text :=
  builtinTools ++ servers.flatMap McpServer.registeredNames

def namespacedInvocation (servers : List McpServer) : ToolInvocation where
  registry := toolRegistry servers
  workerHandle := some "namespaced"

def ToolInvocation.registryOf (config : ToolInvocation) : ToolExecutionSurface → List Text
  | .daemon => config.registry
  | .worker => workerSideTools

/-! ### Calls -/

inductive LacksTool (toolName : Text) : CoreError → Prop
  | daemon : LacksTool toolName (.toolNotFound toolName)
  | worker : LacksTool toolName
      (.ipc (invokeToolError toolNotAvailable
        ("tool " ++ toolName ++ " not available in worker")))

structure ToolInvocation.Authorised (state : InvocationState) (call : Invocation) : Prop where
  charged : ∃ charged, charge state.capabilityRegistry call = .ok charged
  session : (state.sessions call.agentId).isSome
  connection : call.connection = none

/-- Calls of a registered tool are sent to a surface that has it, and none fails because its surface
does not. -/
structure RoutedToOwner (servers : List McpServer) (toolName : Text) : Prop where
  owner : toolName ∈ toolRegistry servers →
    toolName ∈ (namespacedInvocation servers).registryOf
      (routeFor toolName "namespaced")
  runs : toolName ∈ toolRegistry servers → ∀ state call e, call.toolName = toolName →
    ToolInvocation.Authorised state call →
    ((namespacedInvocation servers).invoke state call).result = .error e →
    ¬ LacksTool toolName e

/-! ### The tables -/

/-- The tools that the daemon registers when it starts and that are in no other table. -/
def unroutedTools : List Text :=
  ["skill_read", "spawn_agent", "spawn_agents"]

theorem routeFor_namespaced (toolName : Text) :
  routeFor toolName "namespaced"
    = if toolName ∈ daemonSideTools then .daemon else .worker
  := by
  simp [routeFor]

variable {servers : List McpServer} {toolName : Text}

theorem mem_registryOf_iff (hreg : toolName ∈ toolRegistry servers) :
  toolName ∈ (namespacedInvocation servers).registryOf (routeFor toolName "namespaced")
    ↔ toolName ∈ daemonSideTools ∨ toolName ∈ workerSideTools
  := by
  rw [routeFor_namespaced]
  by_cases hdaemon : toolName ∈ daemonSideTools
  · rw [if_pos hdaemon]
    exact ⟨fun _ => .inl hdaemon, fun _ => hreg⟩
  · rw [if_neg hdaemon]
    exact ⟨.inr, fun hor => hor.resolve_left hdaemon⟩

theorem tables_of_mem_builtinTools (hmem : toolName ∈ builtinTools) :
  toolName ∈ unroutedTools ∨ toolName ∈ daemonSideTools ∨ toolName ∈ workerSideTools
  := by
  have htable : ∀ name ∈ builtinTools,
      name ∈ unroutedTools ∨ name ∈ daemonSideTools ∨ name ∈ workerSideTools := by decide
  apply htable _ hmem

theorem unroutedTools_subset : unroutedTools ⊆ builtinTools := by
  decide

theorem notMem_tables_of_mem_unroutedTools (hmem : toolName ∈ unroutedTools) :
  ¬ (toolName ∈ daemonSideTools ∨ toolName ∈ workerSideTools)
  := by
  have htable : ∀ name ∈ unroutedTools,
      ¬ (name ∈ daemonSideTools ∨ name ∈ workerSideTools) := by decide
  apply htable _ hmem

theorem notMem_tables_of_mem_registeredNames {server : McpServer}
    (hmem : toolName ∈ server.registeredNames) :
  ¬ (toolName ∈ daemonSideTools ∨ toolName ∈ workerSideTools)
  := by
  obtain ⟨remoteName, -, rfl⟩ := List.mem_map.mp hmem
  have htake : (registeredName server.name remoteName).take 4 = "mcp." := rfl
  have htable : ∀ name, name ∈ daemonSideTools ∨ name ∈ workerSideTools →
      name.take 4 ≠ "mcp." := by
    have hall : ∀ name ∈ daemonSideTools ++ workerSideTools, name.take 4 ≠ "mcp." := by
      decide
    intro name hname
    apply hall name (List.mem_append.mpr hname)
  intro hor
  apply htable _ hor htake

theorem mem_tables_iff (hreg : toolName ∈ toolRegistry servers) :
  (toolName ∈ daemonSideTools ∨ toolName ∈ workerSideTools)
    ↔ toolName ∉ unroutedTools ∧ ∀ server ∈ servers, toolName ∉ server.registeredNames
  := by
  constructor
  · intro htable
    constructor
    · intro hunr
      apply notMem_tables_of_mem_unroutedTools hunr htable
    · intro server _ hmem
      apply notMem_tables_of_mem_registeredNames hmem htable
  · rintro ⟨hunr, hserv⟩
    obtain hbuilt | hmem := List.mem_append.mp hreg
    · apply (tables_of_mem_builtinTools hbuilt).resolve_left hunr
    · obtain ⟨server, hser, hname⟩ := List.mem_flatMap.mp hmem
      cases hserv server hser hname

/-! ### Routing -/

theorem exists_result_of_mem_registryOf {state : InvocationState} {call : Invocation}
    (haut : ToolInvocation.Authorised state call)
    (howner : call.toolName ∈ (namespacedInvocation servers).registryOf
      (routeFor call.toolName "namespaced")) :
  ∃ ran, ((namespacedInvocation servers).invoke state call).result = .ok ran
  := by
  obtain ⟨⟨⟨registry, handle⟩, hchar⟩, hsess, hcon⟩ := haut
  obtain ⟨session, hsess⟩ := Option.isSome_iff_exists.mp hsess
  have hsur : (namespacedInvocation servers).surface call
      = routeFor call.toolName "namespaced" := rfl
  rcases hroute : routeFor call.toolName "namespaced"
  all_goals rw [hroute] at howner hsur
  case daemon =>
    have hmem : call.toolName ∈ (namespacedInvocation servers).registry := howner
    simp only [invoke, hchar, hsur, runInDaemon, if_pos hmem]
    exact ⟨_, rfl⟩
  case worker =>
    have hmem : call.toolName ∈ workerSideTools := howner
    simp only [invoke, hchar, hsur, hsess, runInWorker, hcon, dispatch, if_pos hmem]
    exact ⟨_, rfl⟩

/-- Calls of a tool are routed to a surface that has it exactly when it is not the reader of skills,
a tool that spawns agents or a tool of the servers. -/
theorem routedToOwner_iff (servers : List McpServer) (toolName : Text) :
  RoutedToOwner servers toolName
    ↔ toolName ∉ unroutedTools ∧ ∀ server ∈ servers, toolName ∉ server.registeredNames
  := by
  constructor
  · rintro ⟨howner, -⟩
    by_cases hreg : toolName ∈ toolRegistry servers
    · apply (mem_tables_iff hreg).mp
      apply (mem_registryOf_iff hreg).mp
      apply howner hreg
    · rw [toolRegistry, List.mem_append, not_or] at hreg
      obtain ⟨hbuilt, hserv⟩ := hreg
      constructor
      · intro hunr
        apply hbuilt (unroutedTools_subset hunr)
      · intro server hser hmem
        apply hserv (List.mem_flatMap.mpr ⟨server, hser, hmem⟩)
  · intro hnot
    have howner : toolName ∈ toolRegistry servers →
        toolName ∈ (namespacedInvocation servers).registryOf
          (routeFor toolName "namespaced") := by
      intro hreg
      apply (mem_registryOf_iff hreg).mpr
      apply (mem_tables_iff hreg).mpr hnot
    constructor
    case owner => apply howner
    case runs =>
      rintro hreg state call e rfl haut herror -
      obtain ⟨ran, hran⟩ := exists_result_of_mem_registryOf haut (howner hreg)
      rw [herror] at hran
      cases hran

/-- Neither the reader of skills nor a tool of a server is routed to a surface that has
it. -/
theorem not_routedToOwner_skillRead :
  ¬ RoutedToOwner [] "skill_read".toList
    ∧ ¬ RoutedToOwner [⟨"github".toList, ["search".toList]⟩] "mcp.github.search".toList
  := by
  constructor
  · rintro ⟨howner, -⟩
    have hwork : "skill_read".toList ∈ workerSideTools := howner (by decide)
    revert hwork
    decide
  · rintro ⟨howner, -⟩
    have hwork : "mcp.github.search".toList ∈ workerSideTools := howner (by decide)
    revert hwork
    decide
