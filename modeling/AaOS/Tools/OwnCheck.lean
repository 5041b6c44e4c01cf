import AaOS.Core.Canonical
import AaOS.Core.Host
import AaOS.Daemon.SpawnTool
import AaOS.Tools.FileTools

/-!
# The checks that the tools make

The tools that read or write files, fetch URLs, run `cargo` or commit (`aaos-tools/src`) and those
that spawn agents (`agentd/src`) ask the tokens of their context before they act.  They are modelled
up to that question: what is read from the input, the errors before it, and the handles on whose
strength the operation is allowed.  The answers of the kernel, the network and the clock are the
surroundings of the call.
-/

open List

open Eff Returns SpawnAgentTool

/-- What a tool asks of the tokens of its context. -/
inductive Demand where
  | file (kind : FileAccess) (canonical : Text)
  | capability (requested : Capability)

def CapabilityToken.meets (canonicalize : Text → Option Text) (now : DateTime)
    (token : CapabilityToken) : Demand → Bool
  | .file kind canonical => token.permitsCanonicalFile now kind canonical
  | .capability requested => token.permits canonicalize now requested

def CapabilityRegistry.meets (canonicalize : Text → Option Text) (now : DateTime)
    (registry : CapabilityRegistry) (agentId : AgentId) (demand : Demand)
    (handle : CapabilityHandle) : Bool :=
  match demand with
  | .file kind canonical => registry.permitsCanonicalFile now handle agentId kind canonical
  | .capability requested => registry.permits canonicalize now handle agentId requested

/-- The first handle of the context whose token permits what is asked. -/
def InvocationContext.grant (canonicalize : Text → Option Text) (now : DateTime)
    (ctx : InvocationContext) (demand : Demand) : Option CapabilityHandle :=
  ctx.tokens.find? (ctx.capabilityRegistry.meets canonicalize now ctx.agentId demand)

/-- The handles on whose strength an operation is allowed. -/
abbrev Grant : Type := List CapabilityHandle

/-! ### Surroundings -/

structure ParsedUrl where
  scheme : Text
  host : Option Text

inductive HttpResponse where
  | failed (message : Text)
  | final
  | redirection (location : Option Text)

structure Web where
  parse : Text → Except Text ParsedUrl
  respond : Text → HttpResponse
  follow : Text → Text → Except Text Text

/-- What the tools that spawn agents find: their settings, the agents, the size of a batch, and the
children whose run ends with an error. -/
structure Spawning where
  tool : SpawnAgentTool
  agents : AgentRegistry
  batchCap : Nat
  fails : AgentManifest → Bool

/-- What the surroundings answer during one call. -/
structure Surroundings where
  now : DateTime
  canonicalizer : Canonicalizer
  kernel : Kernel
  files : Files
  lowercase : Lowercase
  web : Web
  spawning : Spawning

section Tools

variable (env : Surroundings) (ctx : InvocationContext) (input : Json)

def demand (asked : Demand) (capability : Capability) (reason : Text) :
    ToolM CapabilityHandle :=
  require (ctx.grant env.canonicalizer.run env.now asked)
    (.capabilityDenied ctx.agentId capability reason)

/-- The operation that a check allows, if it does. -/
def granted (check : ToolM Grant) : List Grant :=
  match (exec check env.files).1 with
  | .ok grant => [grant]
  | .error _ => []

/-! ### Files -/

def FileReadTool.check : ToolM Grant := do
  let path ← textParameter input "path"
  let (_, canonical) ← safeOpenForCapability env.kernel path .read
  let h ← demand env ctx (.file .read canonical) (.fileRead canonical)
    ("file_read not permitted for path: " ++ canonical)
  pure [h]

def FileListTool.check : ToolM Grant := do
  let path ← textParameter input "path"
  let (_, canonical) ← tryCatch (safeOpenForCapability env.kernel path .readDir)
    (fun _ => safeOpenForCapability env.kernel path .read)
  let h ← demand env ctx (.file .read canonical) (.fileRead canonical)
    ("file_list not permitted for path: " ++ canonical)
  pure [h]

def GrepTool.check : ToolM Grant := do
  let _ ← textParameter input "pattern"
  let path ← textParameter input "path"
  let (_, canonical) ← safeOpenForCapability env.kernel path .pathOnly
  let h ← demand env ctx (.file .read canonical) (.fileRead canonical)
    ("grep not permitted for path: " ++ canonical)
  pure [h]

def maxPaths : Nat := 16

/-- The paths to be read together. -/
def pathsParameter : ToolM (List Text) := do
  let paths ← require ((input.get "paths").bind Json.asArray)
    (.invalidManifest "missing 'paths' array")
  refuseIf paths.isEmpty (.invalidManifest "'paths' array must not be empty")
  refuseIf (paths.length > maxPaths)
    (.invalidManifest ("too many paths: " ++ Nat.toDigits 10 paths.length
      ++ " (max " ++ Nat.toDigits 10 maxPaths ++ ")"))
  let pathStrings := paths.filterMap Json.asStr
  refuseIf (pathStrings.length ≠ paths.length)
    (.invalidManifest "all 'paths' entries must be strings")
  pure pathStrings

def FileReadManyTool.readOne (path : Text) : ToolM Grant := do
  let (_, canonical) ← safeOpenForCapability env.kernel path .read
  let h ← demand env ctx (.file .read canonical) (.fileRead canonical)
    ("file_read not permitted for path: " ++ canonical)
  pure [h]

/-- The operations of `file_read_many`: the paths are read one by one, and a refused path does not
stop the others. -/
def FileReadManyTool.operations : List Grant :=
  match (exec (pathsParameter input) env.files).1 with
  | .ok paths => paths.flatMap fun path => granted env (FileReadManyTool.readOne env ctx path)
  | .error _ => []

def FileWriteTool.opened : ToolM (Text × Bool × OwnedFd × Text) := do
  let path ← textParameter input "path"
  let content ← textParameter input "content"
  let append := flagParameter input "append"
  refuseIf (Text.utf8Len content > maxWriteBytes)
    (.ipc ("content too large: " ++ Nat.toDigits 10 (Text.utf8Len content)
      ++ " bytes (max " ++ Nat.toDigits 10 maxWriteBytes ++ ")"))
  createParent env.kernel path
  let opened ← safeOpenForCapability env.kernel path (writeMode append)
  pure (content, append, opened)

def FileWriteTool.check : ToolM Grant := do
  let (_, _, _, canonical) ← FileWriteTool.opened env input
  let h ← demand env ctx (.file .write canonical) (.fileWrite canonical)
    ("file_write not permitted for path: " ++ canonical)
  pure [h]

def FileEditTool.opened : ToolM (Text × Text × Bool × OwnedFd × Text) := do
  let path ← textParameter input "path"
  let oldString ← textParameter input "old_string"
  let newString ← textParameter input "new_string"
  let replaceAll := flagParameter input "replace_all"
  refuseIf (oldString = []) (.invalidManifest "old_string must be non-empty")
  refuseIf (Text.utf8Len oldString > maxEditStringBytes
      || Text.utf8Len newString > maxEditStringBytes)
    (.ipc ("edit string too large: max " ++ Nat.toDigits 10 maxEditStringBytes
      ++ " bytes per side"))
  let opened ← safeOpenForCapability env.kernel path .readWriteCreate
  pure (oldString, newString, replaceAll, opened)

def FileEditTool.check : ToolM Grant := do
  let (_, _, _, _, canonical) ← FileEditTool.opened env input
  let hr ← demand env ctx (.file .read canonical) (.fileRead canonical)
    ("file_edit needs file_read for path: " ++ canonical)
  let hw ← demand env ctx (.file .write canonical) (.fileWrite canonical)
    ("file_edit needs file_write for path: " ++ canonical)
  pure [hr, hw]

/-! ### Workspaces -/

def allowedSubcommands : List Text :=
  ["check", "test", "clippy", "fmt"]

def CargoRunTool.check : ToolM Grant := do
  let workspace ← textParameter input "workspace"
  let subcommand ← textParameter input "subcommand"
  refuseIf (!allowedSubcommands.contains subcommand)
    (.invalidManifest ("cargo subcommand '" ++ subcommand
      ++ "' not allowed; allowlist: check, test, clippy, fmt"))
  let h ← demand env ctx (.capability (.cargoRun workspace)) (.cargoRun workspace)
    ("cargo_run not permitted for workspace: " ++ workspace)
  pure [h]

def GitCommitTool.check : ToolM Grant := do
  let workspace ← textParameter input "workspace"
  let message ← textParameter input "message"
  refuseIf (message.head? == some '-')
    (.invalidManifest "commit message must not start with '-'")
  let h ← demand env ctx (.capability (.gitCommit workspace)) (.gitCommit workspace)
    ("git_commit not permitted for workspace: " ++ workspace)
  pure [h]

/-! ### URLs -/

def checkUrlPermitted (url : Text) : Except CoreError CapabilityHandle :=
  match env.web.parse url with
  | .error e => .error (.invalidManifest ("invalid URL: " ++ e))
  | .ok parsed =>
    if parsed.scheme ≠ "http" ∧ parsed.scheme ≠ "https" then
      .error (.invalidManifest ("unsupported URL scheme '" ++ parsed.scheme
        ++ "' — only http/https allowed"))
    else
      match parsed.host with
      | none => .error (.invalidManifest "URL has no host")
      | some host =>
        let requested : Capability := .networkAccess [extractHost env.lowercase.run host]
        match ctx.grant env.canonicalizer.run env.now (.capability requested) with
        | some h => .ok h
        | none => .error (.capabilityDenied ctx.agentId requested
            ("web_fetch not permitted for host: " ++ host))

def maxRedirects : Nat := 5

def nextUrl (url : Text) : Option Text :=
  match env.web.respond url with
  | .failed _ | .final | .redirection none => none
  | .redirection (some location) => (env.web.follow url location).toOption

def WebFetchTool.requests : Nat → Text → List Grant
  | left, url =>
    match checkUrlPermitted env ctx url with
    | .error _ => []
    | .ok h =>
      [h] :: match left, nextUrl env url with
        | left + 1, some next => WebFetchTool.requests left next
        | _, _ => []

/-- The operations of `web_fetch`. -/
def WebFetchTool.operations : List Grant :=
  match (input.get "url").bind Json.asStr with
  | none => []
  | some url => WebFetchTool.requests env ctx maxRedirects url

/-! ### Children -/

/-- The tool with the canonicalizer, the lowercase and the clock of the call. -/
def Surroundings.spawnAgentTool : SpawnAgentTool :=
  { env.spawning.tool with
    canonicalize := env.canonicalizer.run
    spawn := { env.spawning.tool.spawn with toLowercase := env.lowercase.run }
    spawnClock := fun _ => env.now }

/-- The handles that are narrowed for the child, one for each declaration that is recognized and
permitted.  Narrowing adds tokens of the child only, so the same tokens are asked each time. -/
def SpawnAgentTool.delegated (manifest : AgentManifest) : List (Option CapabilityHandle) :=
  manifest.capabilities.map fun declaration =>
    (parseCapability env.lowercase.run declaration).bind fun capability =>
      ctx.grant env.canonicalizer.run env.now (.capability capability)

/-- A child is spawned on the strength of the permission to spawn it and of all that it is given.
A second child, after an error of the first, is given what can be. -/
def SpawnAgentTool.operations : List Grant :=
  match env.spawnAgentTool.accept ctx
      { env.spawning.agents with capabilityRegistry := ctx.capabilityRegistry } input with
  | .error _ => []
  | .ok (manifest, _) =>
    match ctx.grant env.canonicalizer.run env.now (.capability (.spawnChild [manifest.name])) with
    | none => []
    | some h =>
      let handles := SpawnAgentTool.delegated env ctx manifest
      if handles.all Option.isSome then
        (h :: handles.filterMap id)
          :: if env.spawning.fails manifest then [handles.filterMap id] else []
      else []

/-- The operations of `spawn_agents`: those of its calls of `spawn_agent`. -/
def SpawnAgentsTool.operations : List Grant :=
  match spawnAgentsCalls env.spawning.batchCap env.spawning.agents input with
  | .error _ => []
  | .ok inputs => inputs.flatMap fun input => SpawnAgentTool.operations env ctx input

/-! ### All tools -/

inductive CheckingTool where
  | fileRead
  | fileList
  | grep
  | fileReadMany
  | fileWrite
  | fileEdit
  | cargoRun
  | gitCommit
  | webFetch
  | spawnAgent
  | spawnAgents

namespace CheckingTool

/-- The name under which the tool is registered. -/
def name : CheckingTool → Text
  | fileRead => "file_read"
  | fileList => "file_list"
  | grep => "grep"
  | fileReadMany => "file_read_many"
  | fileWrite => "file_write"
  | fileEdit => "file_edit"
  | cargoRun => "cargo_run"
  | gitCommit => "git_commit"
  | webFetch => "web_fetch"
  | spawnAgent => "spawn_agent"
  | spawnAgents => "spawn_agents"

/-- The operations that the checks of the tool allow. -/
def operations : CheckingTool → List Grant
  | fileRead => granted env (FileReadTool.check env ctx input)
  | fileList => granted env (FileListTool.check env ctx input)
  | grep => granted env (GrepTool.check env ctx input)
  | fileReadMany => FileReadManyTool.operations env ctx input
  | fileWrite => granted env (FileWriteTool.check env ctx input)
  | fileEdit => granted env (FileEditTool.check env ctx input)
  | cargoRun => granted env (CargoRunTool.check env ctx input)
  | gitCommit => granted env (GitCommitTool.check env ctx input)
  | webFetch => WebFetchTool.operations env ctx input
  | spawnAgent => SpawnAgentTool.operations env ctx input
  | spawnAgents => SpawnAgentsTool.operations env ctx input

def all : List CheckingTool :=
  [fileRead, fileList, grep, fileReadMany, fileWrite, fileEdit, cargoRun, gitCommit, webFetch,
    spawnAgent, spawnAgents]

end CheckingTool

def ownOperations (toolName : Text) : List Grant :=
  match CheckingTool.all.find? (fun tool => tool.name = toolName) with
  | some tool => tool.operations env ctx input
  | none => []

end Tools

/-! ### What the checks ask -/

/-- The demands that the checks may raise. -/
inductive Raised (lowercase : Lowercase) : Demand → Prop
  | file (kind : FileAccess) (canonical : Text) : Raised lowercase (.file kind canonical)
  | host (host : Text) :
      Raised lowercase (.capability (.networkAccess [extractHost lowercase.run host]))
  | cargoRun (workspace : Text) : Raised lowercase (.capability (.cargoRun workspace))
  | gitCommit (workspace : Text) : Raised lowercase (.capability (.gitCommit workspace))
  | spawnChild (name : Text) : Raised lowercase (.capability (.spawnChild [name]))
  | delegated (declaration : CapabilityDeclaration) (capability : Capability)
      (hparse : parseCapability lowercase.run declaration = some capability)
      (hmemory : capability ≠ .toolInvoke "memory_store") :
      Raised lowercase (.capability capability)

section Soundness

variable {env : Surroundings} {ctx : InvocationContext} {input : Json}

def Meets (env : Surroundings) (ctx : InvocationContext) (h : CapabilityHandle) : Prop :=
  ∃ asked, Raised env.lowercase asked
    ∧ ctx.capabilityRegistry.meets env.canonicalizer.run env.now ctx.agentId asked h = true

variable {h : CapabilityHandle}

theorem Meets.of_grant {asked : Demand} (hraise : Raised env.lowercase asked)
    (hgrant : ctx.grant env.canonicalizer.run env.now asked = some h) :
  Meets env ctx h
  := ⟨asked, hraise, find?_some hgrant⟩

theorem returns_demand {asked : Demand} (hraise : Raised env.lowercase asked)
    (capability : Capability) (reason : Text) :
  Returns (Meets env ctx) (demand env ctx asked capability reason)
  := by
  intro s h hok
  apply Meets.of_grant hraise
  apply require _ _ s h hok

def Sound (env : Surroundings) (ctx : InvocationContext) (grant : Grant) : Prop :=
  ∀ h ∈ grant, Meets env ctx h

theorem Sound.single (hmeets : Meets env ctx h) :
  Sound env ctx [h]
  := by
  intro h' hmem
  obtain rfl := mem_singleton.mp hmem
  apply hmeets

theorem returns_single {asks : ToolM CapabilityHandle} (hasks : Returns (Meets env ctx) asks) :
  Returns (Sound env ctx) (asks >>= fun h => pure [h])
  := bind hasks fun _ hmeets => pure (Sound.single hmeets)

theorem FileReadTool.returns_check :
  Returns (Sound env ctx) (FileReadTool.check env ctx input)
  := by
  refine after fun path => ?_
  refine after fun opened => ?_
  exact returns_single (returns_demand (.file .read _) _ _)

theorem FileListTool.returns_check :
  Returns (Sound env ctx) (FileListTool.check env ctx input)
  := by
  refine after fun path => ?_
  refine after fun opened => ?_
  exact returns_single (returns_demand (.file .read _) _ _)

theorem GrepTool.returns_check :
  Returns (Sound env ctx) (GrepTool.check env ctx input)
  := by
  refine after fun pattern => ?_
  refine after fun path => ?_
  refine after fun opened => ?_
  exact returns_single (returns_demand (.file .read _) _ _)

theorem FileReadManyTool.returns_readOne (path : Text) :
  Returns (Sound env ctx) (FileReadManyTool.readOne env ctx path)
  := by
  refine after fun opened => ?_
  exact returns_single (returns_demand (.file .read _) _ _)

theorem FileWriteTool.returns_check :
  Returns (Sound env ctx) (FileWriteTool.check env ctx input)
  := by
  refine after fun opened => ?_
  exact returns_single (returns_demand (.file .write _) _ _)

theorem FileEditTool.returns_check :
  Returns (Sound env ctx) (FileEditTool.check env ctx input)
  := by
  refine after fun opened => ?_
  refine bind (returns_demand (.file .read _) _ _) fun hr hread => ?_
  refine bind (returns_demand (.file .write _) _ _) fun hw hwrite => ?_
  refine pure ?_
  intro h hmem
  simp only [mem_cons, not_mem_nil, or_false] at hmem
  obtain rfl | rfl := hmem
  · apply hread
  · apply hwrite

theorem CargoRunTool.returns_check :
  Returns (Sound env ctx) (CargoRunTool.check env ctx input)
  := by
  refine after fun workspace => ?_
  refine after fun subcommand => ?_
  refine after fun _ => ?_
  exact returns_single (returns_demand (.cargoRun workspace) _ _)

theorem GitCommitTool.returns_check :
  Returns (Sound env ctx) (GitCommitTool.check env ctx input)
  := by
  refine after fun workspace => ?_
  refine after fun message => ?_
  refine after fun _ => ?_
  exact returns_single (returns_demand (.gitCommit workspace) _ _)

variable {grant : Grant}

theorem sound_of_mem_granted {check : ToolM Grant} (hret : Returns (Sound env ctx) check)
    (hmem : grant ∈ granted env check) :
  Sound env ctx grant
  := by
  unfold granted at hmem
  split at hmem
  · rename_i result hres
    obtain rfl := mem_singleton.mp hmem
    apply hret env.files grant hres
  · cases hmem

theorem meets_of_checkUrlPermitted {url : Text} (hok : checkUrlPermitted env ctx url = .ok h) :
  Meets env ctx h
  := by
  unfold checkUrlPermitted at hok
  cases hparse : env.web.parse url with
  | error e => simp [hparse] at hok
  | ok parsed =>
    simp only [hparse] at hok
    split_ifs at hok
    cases hhost : parsed.host with
    | none => simp [hhost] at hok
    | some host =>
      simp only [hhost] at hok
      split at hok
      · rename_i h' hgrant
        cases hok
        apply Meets.of_grant (.host host) hgrant
      · cases hok

theorem WebFetchTool.sound_of_mem_requests (left : Nat) (url : Text)
    (hmem : grant ∈ WebFetchTool.requests env ctx left url) :
  Sound env ctx grant
  := by
  induction left generalizing url with
  | zero =>
    unfold WebFetchTool.requests at hmem
    split at hmem
    · cases hmem
    · rename_i h hok
      obtain rfl := mem_singleton.mp hmem
      apply Sound.single (meets_of_checkUrlPermitted hok)
  | succ left ih =>
    unfold WebFetchTool.requests at hmem
    split at hmem
    · cases hmem
    · rename_i h hok
      obtain rfl | hmem := mem_cons.mp hmem
      · apply Sound.single (meets_of_checkUrlPermitted hok)
      · cases hnext : nextUrl env url with
        | none => simp [hnext] at hmem
        | some next =>
          rw [hnext] at hmem
          apply ih next hmem

theorem SpawnAgentTool.meets_of_mem_delegated {manifest : AgentManifest}
    (hmemor : manifest.capabilities.any env.spawnAgentTool.asksForMemoryStore = false)
    (hmem : h ∈ (SpawnAgentTool.delegated env ctx manifest).filterMap id) :
  Meets env ctx h
  := by
  obtain ⟨_, hmem, rfl⟩ := mem_filterMap.mp hmem
  obtain ⟨declaration, hdec, hgrant⟩ := mem_map.mp hmem
  obtain ⟨capability, hparse, hgrant⟩ := Option.bind_eq_some_iff.mp hgrant
  apply Meets.of_grant (.delegated declaration capability hparse _) hgrant
  rintro rfl
  have hasks := any_eq_false.mp hmemor declaration hdec
  apply hasks
  simp only [asksForMemoryStore, Surroundings.spawnAgentTool, hparse, beq_self_eq_true]

theorem SpawnAgentTool.sound_of_mem_operations
    (hmem : grant ∈ SpawnAgentTool.operations env ctx input) :
  Sound env ctx grant
  := by
  unfold operations at hmem
  split at hmem
  · cases hmem
  rename_i manifest message hacc
  obtain ⟨-, hmemor⟩ := accept_eq_ok hacc
  split at hmem
  · cases hmem
  rename_i h hspawn
  dsimp only at hmem
  split_ifs at hmem
  · obtain rfl | hmem := mem_cons.mp hmem
    · intro h' hmem
      obtain rfl | hmem := mem_cons.mp hmem
      · apply Meets.of_grant (.spawnChild _) hspawn
      · apply meets_of_mem_delegated hmemor hmem
    · obtain rfl := mem_singleton.mp hmem
      intro h' hmem
      apply meets_of_mem_delegated hmemor hmem
  · obtain rfl := mem_singleton.mp hmem
    intro h' hmem
    obtain rfl | hmem := mem_cons.mp hmem
    · apply Meets.of_grant (.spawnChild _) hspawn
    · apply meets_of_mem_delegated hmemor hmem
  · cases hmem

theorem CheckingTool.sound_of_mem_operations {tool : CheckingTool}
    (hmem : grant ∈ tool.operations env ctx input) :
  Sound env ctx grant
  := by
  cases tool with
  | fileRead => apply sound_of_mem_granted FileReadTool.returns_check hmem
  | fileList => apply sound_of_mem_granted FileListTool.returns_check hmem
  | grep => apply sound_of_mem_granted GrepTool.returns_check hmem
  | fileReadMany =>
    simp only [CheckingTool.operations, FileReadManyTool.operations] at hmem
    split at hmem
    · obtain ⟨path, -, hmem⟩ := mem_flatMap.mp hmem
      apply sound_of_mem_granted (FileReadManyTool.returns_readOne path) hmem
    · cases hmem
  | fileWrite => apply sound_of_mem_granted FileWriteTool.returns_check hmem
  | fileEdit => apply sound_of_mem_granted FileEditTool.returns_check hmem
  | cargoRun => apply sound_of_mem_granted CargoRunTool.returns_check hmem
  | gitCommit => apply sound_of_mem_granted GitCommitTool.returns_check hmem
  | webFetch =>
    simp only [CheckingTool.operations, WebFetchTool.operations] at hmem
    split at hmem
    · cases hmem
    · apply WebFetchTool.sound_of_mem_requests _ _ hmem
  | spawnAgent => apply SpawnAgentTool.sound_of_mem_operations hmem
  | spawnAgents =>
    simp only [CheckingTool.operations, SpawnAgentsTool.operations] at hmem
    split at hmem
    · cases hmem
    · obtain ⟨single, -, hmem⟩ := mem_flatMap.mp hmem
      apply SpawnAgentTool.sound_of_mem_operations hmem

theorem sound_of_mem_ownOperations {toolName : Text}
    (hmem : grant ∈ ownOperations env ctx input toolName) :
  Sound env ctx grant
  := by
  unfold ownOperations at hmem
  split at hmem
  · apply CheckingTool.sound_of_mem_operations hmem
  · cases hmem

end Soundness
