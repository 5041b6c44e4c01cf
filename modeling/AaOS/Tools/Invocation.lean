import AaOS.Tools.OwnCheck
import AaOS.Worker.AgentLoop

/-!
# The invocation of tools

`invoke` of `aaos-tools/src/invocation.rs`.  The first check asks for the capability to invoke the
tool, and records the use.  The second is the own check of the tool, which runs in the daemon or in
the worker of the agent, on the copies of the tokens that its session holds.
-/

inductive ToolExecutionSurface where
  | daemon
  | worker
deriving DecidableEq

def daemonSideTools : List Text :=
  ["web_fetch", "cargo_run", "git_commit", "grep",
    "memory_store", "memory_query", "memory_delete"]

/-- Where a tool is meant to run. -/
def routeFor (toolName backendKind : Text) : ToolExecutionSurface :=
  if backendKind ≠ "namespaced" || daemonSideTools.contains toolName then .daemon
  else .worker

/-- The registered tools, and the kind of the backend when there are workers. -/
structure ToolInvocation where
  registry : List Text
  workerHandle : Option Text

structure InvocationState where
  capabilityRegistry : CapabilityRegistry
  sessions : AgentId → Option Session

/-- A call of a tool, with its surroundings; a failed connection to the worker is given by its
message. -/
structure Invocation where
  agentId : AgentId
  toolName : Text
  input : Json
  tokenHandles : List CapabilityHandle
  env : Surroundings
  worker : Environment
  connection : Option Text

structure Invoked where
  state : InvocationState
  charged : Option CapabilityHandle
  result : Except CoreError (InvocationContext × List Grant)

/-- The name of a reason. -/
def CapabilityDenied.debug : CapabilityDenied → Text
  | .unknownHandle => "UnknownHandle"
  | .wrongAgent => "WrongAgent"
  | .notPermitted => "NotPermitted"
  | .exhausted => "Exhausted"
  | .revoked => "Revoked"

def toolDenied : Int := -32103

def invokeToolError (code : Int) (message : Text) : Text :=
  if code = toolNotAvailable then "tool " ++ message ++ " not available in worker"
  else if code = toolPanicked then "tool  panicked: " ++ message
  else if code = toolTimeout then "tool " ++ message ++ " exceeded 60s timeout"
  else if code = toolDenied then "tool denied: " ++ message
  else "tool error: " ++ message

def workerError : Option WireResponse → CoreError
  | some (.error _ code message) => .ipc (invokeToolError code message)
  | _ => .ipc "worker lost mid-invoke"

namespace ToolInvocation

variable (config : ToolInvocation)

def charge (registry : CapabilityRegistry) (call : Invocation) :
    Except CoreError (CapabilityRegistry × CapabilityHandle) :=
  let required : Capability := .toolInvoke call.toolName
  match call.tokenHandles.find? (fun h =>
      registry.permits call.env.canonicalizer.run call.env.now h call.agentId required) with
  | none => .error (.capabilityDenied call.agentId required "tool invocation not permitted")
  | some handle =>
    match registry.authorizeAndRecord call.env.canonicalizer.run call.env.now handle
        call.agentId required with
    | (_, .error e) =>
      .error (.capabilityDenied call.agentId required
        ("capability use record failed: " ++ e.debug))
    | (registry, .ok _) => .ok (registry, handle)

def runIn (call : Invocation) (ctx : InvocationContext) : InvocationContext × List Grant :=
  (ctx, ownOperations call.env ctx call.input call.toolName)

def runInDaemon (registry : CapabilityRegistry) (call : Invocation) :
    Except CoreError (InvocationContext × List Grant) :=
  if call.toolName ∈ config.registry then
    .ok (runIn call ⟨call.agentId, call.tokenHandles, registry⟩)
  else .error (.toolNotFound call.toolName)

def runInWorker (registry : CapabilityRegistry) (call : Invocation) (session : Session) :
    Session × Except CoreError (InvocationContext × List Grant) :=
  match call.connection with
  | some e => (session, .error (.ipc e))
  | none =>
    let tokens := registry.resolveTokens call.env.now call.tokenHandles call.agentId
    match dispatch call.agentId call.worker session
        ⟨0, .invokeTool call.toolName call.input tokens⟩ with
    | none => (session, .error (workerError none))
    | some reaction =>
      match reaction.context with
      | some ctx => (reaction.session, .ok (runIn call ctx))
      | none => (reaction.session, .error (workerError reaction.response))

def surface (call : Invocation) : ToolExecutionSurface :=
  match config.workerHandle with
  | some backendKind => routeFor call.toolName backendKind
  | none => .daemon

/-- Invoke a tool on behalf of an agent.  An agent without a session falls back to the
daemon. -/
def invoke (state : InvocationState) (call : Invocation) : Invoked :=
  match charge state.capabilityRegistry call with
  | .error e => ⟨state, none, .error e⟩
  | .ok (registry, handle) =>
    match config.surface call, state.sessions call.agentId with
    | .worker, some session =>
      let ran := runInWorker registry call session
      ⟨⟨registry, Function.update state.sessions call.agentId (some ran.1)⟩, some handle, ran.2⟩
    | _, _ => ⟨⟨registry, state.sessions⟩, some handle, config.runInDaemon registry call⟩

end ToolInvocation

def Invoked.allowedBy (tokenId : Uuid) (invoked : Invoked) : Nat :=
  (if invoked.charged.bind invoked.state.capabilityRegistry.tokenIdOf = some tokenId then 1 else 0)
    + match invoked.result with
      | .error _ => 0
      | .ok (ctx, operations) => operations.countP fun grant =>
        grant.any fun h => ctx.capabilityRegistry.tokenIdOf h = some tokenId

def ToolInvocation.allowedBy (config : ToolInvocation) (tokenId : Uuid) :
    InvocationState → List Invocation → Nat
  | _, [] => 0
  | state, call :: calls =>
    (config.invoke state call).allowedBy tokenId
      + config.allowedBy tokenId (config.invoke state call).state calls
