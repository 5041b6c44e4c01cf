import AaOS.Tools.Context

/-!
# The loop of a worker

`dispatch` follows the body of `agent_loop` in `aaos-backend-linux/src/worker.rs`.  The tokens
forwarded with a call are put into the registry of the session when they are seen for the first
time, and a revocation marks those in it.  What the surroundings answer is an `Environment`.
-/

inductive PokeOp where
  | tryExecve
  | tryReadHostPath (path : Text)

/-- The requests a worker receives; `other` stands for those of the handshake. -/
inductive Request where
  | ping (nonce : Nat)
  | poke (op : PokeOp)
  | invokeTool (toolName : Text) (input : Json) (capabilityTokens : List CapabilityToken)
  | revokeToken (tokenId : Uuid)
  | other

structure WireRequest where
  id : Nat
  request : Request

inductive WireResponse where
  | success (id : Nat) (result : Json)
  | error (id : Nat) (code : Int) (message : Text)

inductive ToolOutcome where
  | value (value : Json)
  | error (message : Text)
  | panicked (message : Text)
  | timedOut

/-- The answers of the surroundings while a frame is handled. -/
structure Environment where
  clock : CapabilityHandle → DateTime
  tool : ToolOutcome
  execveReturns : Bool
  readHostPath : Except Text Text

/-- The state of a session. -/
structure Session where
  registry : CapabilityRegistry
  tokenHandleMap : Table Uuid CapabilityHandle

/-- The session at the start of the loop. -/
def Session.new : Session where
  registry := CapabilityRegistry.new
  tokenHandleMap := ∅

def workerSideTools : List Text :=
  ["echo", "file_read", "file_write", "file_edit",
    "file_list", "file_read_many"]

def toolNotAvailable : Int := -32100
def toolPanicked : Int := -32101
def toolTimeout : Int := -32102
def toolRuntime : Int := -32104

/-- What a frame leads to: the next session, the response, and the context of the tool
that was run. -/
structure Reaction where
  session : Session
  response : Option WireResponse
  context : Option InvocationContext

section Loop

variable (agentId : AgentId)

/-- The handle of a forwarded token: the one the token got before, or a new one. -/
def mergeToken (session : Session) (token : CapabilityToken) : Session × CapabilityHandle :=
  match session.tokenHandleMap.lookup token.id with
  | some h => (session, h)
  | none =>
    let inserted := session.registry.insert agentId token
    ({ registry := inserted.1
       tokenHandleMap := session.tokenHandleMap.insert token.id inserted.2 }, inserted.2)

def mergeTokens (session : Session) : List CapabilityToken → Session × List CapabilityHandle
  | [] => (session, [])
  | token :: tokens =>
    let merged := mergeToken agentId session token
    let rest := mergeTokens merged.1 tokens
    (rest.1, merged.2 :: rest.2)

/-- The response to a probe, unless the probe kills the worker. -/
def handlePoke (env : Environment) (reqId : Nat) : PokeOp → Option WireResponse
  | .tryExecve =>
    if env.execveReturns then
      some (.error reqId (-32001) "execve did not SIGSYS — sandbox broken")
    else none
  | .tryReadHostPath path =>
    match env.readHostPath with
    | .ok _ => some (.error reqId (-32002) ("landlock allowed read of " ++ path))
    | .error e => some (.success reqId (.obj [("denied", .str e)]))

def toolResponse (reqId : Nat) (toolName : Text) : ToolOutcome → WireResponse
  | .value value => .success reqId value
  | .error message => .error reqId toolRuntime message
  | .panicked message => .error reqId toolPanicked message
  | .timedOut =>
    .error reqId toolTimeout ("tool " ++ toolName ++ " exceeded 60s timeout")

def dispatch (env : Environment) (session : Session) (req : WireRequest) : Option Reaction :=
  match req.request with
  | .ping nonce =>
    some ⟨session, some (.success req.id
      (.obj [("nonce", .num (Nat.toDigits 10 nonce))])), none⟩
  | .poke op => (handlePoke env req.id op).map fun response => ⟨session, some response, none⟩
  | .revokeToken tokenId =>
    some ⟨{ session with registry := (session.registry.revoke env.clock tokenId).1 }, none, none⟩
  | .invokeTool toolName _ capabilityTokens =>
    if toolName ∈ workerSideTools then
      let merged := mergeTokens agentId session capabilityTokens
      some ⟨merged.1, some (toolResponse req.id toolName env.tool),
        some ⟨agentId, merged.2, merged.1.registry⟩⟩
    else
      some ⟨session, some (.error req.id toolNotAvailable
        ("tool " ++ toolName ++ " not available in worker")), none⟩
  | .other => some ⟨session, some (.error req.id (-32601)
      "worker: unsupported request"), none⟩

/-- A line of the stream, undefined when it is malformed, and the environment in which it
is handled. -/
abbrev Line : Type := Environment × Option WireRequest

def agentLoop : Session → List Line → List Reaction
  | _, [] => []
  | session, (_, none) :: lines => agentLoop session lines
  | session, (env, some req) :: lines =>
    match dispatch agentId env session req with
    | none => []
    | some reaction => reaction :: agentLoop reaction.session lines

/-- The session after the lines of the stream, unless the worker was killed. -/
def sessionAfter : Session → List Line → Option Session
  | session, [] => some session
  | session, (_, none) :: lines => sessionAfter session lines
  | session, (env, some req) :: lines =>
    match dispatch agentId env session req with
    | none => none
    | some reaction => sessionAfter reaction.session lines

end Loop
