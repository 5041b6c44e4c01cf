import AaOS.Runtime.Process

/-!
# The services of an agent

The part of the trait `AgentServices` that the executor calls, and the services that run
in the process of the daemon: `aaos-runtime/src/services.rs`.  The clock and the tools are
parameters.
-/

/-- The definition of a tool. -/
structure ToolDefinition where
  name : Text
  description : Text
  inputSchema : Json

structure AgentServices (σ : Type) where
  listTools : AgentId → σ → Except CoreError (List ToolDefinition) × σ
  reportUsage : AgentId → TokenUsage → σ → Except CoreError Unit × σ
  invokeTool : AgentId → Text → Json → σ → Except CoreError Json × σ

def nullServices : AgentServices Unit where
  listTools _ _ := (.ok [], ())
  reportUsage _ _ _ := (.ok (), ())
  invokeTool _ _ _ _ := (.ok .null, ())

/-- The services in the daemon. The clock is given by its readings, in seconds and as a time. -/
structure InProcessAgentServices where
  toolRegistry : List ToolDefinition
  canonicalize : Text → Option Text
  seconds : Nat → UInt64
  time : Nat → DateTime
  invokeTool : AgentId → Text → Json → AgentRegistry → Except CoreError Json × AgentRegistry

/-- The registry, the reports of usage in the audit log, and the number of readings of the clock. -/
structure InProcessState where
  registry : AgentRegistry
  usageReported : List (AgentId × TokenUsage)
  ticks : Nat

namespace InProcessAgentServices

variable (services : InProcessAgentServices)

/-- The tools that the agent may invoke. -/
def listTools (agentId : AgentId) (s : InProcessState) :
    Except CoreError (List ToolDefinition) × InProcessState :=
  ((s.registry.getTokenHandles agentId).map fun handles =>
      services.toolRegistry.filter fun tool =>
        handles.any fun h =>
          s.registry.capabilityRegistry.permits services.canonicalize (services.time s.ticks) h
            agentId (.toolInvoke tool.name),
    { s with ticks := s.ticks + 1 })

/-- Count the usage, and record it in the audit log unless it is refused. -/
def reportUsage (agentId : AgentId) (usage : TokenUsage) (s : InProcessState) :
    Except CoreError Unit × InProcessState :=
  match s.registry.trackTokenUsage (services.seconds s.ticks) (services.seconds (s.ticks + 1))
      agentId usage with
  | (.error e, registry) => (.error e, { s with registry, ticks := s.ticks + 2 })
  | (.ok (), registry) =>
    (.ok (), ⟨registry, s.usageReported ++ [(agentId, usage)], s.ticks + 2⟩)

def agentServices : AgentServices InProcessState where
  listTools := services.listTools
  reportUsage := services.reportUsage
  invokeTool agentId name input s :=
    let (result, registry) := services.invokeTool agentId name input s.registry
    (result, { s with registry })

end InProcessAgentServices
