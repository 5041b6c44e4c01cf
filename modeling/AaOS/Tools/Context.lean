import AaOS.Registry.Registry

/-!
# The context of a tool call

The agent a tool runs for, the handles it may use and the registry that holds their
tokens, as in `aaos-tools/src/context.rs`, with the check that the tools make: some handle
of the context permits what is requested.
-/

/-- The context of a tool call. -/
structure InvocationContext where
  agentId : AgentId
  tokens : List CapabilityHandle
  capabilityRegistry : CapabilityRegistry

namespace InvocationContext

/-- Some handle of the context permits the file access at the canonical path. -/
def permitsCanonicalFile (ctx : InvocationContext) (now : DateTime) (kind : FileAccess)
    (canonical : Text) : Bool :=
  ctx.tokens.any fun h =>
    ctx.capabilityRegistry.permitsCanonicalFile now h ctx.agentId kind canonical

end InvocationContext
