import AaOS.Core.Capability
import AaOS.Core.Budget

/-!
# Errors

The errors of `aaos-core/src/error.rs` that the modelled functions raise.
-/

/-- An error of the runtime. -/
inductive CoreError where
  | agentNotFound (agentId : AgentId)
  | capabilityDenied (agentId : AgentId) (capability : Capability) (reason : Text)
  | invalidManifest (message : Text)
  | invalidStateTransition (source target : Text)
  | toolNotFound (name : Text)
  | schemaValidation (message : Text)
  | ipc (message : Text)
  | budgetExceeded (e : BudgetExceeded)
  | yaml (message : Text)
  | json (message : Text)

/-- The texts of identifiers and capabilities in messages. -/
structure MessageTexts where
  agentId : AgentId → Text
  capability : Capability → Text

/-- The text of an error. -/
def CoreError.text (texts : MessageTexts) : CoreError → Text
  | agentNotFound agentId => "agent not found: " ++ texts.agentId agentId
  | capabilityDenied agentId capability reason =>
    "capability denied: agent " ++ texts.agentId agentId ++ " lacks "
      ++ texts.capability capability ++ ": " ++ reason
  | invalidManifest message => "invalid manifest: " ++ message
  | invalidStateTransition source target =>
    "invalid state transition: " ++ source ++ " -> " ++ target
  | toolNotFound name => "tool not found: " ++ name
  | schemaValidation message => "schema validation failed: " ++ message
  | ipc message => "ipc error: " ++ message
  | budgetExceeded e => "token budget exceeded: " ++ e.text
  | yaml message => message
  | json message => message
