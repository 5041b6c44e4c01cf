import AaOS.Executor.Transcript
import Mathlib.Data.Option.Basic

/-!
# The bodies of requests

The clients in `aaos-llm/src/openai_compat.rs` and `aaos-llm/src/anthropic.rs` build the body of a
request from its messages.  A builder gives no body when it panics, as both do on a summary.
-/

/-! ### Requests in the format of OpenAI -/

namespace OpenAiCompatClient

variable (jsonText : Json → Text)

def buildToolCall (use : ToolUse) : Json :=
  .obj [("function", .obj [("arguments", .str (jsonText use.input)),
      ("name", .str use.name)]),
    ("id", .str use.id),
    ("type", .str "function")]

def buildAssistantContent (content : List ContentBlock) : Json :=
  match content.filterMap ContentBlock.asText with
  | [] => .null
  | textParts => .str (['\n'].intercalate textParts)

def buildToolContent : Json → Text
  | .str s => s
  | other => jsonText other

def buildMessage : Message → Option Json
  | .user content =>
    some (.obj [("content".toList, .str content), ("role".toList, .str "user".toList)])
  | .assistant content =>
    let toolCalls := (toolUsesOf content).map (buildToolCall jsonText)
    some (.obj ([("content".toList, buildAssistantContent content),
        ("role".toList, .str "assistant".toList)]
      ++ if toolCalls.isEmpty then [] else [("tool_calls".toList, .arr toolCalls)]))
  | .toolResult toolUseId content _ =>
    some (.obj [("content".toList, .str (buildToolContent jsonText content)),
      ("role".toList, .str "tool".toList),
      ("tool_call_id".toList, .str toolUseId)])
  | .summary .. => none

def buildMessages (request : CompletionRequest) : Option (List Json) := do
  let messages ← request.messages.mapM (buildMessage jsonText)
  let system :=
    if request.system.isEmpty then []
    else [.obj [("content", .str request.system), ("role", .str "system")]]
  return system ++ messages

/-- The limit of the model for the tokens of a response. -/
def modelMax (model : Text) : UInt32 :=
  if model = "deepseek-reasoner" then 32768 else 8192

def buildTool (tool : ToolDefinition) : Json :=
  .obj [("function", .obj [("description", .str tool.description),
      ("name", .str tool.name),
      ("parameters", tool.inputSchema)]),
    ("type", .str "function")]

/-- The body of a request. -/
def buildRequestBody (request : CompletionRequest) : Option Json := do
  let messages ← buildMessages jsonText request
  let tools := request.tools.map buildTool
  let maxTokens := min request.maxTokens (modelMax request.model)
  return .obj ([("max_tokens".toList, jsonNat maxTokens.toNat),
      ("messages".toList, .arr messages),
      ("model".toList, .str request.model)]
    ++ if tools.isEmpty then [] else [("tools".toList, .arr tools)])

end OpenAiCompatClient

/-! ### Requests in the format of Anthropic -/

namespace AnthropicClient

variable (jsonText : Json → Text)

def buildBlock : ContentBlock → Json
  | .text text => .obj [("text", .str text), ("type", .str "text")]
  | .toolUse id name input =>
    .obj [("id", .str id), ("input", input), ("name", .str name),
      ("type", .str "tool_use")]

def buildMessage : Message → Option Json
  | .user content =>
    some (.obj [("content", .str content), ("role", .str "user")])
  | .assistant content =>
    some (.obj [("content", .arr (content.map buildBlock)),
      ("role", .str "assistant")])
  | .toolResult toolUseId content isError =>
    some (.obj [("content", .arr [.obj [("content", .str (jsonText content)),
          ("is_error", .bool isError),
          ("tool_use_id", .str toolUseId),
          ("type", .str "tool_result")]]),
      ("role", .str "user")])
  | .summary .. => none

def buildTool (tool : ToolDefinition) : Json :=
  .obj [("description", .str tool.description),
    ("input_schema", tool.inputSchema),
    ("name", .str tool.name)]

/-- The body of a request. -/
def buildRequestBody (request : CompletionRequest) : Option Json := do
  let messages ← request.messages.mapM (buildMessage jsonText)
  let tools := request.tools.map buildTool
  return .obj ([("max_tokens".toList, jsonNat request.maxTokens.toNat),
      ("messages".toList, .arr messages),
      ("model".toList, .str request.model),
      ("system".toList, .str request.system)]
    ++ if tools.isEmpty then [] else [("tools".toList, .arr tools)])

end AnthropicClient

/-! ### Requests that are built -/

theorem exists_mapM_eq_some {build : Message → Option Json}
    (hbuild : ∀ message, message.isSummary = false → (build message).isSome = true)
    {messages : List Message} (hfree : SummaryFree messages) :
  ∃ built, messages.mapM build = some built
  := by
  induction messages with
  | nil => exact ⟨[], rfl⟩
  | cons message messages ih =>
    obtain ⟨built, hbuilt⟩ := ih (fun m hmem => hfree m (List.mem_cons_of_mem _ hmem))
    obtain ⟨first, hfirst⟩ := Option.isSome_iff_exists.mp
      (hbuild message (hfree message List.mem_cons_self))
    use first :: built
    simp [hfirst, hbuilt]

theorem OpenAiCompatClient.isSome_buildRequestBody
    (jsonText : Json → Text) {request : CompletionRequest} (hfree : SummaryFree request.messages) :
  (buildRequestBody jsonText request).isSome = true
  := by
  have hbuild : ∀ message : Message, message.isSummary = false →
      (buildMessage jsonText message).isSome = true := by
    rintro (_ | _ | _ | _) ⟨⟩ <;> rfl
  obtain ⟨built, hbuilt⟩ := exists_mapM_eq_some hbuild hfree
  unfold buildRequestBody buildMessages
  rw [hbuilt]
  rfl

theorem AnthropicClient.isSome_buildRequestBody
    (jsonText : Json → Text) {request : CompletionRequest} (hfree : SummaryFree request.messages) :
  (buildRequestBody jsonText request).isSome = true
  := by
  have hbuild : ∀ message : Message, message.isSummary = false →
      (buildMessage jsonText message).isSome = true := by
    rintro (_ | _ | _ | _) ⟨⟩ <;> rfl
  obtain ⟨built, hbuilt⟩ := exists_mapM_eq_some hbuild hfree
  unfold buildRequestBody
  rw [hbuilt]
  rfl
