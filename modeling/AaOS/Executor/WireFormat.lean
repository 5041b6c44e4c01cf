import AaOS.Executor.RequestBody
import AaOS.Tools.WebFetch

/-!
# The formats of the models

`parse_response` of `aaos-llm/src/openai_compat.rs` and of `aaos-llm/src/anthropic.rs` reads the
content of a response.  Sent back as a message of the assistant, the content is read as the same.
The reader of JSON texts and the debug texts of strings are parameters.
-/

open List

/-- The value at a path; only the first element of an array is ever asked for. -/
def Json.pointer (v : Json) (tokens : List Text) : Option Json :=
  tokens.foldlM (fun v token =>
    match v with
    | .obj fields => fields.lookup token
    | .arr elems => if token = "0" then elems.head? else none
    | _ => none) v

def apiErrorMessage (body : Json) : Text :=
  ((body.pointer ["error", "message"]).bind Json.asStr).getD "unknown error"

/-- The usage in a response, whose fields have different names. -/
def usageOf (inputTokens outputTokens : Text) (body : Json) : TokenUsage :=
  match body.get "usage" with
  | none => {}
  | some u => ⟨((u.get inputTokens).bind Json.asU64).getD 0,
      ((u.get outputTokens).bind Json.asU64).getD 0⟩

namespace OpenAiCompatClient

variable (jsonText : Json → Text) (fromStr : Text → Option Json) (debug : Text → Text)

def parseToolCall (call : Json) : ToolUse where
  id := ((call.get "id").bind Json.asStr).getD []
  name := ((call.pointer ["function", "name"]).bind Json.asStr).getD []
  input :=
    let argumentsStr := ((call.pointer ["function", "arguments"]).bind Json.asStr).getD "\x7b\x7d"
    (fromStr argumentsStr).getD (.obj [])

def textBlocks (text : Text) : List ContentBlock := if text = [] then [] else [.text text]

def blockOf (use : ToolUse) : ContentBlock := .toolUse use.id use.name use.input

def parseContent (choice : Json) : List ContentBlock :=
  textBlocks (((choice.get "content").bind Json.asStr).getD [])
    ++ ((((choice.get "tool_calls").bind Json.asArray).getD []).map (parseToolCall fromStr)).map
      blockOf

def stopReasonOf (finishReason : Text) : Option LlmStopReason :=
  if finishReason = "stop" then some .endTurn
  else if finishReason = "tool_calls" then some .toolUse
  else if finishReason = "length" then some .maxTokens
  else if finishReason = "content_filter" then some .stopSequence
  else none

/-- The response of the model, or the error of the client. -/
def parseResponse (status : UInt16) (body : Json) : Except LlmError CompletionResponse :=
  if status = 401 ∨ status = 403 then .error .authError
  else if status = 429 then .error (.rateLimited 60000)
  else if 400 ≤ status then .error (.apiError status (apiErrorMessage body))
  else
    match body.pointer ["choices", "0", "message"] with
    | none => .error (.parseError "missing choices[0].message")
    | some choice =>
      let finishReason :=
        ((body.pointer ["choices", "0", "finish_reason"]).bind Json.asStr).getD "stop"
      match stopReasonOf finishReason with
      | none => .error (.parseError ("unknown finish_reason: " ++ debug finishReason))
      | some stopReason =>
        .ok ⟨parseContent fromStr choice, stopReason,
          usageOf "prompt_tokens" "completion_tokens" body⟩

/-- A response with a message and a reason to stop. -/
def responseWith (reason : Text) (message : Json) : Json :=
  .obj [("choices", .arr [.obj [("finish_reason", .str reason), ("message", message)]])]

/-- The content, sent as a message of the assistant and read as a response, is the same. -/
def ReadsBack (content : List ContentBlock) : Prop :=
  ∃ message, buildMessage jsonText (.assistant content) = some message
    ∧ ∀ status < 400, ∀ reason stopReason, stopReasonOf reason = some stopReason →
      parseResponse fromStr debug status (responseWith reason message)
        = .ok ⟨content, stopReason, {}⟩

/-- The inputs of the tools round-trip through their texts. -/
def RoundTrips (content : List ContentBlock) : Prop :=
  ∀ use ∈ toolUsesOf content, fromStr (jsonText use.input) = some use.input

end OpenAiCompatClient

namespace AnthropicClient

variable (jsonText : Json → Text) (debug : Text → Text)

def parseBlock (block : Json) : Option ContentBlock := do
  let blockType ← (← block.get "type").asStr
  if blockType = "text".toList then return .text (← (← block.get "text").asStr)
  else if blockType = "tool_use".toList then
    return .toolUse (← (← block.get "id").asStr) (← (← block.get "name").asStr)
      (← block.get "input")
  else none

def stopReasonOf (stopReason : Text) : Option LlmStopReason :=
  if stopReason = "end_turn" then some .endTurn
  else if stopReason = "tool_use" then some .toolUse
  else if stopReason = "max_tokens" then some .maxTokens
  else if stopReason = "stop_sequence" then some .stopSequence
  else none

def debugReason : Option Text → Text
  | none => "None"
  | some reason => "Some(" ++ debug reason ++ ")"

/-- The response of the model, or the error of the client. -/
def parseResponse (status : UInt16) (body : Json) : Except LlmError CompletionResponse :=
  if status = 401 then .error .authError
  else if status = 429 then .error (.rateLimited 60000)
  else if 400 ≤ status then .error (.apiError status (apiErrorMessage body))
  else
    match (body.get "content").bind Json.asArray with
    | none => .error (.parseError "missing 'content' array")
    | some content =>
      let reason := (body.get "stop_reason").bind Json.asStr
      match reason.bind stopReasonOf with
      | none => .error (.parseError ("unknown stop_reason: " ++ debugReason debug reason))
      | some stopReason =>
        .ok ⟨content.filterMap parseBlock, stopReason,
          usageOf "input_tokens" "output_tokens" body⟩

/-- A message with a reason to stop, as a response. -/
def responseWith (reason : Text) : Json → Json
  | .obj fields => .obj (fields ++ [("stop_reason".toList, .str reason)])
  | other => other

/-- The content, sent as a message of the assistant and read as a response, is the same. -/
def ReadsBack (content : List ContentBlock) : Prop :=
  ∃ message, buildMessage jsonText (.assistant content) = some message
    ∧ ∀ status < 400, ∀ reason stopReason, stopReasonOf reason = some stopReason →
      parseResponse debug status (responseWith reason message) = .ok ⟨content, stopReason, {}⟩

end AnthropicClient

theorem ne_of_lt_four_hundred {status error : UInt16} (hstat : status < 400)
    (herror : 400 ≤ error) :
  status ≠ error
  := by
  rintro rfl
  exact UInt16.not_le.mpr hstat herror

/-! ### Contents in the format of OpenAI -/

namespace OpenAiCompatClient

variable {jsonText : Json → Text} {fromStr : Text → Option Json} {debug : Text → Text}

/-- The content of a response is a text, unless it is empty, and calls of tools. -/
theorem exists_content_eq {status : UInt16} {body : Json} {response : CompletionResponse}
    (hparse : parseResponse fromStr debug status body = .ok response) :
  ∃ text, ∃ uses : List ToolUse, response.content = textBlocks text ++ uses.map blockOf
  := by
  unfold parseResponse at hparse
  split_ifs at hparse
  split at hparse
  · cases hparse
  · dsimp only at hparse
    split at hparse
    · cases hparse
    · cases hparse
      exact ⟨_, _, rfl⟩

theorem parseResponse_of_message {status : UInt16} {body choice : Json} {reason : Text}
    {stopReason : LlmStopReason} (hstat : status < 400)
    (hpick : body.pointer ["choices", "0", "message"] = some choice)
    (hfin : body.pointer ["choices", "0", "finish_reason"] = some (.str reason))
    (hreason : stopReasonOf reason = some stopReason) :
  parseResponse fromStr debug status body
    = .ok ⟨parseContent fromStr choice, stopReason,
      usageOf "prompt_tokens" "completion_tokens" body⟩
  := by
  have hfin' : ((body.pointer ["choices", "0", "finish_reason"]).bind Json.asStr).getD "stop"
      = reason := by
    rw [hfin]
    rfl
  have hauth : ¬(status = 401 ∨ status = 403) := by
    rintro (hstat' | hstat')
    all_goals exact ne_of_lt_four_hundred hstat (by decide) hstat'
  have hrate : status ≠ 429 := ne_of_lt_four_hundred hstat (by decide)
  have herror : ¬400 ≤ status := UInt16.not_le.mpr hstat
  rw [parseResponse, if_neg hauth, if_neg hrate, if_neg herror, hpick]
  simp only [hfin', hreason]

theorem parseToolCall_buildToolCall {use : ToolUse}
    (hround : fromStr (jsonText use.input) = some use.input) :
  parseToolCall fromStr (buildToolCall jsonText use) = use
  := by
  change ToolUse.mk use.id use.name ((fromStr (jsonText use.input)).getD (.obj [])) = use
  rw [hround, Option.getD_some]

theorem toolUsesOf_content (text : Text) (uses : List ToolUse) :
  toolUsesOf (textBlocks text ++ uses.map blockOf) = uses
  := by
  have htext : toolUsesOf (textBlocks text) = [] := by
    unfold textBlocks
    split_ifs <;> rfl
  have huses : toolUsesOf (uses.map blockOf) = uses := by
    unfold toolUsesOf
    rw [filterMap_map]
    apply filterMap_some
  rw [toolUsesOf, filterMap_append]
  change toolUsesOf (textBlocks text) ++ toolUsesOf (uses.map blockOf) = uses
  rw [htext, huses, nil_append]

theorem buildAssistantContent_content (text : Text) (uses : List ToolUse) :
  buildAssistantContent (textBlocks text ++ uses.map blockOf)
    = if text = [] then .null else .str text
  := by
  have huses : (uses.map blockOf).filterMap ContentBlock.asText = [] := by
    rw [filterMap_map]
    apply filterMap_none
  unfold buildAssistantContent textBlocks
  rw [filterMap_append, huses, append_nil]
  split_ifs
  · rfl
  · simp [ContentBlock.asText, intercalate]

theorem parseContent_message {text : Text} {uses : List ToolUse}
    (hround : ∀ use ∈ uses, fromStr (jsonText use.input) = some use.input) {message : Json}
    (hmsg : buildMessage jsonText (.assistant (textBlocks text ++ uses.map blockOf))
      = some message) :
  parseContent fromStr message = textBlocks text ++ uses.map blockOf
  := by
  have hcalls : (uses.map (buildToolCall jsonText)).map (parseToolCall fromStr) = uses := by
    rw [map_map, map_congr_left (g := id), map_id]
    intro use huse
    apply parseToolCall_buildToolCall (hround use huse)
  have htext : ((message.get "content").bind Json.asStr).getD [] = text := by
    rw [buildMessage, toolUsesOf_content, buildAssistantContent_content] at hmsg
    cases hmsg
    change (Json.asStr (if text = [] then .null else .str text)).getD [] = text
    split_ifs with hempty
    · exact hempty.symm
    · rfl
  have htools : ((message.get "tool_calls").bind Json.asArray).getD []
      = uses.map (buildToolCall jsonText) := by
    rw [buildMessage, toolUsesOf_content] at hmsg
    cases hmsg
    cases uses <;> rfl
  rw [parseContent, htext, htools, hcalls]

theorem readsBack {text : Text} {uses : List ToolUse}
    (hround : RoundTrips jsonText fromStr (textBlocks text ++ uses.map blockOf)) :
  ReadsBack jsonText fromStr debug (textBlocks text ++ uses.map blockOf)
  := by
  rw [RoundTrips, toolUsesOf_content] at hround
  refine ⟨_, rfl, ?_⟩
  intro status hstat reason stopReason hreason
  rw [parseResponse_of_message hstat rfl rfl hreason, parseContent_message hround rfl]
  rfl

end OpenAiCompatClient

namespace AnthropicClient

theorem parseResponse_of_content {debug : Text → Text} {body : Json} {content : List Json}
    {status : UInt16} {reason : Text} {stopReason : LlmStopReason} (hstat : status < 400)
    (hcon : (body.get "content").bind Json.asArray = some content)
    (hstop : (body.get "stop_reason").bind Json.asStr = some reason)
    (hreason : stopReasonOf reason = some stopReason) :
  parseResponse debug status body
    = .ok ⟨content.filterMap parseBlock, stopReason, usageOf "input_tokens" "output_tokens" body⟩
  := by
  have hauth : status ≠ 401 := ne_of_lt_four_hundred hstat (by decide)
  have hrate : status ≠ 429 := ne_of_lt_four_hundred hstat (by decide)
  have herror : ¬400 ≤ status := UInt16.not_le.mpr hstat
  rw [parseResponse, if_neg hauth, if_neg hrate, if_neg herror, hcon, hstop]
  simp [hreason]

theorem parseBlock_buildBlock (block : ContentBlock) :
  parseBlock (buildBlock block) = some block
  := by
  cases block <;> rfl

theorem readsBack (jsonText : Json → Text) (debug : Text → Text) (content : List ContentBlock) :
  ReadsBack jsonText debug content
  := by
  have hblock : (content.map buildBlock).filterMap parseBlock = content := by
    rw [filterMap_map, filterMap_congr (g := some), filterMap_some]
    intro block _
    apply parseBlock_buildBlock
  refine ⟨_, rfl, ?_⟩
  intro status hstat reason stopReason hreason
  rw [parseResponse_of_content hstat rfl rfl hreason, hblock]
  rfl

end AnthropicClient

/-! ### Both formats -/

/-- The content of every response survives the format of the client which it came through. -/
theorem content_readsBack_of_parseResponse (jsonText : Json → Text) (fromStr : Text → Option Json)
    (debug : Text → Text) :
  (∀ status body response,
    OpenAiCompatClient.parseResponse fromStr debug status body = .ok response →
      OpenAiCompatClient.RoundTrips jsonText fromStr response.content →
        OpenAiCompatClient.ReadsBack jsonText fromStr debug response.content)
  ∧ ∀ status body response, AnthropicClient.parseResponse debug status body = .ok response →
      AnthropicClient.ReadsBack jsonText debug response.content
  := by
  constructor
  · intro status body response hparse hround
    obtain ⟨text, uses, hcon⟩ := OpenAiCompatClient.exists_content_eq hparse
    rw [hcon] at hround ⊢
    apply OpenAiCompatClient.readsBack hround
  · intro status body response _
    apply AnthropicClient.readsBack

/-- A response with a text and a call of a tool. -/
def callingBody : Json :=
  OpenAiCompatClient.responseWith "tool_calls" (.obj [("content", .str "ok"),
    ("tool_calls", .arr [OpenAiCompatClient.buildToolCall (fun _ => "\x7b\x7d")
      ⟨"c1", "grep", .obj []⟩])])

theorem content_readsBack_callingBody :
  ∃ response,
    OpenAiCompatClient.parseResponse (fun _ => some (.obj [])) id 200 callingBody = .ok response
      ∧ OpenAiCompatClient.ReadsBack (fun _ => "\x7b\x7d") (fun _ => some (.obj [])) id
        response.content
  := by
  refine ⟨⟨[.text "ok", .toolUse "c1" "grep" (.obj [])], .toolUse, {}⟩, rfl, ?_⟩
  apply (content_readsBack_of_parseResponse _ _ _).1 200 callingBody
  · rfl
  · intro use huse
    cases List.mem_singleton.mp huse
    rfl
