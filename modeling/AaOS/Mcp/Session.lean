import AaOS.Lib.Machine
import AaOS.Mcp.Transport

/-!
# Sessions of the MCP client

`McpSession` of `aaos-mcp/src/client/session.rs`, over stdio transports.  A session draws the
identifiers of its requests from one counter.  A call whose request fails marks the session
unhealthy; then a new transport takes the place of the old one after another handshake, while calls
that were begun before go on with the old one.
-/

open List

namespace Mcp

/-- A session: `waiting` calls have found it healthy; a handshake has a transport and the number of
responses taken. -/
structure McpSession where
  nextId : UInt64
  healthy : Bool
  checked : Nat
  transports : List StdioTransport
  current : Nat
  connected : Bool
  handshake : Option (Nat × Nat)

/-- What happens to a session. -/
inductive SessionInput where
  | check
  | leave
  | call (remoteName : Text) (arguments : Json)
  | reconnect
  | proceed
  | transport (k : Nat) (input : TransportInput)

/-- The request that holds the lock of a transport is dropped. -/
def SessionInput.isCancel : SessionInput → Bool
  | .transport _ .cancel => true
  | _ => false

/-- The first request of a handshake. -/
def initializeRequest (id : UInt64) : JsonRpcRequest :=
  .new id "initialize" <| .obj
    [("capabilities", .obj []),
      ("clientInfo", .obj
        [("name", .str "aaos"), ("version", .str "0.1")]),
      ("protocolVersion", .str "2024-11-05")]

/-- The second request of a handshake. -/
def toolsListRequest (id : UInt64) : JsonRpcRequest := .new id "tools/list" (.obj [])

def toolsCallRequest (id : UInt64) (remoteName : Text) (arguments : Json) : JsonRpcRequest :=
  .new id "tools/call" <| .obj
    [("arguments", arguments), ("name", .str remoteName)]

namespace McpSession

/-- A session at the beginning of its first handshake. -/
def connect : McpSession where
  nextId := 2
  healthy := false
  checked := 0
  transports := [StdioTransport.spawn.send (initializeRequest 1)]
  current := 0
  connected := false
  handshake := some (0, 0)

def send (s : McpSession) (k : Nat) (request : UInt64 → JsonRpcRequest) : McpSession :=
  { s with
    nextId := s.nextId + 1
    transports := s.transports.modify k (·.send (request s.nextId)) }

def proceed (s : McpSession) (k taken : Nat) : McpSession :=
  match (s.transports[k]?).bind (·.returned[taken]?) with
  | none => s
  | some (_, .error _) => { s with handshake := none }
  | some (_, .ok response) =>
    if response.error.isSome then { s with handshake := none }
    else if taken = 0 then { s.send k toolsListRequest with handshake := some (k, 1) }
    else { s with current := k, healthy := true, connected := true, handshake := none }

def callFailed (returned : List (JsonRpcRequest × Except Text JsonRpcResponse)) : Bool :=
  returned.any fun
    | (request, .error _) => request.method == "tools/call"
    | _ => false

variable (wire : Wire) (servers : Nat → Server wire)

def onTransport (s : McpSession) (k : Nat) (input : TransportInput) : McpSession :=
  match s.transports[k]? with
  | none => s
  | some t =>
    let t' := t.step wire (servers k) input
    { s with
      transports := s.transports.set k t'
      healthy := s.healthy && !callFailed (t'.returned.drop t.returned.length) }

/-- One step of a session. -/
def step (s : McpSession) : SessionInput → McpSession
  | .check => if s.healthy then { s with checked := s.checked + 1 } else s
  | .leave => { s with checked := s.checked - 1 }
  | .call remoteName arguments =>
    if s.checked = 0 then s
    else
      send { s with checked := s.checked - 1 } s.current
        (toolsCallRequest · remoteName arguments)
  | .reconnect =>
    if s.connected && !s.healthy && s.handshake.isNone then
      { s with
        nextId := s.nextId + 1
        transports := s.transports ++ [StdioTransport.spawn.send (initializeRequest s.nextId)]
        handshake := some (s.transports.length, 0) }
    else s
  | .proceed =>
    match s.handshake with
    | none => s
    | some (k, taken) => s.proceed k taken
  | .transport k input => s.onTransport wire servers k input

/-! ### Responses and their requests -/

/-- Every response that has been returned has the identifier of its request. -/
def Matched (s : McpSession) : Prop := ∀ t ∈ s.transports, t.Matched

/-- A request that holds the lock of its transport is not dropped after it has begun to write. -/
def Undropped (s : McpSession) : SessionInput → Prop
  | .transport k input => ∀ t ∈ s.transports[k]?, t.Undropped wire input
  | _ => True

/-- All transports of the session keep responses and requests together. -/
def Sound (s : McpSession) : Prop := ∀ t ∈ s.transports, t.Sound wire

variable {wire servers} {s : McpSession}

theorem sound_connect : connect.Sound wire := by
  intro t hmem
  rw [mem_singleton.mp hmem]
  apply StdioTransport.sound_spawn.send

theorem Sound.send (hsound : s.Sound wire) (k : Nat) (request : UInt64 → JsonRpcRequest) :
  (s.send k request).Sound wire
  := by
  intro t hmem
  obtain ⟨i, hi⟩ := mem_iff_getElem?.mp hmem
  simp only [McpSession.send, getElem?_modify] at hi
  obtain ⟨t', ht', heq⟩ := Option.map_eq_some_iff.mp hi
  have hsound' := hsound t' (mem_of_getElem? ht')
  split_ifs at heq
  · rw [← heq]
    apply hsound'.send
  · rw [← heq]
    apply hsound'

theorem Sound.proceed (hsound : s.Sound wire) (k taken : Nat) : (s.proceed k taken).Sound wire := by
  unfold McpSession.proceed
  split
  · apply hsound
  · apply hsound
  · split_ifs
    · apply hsound
    · apply hsound.send
    · apply hsound

theorem Sound.onTransport (hsound : s.Sound wire) {k : Nat} {input : TransportInput}
    (hund : s.Undropped wire (.transport k input)) :
  (s.onTransport wire servers k input).Sound wire
  := by
  unfold McpSession.onTransport
  split
  · apply hsound
  · rename_i t ht
    intro t' hmem
    obtain hmem | rfl := mem_or_eq_of_mem_set hmem
    · apply hsound t' hmem
    · apply StdioTransport.sound_step (hsound t (mem_of_getElem? ht))
      apply hund t ht

theorem sound_step (s : McpSession) (input : SessionInput) (hsound : s.Sound wire)
    (hund : s.Undropped wire input) :
  (s.step wire servers input).Sound wire
  := by
  cases input with
  | check =>
    rw [step]
    split_ifs <;> apply hsound
  | leave => apply hsound
  | call remoteName arguments =>
    rw [step]
    split_ifs
    · apply hsound
    · apply Sound.send
      apply hsound
  | reconnect =>
    rw [step]
    split_ifs
    · intro t hmem
      obtain hmem | hmem := mem_append.mp hmem
      · apply hsound t hmem
      · rw [mem_singleton.mp hmem]
        apply StdioTransport.sound_spawn.send
    · apply hsound
  | proceed =>
    simp only [step]
    split
    · apply hsound
    · apply hsound.proceed
  | transport k input => apply hsound.onTransport hund

/-- In every run in which no request is dropped once it is written, responses have the identifier of
their request. -/
theorem matched_of_undropped (wire : Wire) (servers : Nat → Server wire)
    {inputs : List SessionInput}
    (hundropped : Machine.EveryStep (step wire servers) (Undropped wire) connect inputs) :
  (Machine.after (step wire servers) connect inputs).Matched
  := by
  have hsound := hundropped.invariant sound_step sound_connect
  intro t hmem
  apply (hsound t hmem).matched

/-- The identifiers of the requests that were answered, with the literals in their responses. -/
def identifiers (s : McpSession) : List (UInt64 × Option Text) :=
  s.transports.flatMap fun t => t.returned.filterMap fun
    | (request, .ok ⟨_, .num literal, _, _⟩) => some (request.id, some literal)
    | (request, .ok _) => some (request.id, none)
    | (_, .error _) => none

theorem Matched.identifiers (hmatch : s.Matched) {requestId : UInt64} {literal : Option Text}
    (hmem : (requestId, literal) ∈ s.identifiers) :
  literal = some (Nat.toDigits 10 requestId.toNat)
  := by
  obtain ⟨t, ht, hmem⟩ := mem_flatMap.mp hmem
  obtain ⟨⟨request, result⟩, hret, heq⟩ := mem_filterMap.mp hmem
  cases result with
  | ok response =>
    obtain ⟨jsonrpc, id, result, error⟩ := response
    obtain rfl : id = jsonNat request.id.toNat := hmatch t ht request _ hret
    cases heq
    rfl
  | error e => cases heq

theorem undropped_of_isCancel {input : SessionInput} (hinput : (!input.isCancel) = true) :
  s.Undropped wire input
  := by
  unfold Undropped
  split
  · rename_i k input
    intro t _
    cases input with
    | cancel => cases hinput
    | _ => trivial
  · trivial

theorem everyStep_undropped {inputs : List SessionInput}
    (hinput : inputs.all (!·.isCancel) = true) :
  Machine.EveryStep (step wire servers) (Undropped wire) s inputs
  := by
  rintro before input rest rfl
  apply undropped_of_isCancel
  apply List.all_eq_true.mp hinput
  simp

/-- A request that has just taken the lock may be dropped. -/
theorem undropped_lock {k : Nat} (hidle : (s.transports[k]?).all (·.active.isNone) = true)
    (i : Nat) :
  (s.step wire servers (.transport k (.lock i))).Undropped wire (.transport k .cancel)
  := by
  intro t ht request exchange hact
  rw [step, onTransport] at ht
  split at ht
  case h_1 hnone =>
    rw [hnone] at ht
    cases ht
  case h_2 t' ht' =>
    have hnone : t'.active = none := by simpa [ht'] using hidle
    obtain ⟨hlt, -⟩ := List.getElem?_eq_some_iff.mp ht'
    rw [getElem?_set_self hlt, Option.mem_some_iff] at ht
    rw [← ht, StdioTransport.step, StdioTransport.lock, hnone] at hact
    split at hact
    · cases hact
      rfl
    · rw [hnone] at hact
      cases hact

end McpSession

/-! ### Lines of JSON -/

namespace JsonLine

def quoted (s : Text) : Text :=
  '"' :: s.flatMap (fun c =>
    if c = '"' ∨ c = '\\' then ['\\', c] else if c = '\n' then ['\\', 'n'] else [c]) ++ ['"']

mutual

/-- A value as a compact text. -/
def written : Json → Text
  | .null => "null"
  | .bool b => if b then "true" else "false"
  | .num literal => literal
  | .str s => quoted s
  | .arr elems => '[' :: [','].intercalate (writtenElems elems) ++ [']']
  | .obj fields => '{' :: [','].intercalate (writtenFields fields) ++ ['}']

def writtenElems : List Json → List Text
  | [] => []
  | v :: elems => written v :: writtenElems elems

def writtenFields : List (Text × Json) → List Text
  | [] => []
  | (name, v) :: fields => (quoted name ++ ':' :: written v) :: writtenFields fields

end

/-- The beginning of a response. -/
def start : Text := "\x7b\"jsonrpc\":\"2.0\",\"id\":"

/-- A message with its identifier and then its other fields. -/
def message (id fields : Text) : Text := start ++ (id ++ ',' :: fields)

def readId (line : Text) : Option Text :=
  (Text.stripPrefix start line).map (·.takeWhile Char.isDigit)

theorem message_append (id fields rest : Text) :
  message id fields ++ rest = message id (fields ++ rest)
  := by
  simp [message]

theorem readId_message (n : Nat) (fields : Text) :
  readId (message (Nat.toDigits 10 n) fields) = some (Nat.toDigits 10 n)
  := by
  have hdigit : ∀ c ∈ Nat.toDigits 10 n, c.isDigit = true := fun c hc =>
    Nat.isDigit_of_mem_toDigits (by decide) (by decide) hc
  have hcomma : (',' :: fields).takeWhile Char.isDigit = [] := rfl
  rw [readId, message, Text.stripPrefix_append, Option.map_some, takeWhile_append_of_pos hdigit,
    hcomma, append_nil]

theorem newline_not_mem_message (n : Nat) {fields : Text} (hfield : '\n' ∉ fields) :
  '\n' ∉ message (Nat.toDigits 10 n) fields
  := by
  have hstart : '\n' ∉ start := by decide
  intro hmem
  rw [message, mem_append, mem_append, mem_cons] at hmem
  obtain hmem | hmem | hmem | hmem := hmem
  · exact hstart hmem
  · cases Nat.isDigit_of_mem_toDigits (by decide) (by decide) hmem
  · cases hmem
  · exact hfield hmem

/-- A response with an empty result. -/
def response (id : Text) : JsonRpcResponse := ⟨"2.0", .num id, some (.obj []), none⟩

/-- The wire of a client that writes requests as JSON without line breaks, which only malformed
literals could have. -/
def wire : Wire where
  encode request :=
    message (Nat.toDigits 10 request.id.toNat)
      (("\"method\":" ++ (quoted request.method ++ (",\"params\":" ++ (written request.params
        ++ ['}'])))).filter (· ≠ '\n'))
  decode line :=
    match readId line with
    | some id => .ok (response id)
    | none => .error "no identifier"
  newline_not_mem_encode := by
    intro request
    apply newline_not_mem_message
    simp

theorem decode_message (n : Nat) (fields : Text) :
  wire.decode (message (Nat.toDigits 10 n) fields) = .ok (response (Nat.toDigits 10 n))
  := by
  change (match readId (message (Nat.toDigits 10 n) fields) with
    | some id => Except.ok (response id)
    | none => Except.error "no identifier".toList) = _
  rw [readId_message]

/-- A server that answers every request with an empty result. -/
def server : Server wire where
  answer _ line := (readId line).map (message · "\"result\":\x7b\x7d\x7d")
  replies := by
    intro n request
    have hread : readId (wire.encode request) = some (Nat.toDigits 10 request.id.toNat) :=
      readId_message _ _
    refine ⟨_, congrArg (Option.map _) hread, newline_not_mem_message _ (by decide), ?_⟩
    refine ⟨response (Nat.toDigits 10 request.id.toNat), ?_, rfl⟩
    rw [message_append]
    apply decode_message

end JsonLine

namespace McpSession

/-- A request whose line has the given length takes the lock, is written, received and answered. -/
def asked (length : Nat) : List SessionInput :=
  let inputs : List TransportInput := .lock 0 :: List.replicate length .write ++ [.receive, .answer]
  inputs.map (.transport 0)

def answered : List SessionInput := List.replicate 40 (.transport 0 .read)

/-- The handshake of a session, after which two calls may be made. -/
def handshakeRun : List SessionInput :=
  asked 160 ++ answered ++ [.proceed] ++ asked 60 ++ answered ++ [.proceed, .check, .check]

/-- A call is dropped when it has taken the lock, before it writes; another call is made. -/
def carefulRun : List SessionInput :=
  handshakeRun ++ [.call "search" (.obj [])]
    ++ .transport 0 (.lock 0) :: .transport 0 .cancel :: .call "search" (.obj [])
    :: (asked 100 ++ answered)

/-- A call is dropped when its request has been answered, and another call is made. -/
def droppedRun : List SessionInput :=
  handshakeRun ++ [.call "search" (.obj [])] ++ asked 100 ++ [.transport 0 .cancel]
    ++ [.call "search" (.obj [])] ++ asked 100 ++ answered

/-- The requests of the handshake and of the second call return with their responses. -/
theorem matched_carefulRun :
  (Machine.after (step JsonLine.wire fun _ => JsonLine.server) connect carefulRun).identifiers
      = [(1, some ['1']), (2, some ['2']), (4, some ['4'])]
    ∧ (Machine.after (step JsonLine.wire fun _ => JsonLine.server) connect carefulRun).Matched
  := by
  constructor
  · decide +kernel
  · apply matched_of_undropped
    apply Machine.EveryStep.append
    · apply everyStep_undropped
      decide +kernel
    · rw [Machine.everyStep_cons, Machine.everyStep_cons]
      refine ⟨undropped_of_isCancel rfl, undropped_lock (by decide +kernel) 0, ?_⟩
      apply everyStep_undropped
      decide +kernel

/-- The second call returns the response of the call that was dropped. -/
theorem not_matched_droppedRun :
  (Machine.after (step JsonLine.wire fun _ => JsonLine.server) connect droppedRun).identifiers
      = [(1, some ['1']), (2, some ['2']), (4, some ['3'])]
    ∧ ¬ (Machine.after (step JsonLine.wire fun _ => JsonLine.server) connect droppedRun).Matched
  := by
  have hiden : (Machine.after (step JsonLine.wire fun _ => JsonLine.server) connect
      droppedRun).identifiers = [(1, some ['1']), (2, some ['2']), (4, some ['3'])] := by
    decide +kernel
  use hiden
  intro hmatch
  have hmem : ((4 : UInt64), some ['3'])
      ∈ (Machine.after (step JsonLine.wire fun _ => JsonLine.server) connect
        droppedRun).identifiers := by
    rw [hiden]
    simp
  cases hmatch.identifiers hmem

end McpSession

end Mcp
