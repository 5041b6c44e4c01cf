import AaOS.Core.Json

/-!
# The stdio transport of the MCP client

`StdioTransport::send` of `aaos-mcp/src/client/transport.rs` writes a request as one line and takes
the next line of the output for the response, under one lock.  The future of a request can be
dropped where it waits: for the lock, while writing, or while reading a line, which is lost as far
as it was read.
-/

open List

namespace Mcp

/-! ### Messages -/

/-- An outbound request.  The client uses numbers as identifiers. -/
structure JsonRpcRequest where
  jsonrpc : Text
  id : UInt64
  method : Text
  params : Json

/-- A request with a number. -/
def JsonRpcRequest.new (id : UInt64) (method : Text) (params : Json) : JsonRpcRequest where
  jsonrpc := "2.0"
  id := id
  method := method
  params := params

structure JsonRpcError where
  code : Int
  message : Text
  data : Option Json

/-- An inbound response. -/
structure JsonRpcResponse where
  jsonrpc : Text
  id : Json
  result : Option Json
  error : Option JsonRpcError

def JsonRpcResponse.Answers (response : JsonRpcResponse) (request : JsonRpcRequest) : Prop :=
  response.id = jsonNat request.id.toNat

/-- How requests are written and responses are read.  A request is written without line
breaks. -/
structure Wire where
  encode : JsonRpcRequest → Text
  decode : Text → Except Text JsonRpcResponse
  newline_not_mem_encode : ∀ request, '\n' ∉ encode request

/-- The line of a request. -/
def Wire.line (wire : Wire) (request : JsonRpcRequest) : Text := wire.encode request ++ ['\n']

def Wire.Replies (wire : Wire) (request : JsonRpcRequest) (text : Text) : Prop :=
  '\n' ∉ text ∧ ∃ response, wire.decode (text ++ ['\n']) = .ok response ∧ response.Answers request

/-- A server answers every request with its identifier, depending on how many lines it has
answered. -/
structure Server (wire : Wire) where
  answer : Nat → Text → Option Text
  replies : ∀ n request, ∃ text, answer n (wire.encode request) = some text
    ∧ wire.Replies request text

/-! ### Requests under way -/

/-- What is left to write of the line of the request that holds the lock, or what has been read of
the response. -/
inductive Exchange where
  | writing (rest : Text)
  | reading (line : Text)

/-- A transport with its server and the pipes between them. -/
structure StdioTransport where
  waiting : List JsonRpcRequest
  active : Option (JsonRpcRequest × Exchange)
  stdin : Text
  received : List Text
  answered : Nat
  stdout : Text
  returned : List (JsonRpcRequest × Except Text JsonRpcResponse)

inductive TransportInput where
  | lock (i : Nat)
  | abandon (i : Nat)
  | write
  | read
  | cancel
  | receive
  | answer

namespace StdioTransport

/-- A transport whose server has been spawned. -/
def spawn : StdioTransport where
  waiting := []
  active := none
  stdin := []
  received := []
  answered := 0
  stdout := []
  returned := []

def send (t : StdioTransport) (request : JsonRpcRequest) : StdioTransport :=
  { t with waiting := t.waiting ++ [request] }

variable (wire : Wire) (server : Server wire)

def lock (t : StdioTransport) (i : Nat) : StdioTransport :=
  match t.active, t.waiting[i]? with
  | none, some request =>
    { t with
      active := some (request, .writing (wire.line request))
      waiting := t.waiting.eraseIdx i }
  | _, _ => t

/-- Write a character of the line; after the last one, the response is read. -/
def write (t : StdioTransport) : StdioTransport :=
  match t.active with
  | some (request, .writing (c :: rest)) =>
    { t with
      active := some (request, if rest.isEmpty then .reading [] else .writing rest)
      stdin := t.stdin ++ [c] }
  | _ => t

/-- Read a character; the response is complete with the end of the line. -/
def read (t : StdioTransport) : StdioTransport :=
  match t.active, t.stdout with
  | some (request, .reading line), c :: rest =>
    if c = '\n' then
      { t with
        active := none
        stdout := rest
        returned := t.returned ++ [(request, wire.decode (line ++ ['\n']))] }
    else { t with active := some (request, .reading (line ++ [c])), stdout := rest }
  | _, _ => t

/-- The server receives a line, when there is one. -/
def receive (t : StdioTransport) : StdioTransport :=
  if '\n' ∈ t.stdin then
    { t with
      received := t.received ++ [t.stdin.takeWhile (· ≠ '\n')]
      stdin := (t.stdin.dropWhile (· ≠ '\n')).tail }
  else t

/-- The server answers the first of the lines it has received. -/
def answer (t : StdioTransport) : StdioTransport :=
  match t.received with
  | [] => t
  | line :: rest =>
    { t with
      received := rest
      answered := t.answered + 1
      stdout := t.stdout ++ ((server.answer t.answered line).map (· ++ ['\n'])).getD [] }

/-- One step of the transport. -/
def step (t : StdioTransport) : TransportInput → StdioTransport
  | .lock i => t.lock wire i
  | .abandon i => { t with waiting := t.waiting.eraseIdx i }
  | .write => t.write
  | .read => t.read wire
  | .cancel => { t with active := none }
  | .receive => t.receive
  | .answer => t.answer wire server

/-! ### Responses and their requests -/

/-- Every response that has been returned has the identifier of its request. -/
def Matched (t : StdioTransport) : Prop :=
  ∀ request response, (request, .ok response) ∈ t.returned → response.Answers request

/-- The request that holds the lock is not dropped after it has begun to write. -/
def Undropped (t : StdioTransport) : TransportInput → Prop
  | .cancel => ∀ request exchange, t.active = some (request, exchange) →
      exchange = .writing (wire.line request)
  | _ => True

section Texts

variable (stdin : Text) (received : List Text) (stdout : Text)

/-- Where the response is that a request reads. -/
inductive Awaited (request : JsonRpcRequest) (line : Text) : Prop
  | unreceived (hline : line = []) (hstdin : stdin = wire.line request)
      (hreceived : received = []) (hstdout : stdout = [])
  | unanswered (hline : line = []) (hstdin : stdin = [])
      (hreceived : received = [wire.encode request]) (hstdout : stdout = [])
  | replied {text : Text} (hstdin : stdin = []) (hreceived : received = [])
      (hstdout : line ++ stdout = text ++ ['\n']) (hreplies : wire.Replies request text)

/-- Where the texts of the request that holds the lock are.  There are no other texts in the
pipes. -/
def Fits : Option (JsonRpcRequest × Exchange) → Prop
  | none => stdin = [] ∧ received = [] ∧ stdout = []
  | some (request, .writing rest) =>
    rest ≠ [] ∧ stdin ++ rest = wire.line request ∧ received = [] ∧ stdout = []
  | some (request, .reading line) => Awaited wire stdin received stdout request line

end Texts

/-- What holds of a transport as long as no request is dropped after it has begun to write. -/
structure Sound (t : StdioTransport) : Prop where
  matched : t.Matched
  fits : Fits wire t.stdin t.received t.stdout t.active

variable {wire server} {t : StdioTransport}

theorem sound_spawn : spawn.Sound wire := by
  constructor
  case matched => rintro request response ⟨⟩
  case fits => exact ⟨rfl, rfl, rfl⟩

theorem line_ne_nil (request : JsonRpcRequest) : wire.line request ≠ [] :=
  append_ne_nil_of_right_ne_nil _ (cons_ne_nil _ _)

theorem newline_not_mem_of_append {request : JsonRpcRequest} {written rest : Text}
    (hrest : rest ≠ []) (hline : written ++ rest = wire.line request) :
  '\n' ∉ written
  := by
  have hdrop : written ++ rest.dropLast = wire.encode request := by
    rw [← dropLast_append_of_ne_nil hrest, hline, Wire.line, dropLast_concat]
  intro hmem
  apply wire.newline_not_mem_encode request
  rw [← hdrop]
  apply mem_append_left _ hmem

theorem Sound.send (hsound : t.Sound wire) (request : JsonRpcRequest) :
  (t.send request).Sound wire
  := ⟨hsound.matched, hsound.fits⟩

theorem Sound.lock (hsound : t.Sound wire) (i : Nat) : (t.lock wire i).Sound wire := by
  unfold StdioTransport.lock
  split
  · rename_i request hact _
    have hfits := hsound.fits
    rw [hact] at hfits
    obtain ⟨hstdin, hrec, hstd⟩ := hfits
    constructor
    case matched => apply hsound.matched
    case fits =>
      refine ⟨line_ne_nil request, ?_, hrec, hstd⟩
      rw [hstdin]
      rfl
  · apply hsound

theorem Sound.write (hsound : t.Sound wire) : t.write.Sound wire := by
  unfold StdioTransport.write
  split
  · rename_i request c rest hact
    have hfits := hsound.fits
    rw [hact] at hfits
    obtain ⟨-, hline, hrec, hstd⟩ := hfits
    have hline' : (t.stdin ++ [c]) ++ rest = wire.line request := by
      rw [append_assoc]
      apply hline
    constructor
    case matched => apply hsound.matched
    case fits =>
      cases rest with
      | nil =>
        apply Awaited.unreceived rfl _ hrec hstd
        rw [← hline', append_nil]
      | cons c' rest => exact ⟨cons_ne_nil _ _, hline', hrec, hstd⟩
  · apply hsound

theorem eq_of_newline {line text rest : Text} (htext : '\n' ∉ text)
    (heq : line ++ '\n' :: rest = text ++ ['\n']) :
  line = text ∧ rest = []
  := by
  obtain ⟨between, rfl, hrest⟩ | ⟨between, rfl, hrest⟩ := append_eq_append_iff.mp heq
  · cases between with
    | nil =>
      cases hrest
      exact ⟨(append_nil line).symm, rfl⟩
    | cons c between =>
      cases hrest
      cases htext (mem_append_right line mem_cons_self)
  · cases between with
    | nil =>
      cases hrest
      exact ⟨append_nil text, rfl⟩
    | cons c between =>
      obtain ⟨-, hnil⟩ := cons.inj hrest
      cases append_ne_nil_of_right_ne_nil _ (cons_ne_nil _ _) hnil.symm

theorem Sound.read (hsound : t.Sound wire) : (t.read wire).Sound wire := by
  unfold StdioTransport.read
  split
  · rename_i request line c rest hact hstd
    have hfits := hsound.fits
    rw [hact] at hfits
    obtain ⟨-, -, -, hnil⟩ | ⟨-, -, -, hnil⟩ | @⟨text, hstdin, hrec, htext, hrep⟩ := hfits
    · cases hstd.symm.trans hnil
    · cases hstd.symm.trans hnil
    · rw [hstd] at htext
      split_ifs with hc
      · subst hc
        obtain ⟨rfl, rfl⟩ := eq_of_newline hrep.1 htext
        constructor
        case matched =>
          intro request' response hmem
          obtain hmem | hmem := mem_append.mp hmem
          · apply hsound.matched request' response hmem
          · obtain ⟨-, response', hdec, hid⟩ := hrep
            rw [hdec] at hmem
            cases mem_singleton.mp hmem
            apply hid
        case fits => exact ⟨hstdin, hrec, rfl⟩
      · constructor
        case matched => apply hsound.matched
        case fits =>
          apply Awaited.replied hstdin hrec _ hrep
          rw [append_assoc]
          apply htext
  · apply hsound

variable {active : Option (JsonRpcRequest × Exchange)}

/-- A line that the server receives is that of a request that has been written whole. -/
theorem Fits.receive {stdin : Text} {received : List Text} {stdout : Text}
    (hfits : Fits wire stdin received stdout active) (hmem : '\n' ∈ stdin) :
  Fits wire (stdin.dropWhile (· ≠ '\n')).tail (received ++ [stdin.takeWhile (· ≠ '\n')]) stdout
    active
  := by
  match active, hfits with
  | none, ⟨hstdin, _⟩ | some (request, .reading line), .unanswered _ hstdin _ _
  | some (request, .reading line), .replied hstdin _ _ _ =>
    rw [hstdin] at hmem
    cases hmem
  | some (request, .writing rest), ⟨hrest, hline, _⟩ =>
    cases newline_not_mem_of_append hrest hline hmem
  | some (request, .reading line), .unreceived hline hstdin hrec hstd =>
    have henc : ∀ c ∈ wire.encode request, decide (c ≠ '\n') = true := by
      intro c hc
      apply decide_eq_true
      rintro rfl
      apply wire.newline_not_mem_encode request hc
    apply Awaited.unanswered hline _ _ hstd
    · rw [hstdin, Wire.line, dropWhile_append_of_pos henc]
      rfl
    · rw [hstdin, hrec, Wire.line, takeWhile_append_of_pos henc]
      simp

theorem Sound.receive (hsound : t.Sound wire) : t.receive.Sound wire := by
  unfold StdioTransport.receive
  split_ifs with hmem
  · exact ⟨hsound.matched, hsound.fits.receive hmem⟩
  · apply hsound

theorem Fits.answer {stdin : Text} {line : Text} {rest : List Text} {stdout : Text}
    (hfits : Fits wire stdin (line :: rest) stdout active) (server : Server wire) (n : Nat) :
  Fits wire stdin rest (stdout ++ ((server.answer n line).map (· ++ ['\n'])).getD []) active
  := by
  match active, hfits with
  | some (request, .reading read), .unanswered hread hstdin hrec hstd =>
    obtain ⟨rfl, rfl⟩ := cons.inj hrec
    obtain ⟨text, hans, hrep⟩ := server.replies n request
    apply Awaited.replied hstdin rfl _ hrep
    rw [hread, hstd, hans]
    rfl

theorem Sound.answer (hsound : t.Sound wire) : (t.answer wire server).Sound wire := by
  unfold StdioTransport.answer
  split
  · apply hsound
  · rename_i line rest hrec
    have hfits := hsound.fits
    rw [hrec] at hfits
    exact ⟨hsound.matched, hfits.answer server t.answered⟩

theorem Sound.cancel (hsound : t.Sound wire) (hund : t.Undropped wire .cancel) :
  Sound wire { t with active := none }
  := by
  constructor
  case matched => apply hsound.matched
  case fits =>
    have hfits := hsound.fits
    obtain hnone | ⟨⟨request, exchange⟩, hact⟩ := t.active.eq_none_or_eq_some
    · rw [hnone] at hfits
      apply hfits
    · cases hund request exchange hact
      rw [hact] at hfits
      obtain ⟨-, hline, hrec, hstd⟩ := hfits
      exact ⟨append_left_eq_self.mp hline, hrec, hstd⟩

theorem sound_step (hsound : t.Sound wire) (input : TransportInput)
    (hund : t.Undropped wire input) :
  (t.step wire server input).Sound wire
  := by
  cases input with
  | lock i => apply hsound.lock
  | abandon i => exact ⟨hsound.matched, hsound.fits⟩
  | write => apply hsound.write
  | read => apply hsound.read
  | cancel => apply hsound.cancel hund
  | receive => apply hsound.receive
  | answer => apply hsound.answer

end StdioTransport

end Mcp
