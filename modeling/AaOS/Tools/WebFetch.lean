import AaOS.Lib.Dialogue
import AaOS.Tools.OwnCheck

/-!
# Fetching

`invoke` of `aaos-tools/src/web_fetch.rs`.  The loop follows redirections, and checks the URL of
every request before it is sent.  The clock, the tokens and the replies at the passes of the loop
are a script; what becomes of a location is a fixed function, `Web.follow`.
-/

open List

/-- The unsigned integer of a number without sign, fraction and exponent that fits 64 bits. -/
def Json.asU64 : Json → Option UInt64
  | .num literal =>
    let value := literal.foldl (fun n c => 10 * n + (c.toNat - '0'.toNat)) 0
    if literal ≠ [] ∧ literal.all Char.isDigit ∧ value < 2 ^ 64 then some (.ofNat value) else none
  | _ => none

/-- The reply to a request; an error may stand in the place of a chunk. -/
structure HttpReply where
  status : UInt16
  location : Option Text
  contentType : Option Text
  contentLength : Option UInt64
  chunks : List (Except Text (List UInt8))

def HttpReply.isRedirection (reply : HttpReply) : Bool := 300 ≤ reply.status && reply.status < 400

/-- What a pass of the loop meets. -/
structure Hop where
  now : DateTime
  capabilityRegistry : CapabilityRegistry
  reply : Except Text HttpReply

/-- What the loop does: it checks a URL, with a result, and it sends a request. -/
inductive FetchEvent where
  | checked (url : Text) (result : Except CoreError CapabilityHandle)
  | get (url : Text)

def FetchEvent.isGet : FetchEvent → Bool
  | get _ => true
  | checked .. => false

namespace WebFetchTool

/-- The largest part of a body that is read unless the call says otherwise. -/
def defaultMaxBytes : UInt64 := 50000

/-- Read the chunks of a body until the cap is reached; the flag tells that it was. -/
def readBody (maxBytes : Nat) :
    List UInt8 → List (Except Text (List UInt8)) → Except CoreError (List UInt8 × Bool)
  | buf, [] => .ok (buf, false)
  | _, .error e :: _ => .error (.ipc ("failed to read body chunk: " ++ e))
  | buf, .ok chunk :: chunks =>
    let remaining := maxBytes - buf.length
    if remaining ≤ chunk.length then .ok (buf ++ chunk.take remaining, true)
    else readBody maxBytes (buf ++ chunk) chunks

section Invoke

variable (env : Surroundings) (ctx : InvocationContext)

def check (hop : Hop) (url : Text) : Except CoreError CapabilityHandle :=
  checkUrlPermitted { env with now := hop.now }
    { ctx with capabilityRegistry := hop.capabilityRegistry } url

def onReply (url : Text) (hops : Nat) :
    Except Text HttpReply → Turn Text (Except CoreError HttpReply)
  | .error e => .done (.error (.ipc ("fetch failed: " ++ e)))
  | .ok reply =>
    if !reply.isRedirection then .done (.ok reply)
    else
      match reply.location with
      | none => .done (.ok reply)
      | some location =>
        if maxRedirects < hops + 1 then
          .done (.error (.ipc ("too many redirects (>"
            ++ Nat.toDigits 10 maxRedirects ++ ")")))
        else
          match env.web.follow url location with
          | .error e =>
            .done (.error (.ipc ("invalid redirect Location " ++ location
              ++ ": " ++ e)))
          | .ok next => .next next

/-- The loop that follows redirections; there is no outcome when the script is too short. -/
def fetch :
    Text → Nat → List Hop → List FetchEvent × Option (Except CoreError HttpReply)
  | _, _, [] => ([], none)
  | url, hops, hop :: script =>
    match check env ctx hop url with
    | .error e => ([.checked url (.error e)], some (.error e))
    | .ok h =>
      match onReply env url hops hop.reply with
      | .done result => ([.checked url (.ok h), .get url], some result)
      | .next next =>
        let rest := fetch next (hops + 1) script
        (.checked url (.ok h) :: .get url :: rest.1, rest.2)

def respond (fromUtf8Lossy : List UInt8 → Text) (maxBytes : UInt64) (reply : HttpReply) :
    Except CoreError Json := do
  let contentType := reply.contentType.getD "unknown"
  if let some len := reply.contentLength then
    if min (maxBytes.toNat * 10) (2 ^ 64 - 1) < len.toNat then
      throw (.ipc ("response body too large: content-length "
        ++ Nat.toDigits 10 len.toNat ++ " exceeds 10x max_bytes "
        ++ Nat.toDigits 10 maxBytes.toNat))
  let (buf, truncated) ← readBody maxBytes.toNat [] reply.chunks
  pure (.obj [("body", .str (fromUtf8Lossy buf)),
    ("bytes_read", jsonNat buf.length), ("content_type", .str contentType),
    ("status", jsonNat reply.status.toNat), ("truncated", .bool truncated)])

/-- What a call does, and its result unless the script is too short. -/
def invoke (fromUtf8Lossy : List UInt8 → Text) (input : Json) (script : List Hop) :
    List FetchEvent × Option (Except CoreError Json) :=
  match (input.get "url").bind Json.asStr with
  | none => ([], some (.error (.invalidManifest "missing 'url' parameter")))
  | some url =>
    let maxBytes := ((input.get "max_bytes").bind Json.asU64).getD defaultMaxBytes
    let fetched := fetch env ctx url 0 script
    (fetched.1, fetched.2.map fun result => result >>= respond fromUtf8Lossy maxBytes)

end Invoke

/-! ### The body -/

theorem readBody_map_ok {maxBytes : Nat} {buf : List UInt8} (hlen : buf.length ≤ maxBytes)
    (chunks : List (List UInt8)) :
  readBody maxBytes buf (chunks.map .ok)
    = .ok ((buf ++ chunks.flatten).take maxBytes,
        decide (chunks ≠ [] ∧ maxBytes ≤ (buf ++ chunks.flatten).length))
  := by
  induction chunks generalizing buf with
  | nil => simp [readBody, take_of_length_le hlen]
  | cons chunk chunks ih =>
    rw [map_cons, readBody, flatten_cons, ← append_assoc]
    split_ifs with hreach
    · have htake : buf ++ chunk.take (maxBytes - buf.length) = (buf ++ chunk).take maxBytes := by
        rw [take_append, take_of_length_le hlen]
      have hfull : maxBytes ≤ (buf ++ chunk).length := by
        rw [length_append]
        omega
      have htrun :
          chunk :: chunks ≠ [] ∧ maxBytes ≤ (buf ++ chunk ++ chunks.flatten).length := by
        use cons_ne_nil chunk chunks
        rw [length_append]
        apply Nat.le_add_right_of_le hfull
      rw [htake, take_append_of_le_length hfull, decide_eq_true htrun]
    · have hbelow : (buf ++ chunk).length < maxBytes := by
        rw [length_append]
        omega
      rw [ih hbelow.le]
      by_cases hnil : chunks = []
      · simpa [hnil] using hbelow
      · simp [hnil]

/-- The first bytes of the body are read, with a flag that tells whether it is longer than the cap,
exactly when it has no chunks or not the size of the cap. -/
theorem readBody_exact_iff (maxBytes : Nat) (chunks : List (List UInt8)) :
  (∃ buf truncated, readBody maxBytes [] (chunks.map .ok) = .ok (buf, truncated)
      ∧ buf = chunks.flatten.take (min maxBytes chunks.flatten.length)
      ∧ (truncated = true ↔ maxBytes < chunks.flatten.length))
    ↔ chunks = [] ∨ chunks.flatten.length ≠ maxBytes
  := by
  rw [readBody_map_ok (Nat.zero_le maxBytes), List.nil_append, List.take_eq_take_min]
  constructor
  · rintro ⟨buf, truncated, heq, -, hflag⟩
    cases heq
    rw [decide_eq_true_iff] at hflag
    by_contra hbound
    push Not at hbound
    have hlong := hflag.mp ⟨hbound.1, hbound.2.ge⟩
    omega
  · intro hcon
    refine ⟨_, _, rfl, rfl, ?_⟩
    rw [decide_eq_true_iff]
    constructor
    · rintro ⟨hne, hle⟩
      apply Nat.lt_of_le_of_ne hle
      apply Ne.symm
      apply hcon.resolve_left hne
    · intro hlong
      refine ⟨?_, hlong.le⟩
      rintro rfl
      simp at hlong

/-- A body of four bytes is reported as truncated when the cap is four bytes. -/
theorem not_readBody_exact_fourBytes :
  readBody 4 [] [.ok [1, 2], .ok [3, 4]] = .ok ([1, 2, 3, 4], true)
    ∧ ¬ ∃ buf truncated, readBody 4 [] [.ok [1, 2], .ok [3, 4]] = .ok (buf, truncated)
      ∧ buf = [[1, 2], [3, 4]].flatten.take (min 4 [[1, 2], [3, 4]].flatten.length)
      ∧ (truncated = true ↔ 4 < [[(1 : UInt8), 2], [3, 4]].flatten.length)
  := by
  use rfl
  rintro ⟨buf, truncated, heq, -, hflag⟩
  cases heq
  revert hflag
  decide

/-! ### The requests -/

section Requests

variable {env : Surroundings} {ctx : InvocationContext} {hop : Hop} {url : Text} {hops : Nat}
  {script : List Hop}

def HostGranted (env : Surroundings) (ctx : InvocationContext) (hop : Hop) (url : Text) : Prop :=
  ∃ parsed host, env.web.parse url = .ok parsed
    ∧ (parsed.scheme = "http" ∨ parsed.scheme = "https")
    ∧ parsed.host = some host
    ∧ ∃ handle ∈ ctx.tokens, hop.capabilityRegistry.permits env.canonicalizer.run hop.now handle
        ctx.agentId (.networkAccess [extractHost env.lowercase.run host]) = true

theorem hostGranted_of_check {h : CapabilityHandle} (hcheck : check env ctx hop url = .ok h) :
  HostGranted env ctx hop url
  := by
  unfold check checkUrlPermitted at hcheck
  dsimp only at hcheck
  split at hcheck
  · cases hcheck
  · rename_i parsed hparse
    split_ifs at hcheck with hsch
    split at hcheck
    · cases hcheck
    · rename_i host hhost
      split at hcheck
      · rename_i handle hgrant
        refine ⟨parsed, host, hparse, by tauto, hhost, handle, ?_, ?_⟩
        · apply mem_of_find?_eq_some hgrant
        · apply find?_some hgrant
      · cases hcheck

theorem lt_of_onReply_eq_next {reply : Except Text HttpReply} {next : Text}
    (hnext : onReply env url hops reply = .next next) :
  hops < maxRedirects
  := by
  by_contra hmany
  obtain e | reply := reply
  · cases hnext
  · simp only [onReply, if_pos (Nat.lt_succ_of_le (Nat.le_of_not_lt hmany))] at hnext
    split_ifs at hnext
    split at hnext <;> cases hnext

variable (env : Surroundings) (ctx : InvocationContext) (url : Text)

/-- A pass of the loop ends with a refused URL, or it sends a request and ends or goes on with a
further redirection. -/
theorem fetch_cons (hops : Nat) (hop : Hop) (script : List Hop) :
  (∃ e, fetch env ctx url hops (hop :: script) = ([.checked url (.error e)], some (.error e)))
    ∨ ∃ h rest result, check env ctx hop url = .ok h
      ∧ fetch env ctx url hops (hop :: script) = (.checked url (.ok h) :: .get url :: rest, result)
      ∧ (rest = [] ∧ result.isSome = true
        ∨ hops < maxRedirects ∧ ∃ next, (rest, result) = fetch env ctx next (hops + 1) script)
  := by
  rw [fetch]
  rcases check env ctx hop url with e | h
  · left
    use e
  · right
    use h
    rcases hreply : onReply env url hops hop.reply with next | result
    · refine ⟨_, _, rfl, rfl, .inr ⟨?_, next, rfl⟩⟩
      apply lt_of_onReply_eq_next hreply
    · exact ⟨[], some result, rfl, rfl, .inl ⟨rfl, rfl⟩⟩

/-- Requests are sent only to URLs that were accepted right before, at most one more than
redirections may be followed, and none after a URL is refused. -/
structure Guarded (env : Surroundings) (ctx : InvocationContext) (script : List Hop)
    (events : List FetchEvent) : Prop where
  accepted : ∀ before url after, events = before ++ .get url :: after →
    ∃ earlier h, before = earlier ++ [.checked url (.ok h)]
      ∧ ∃ hop ∈ script, check env ctx hop url = .ok h ∧ HostGranted env ctx hop url
  bounded : events.countP FetchEvent.isGet ≤ maxRedirects + 1
  stopped : ∀ before url e after, events = before ++ .checked url (.error e) :: after →
    ∀ event ∈ after, event.isGet = false

theorem event_fetch (hops : Nat) (script : List Hop) {before after : List FetchEvent}
    {event : FetchEvent} (hevent : (fetch env ctx url hops script).1 = before ++ event :: after) :
  (∀ url', event = .get url' → ∃ earlier h, before = earlier ++ [.checked url' (.ok h)]
      ∧ ∃ hop ∈ script, check env ctx hop url' = .ok h)
    ∧ ∀ url' e, event = .checked url' (.error e) → after = []
  := by
  induction script generalizing url hops before with
  | nil => cases before <;> cases hevent
  | cons hop script ih =>
    obtain ⟨e, href⟩ | ⟨h, rest, result, hcheck, hsent, hrest⟩ :=
      fetch_cons env ctx url hops hop script
    · rw [href] at hevent
      obtain _ | ⟨event', before⟩ := before
      · cases hevent
        simp
      · cases before <;> cases hevent
    · rw [hsent] at hevent
      obtain _ | ⟨event', _ | ⟨event'', before⟩⟩ := before
      · cases hevent
        simp
      · cases hevent
        refine ⟨?_, by simp⟩
        rintro _ ⟨⟩
        exact ⟨[], h, rfl, hop, mem_cons_self, hcheck⟩
      · cases hevent
        obtain ⟨hnil, -⟩ | ⟨-, next, hrest⟩ := hrest
        · cases before <;> cases hnil
        · obtain ⟨hacc, hstop⟩ := ih next (hops + 1) (congrArg Prod.fst hrest).symm
          refine ⟨?_, hstop⟩
          intro url' hget
          obtain ⟨earlier, h', rfl, hop', hmem, hcheck'⟩ := hacc url' hget
          exact ⟨_ :: _ :: earlier, h', rfl, hop', mem_cons_of_mem hop hmem, hcheck'⟩

theorem countP_fetch_le {hops : Nat} (hhops : hops ≤ maxRedirects) (script : List Hop) :
  (fetch env ctx url hops script).1.countP FetchEvent.isGet ≤ maxRedirects - hops + 1
  := by
  induction script generalizing url hops with
  | nil => apply Nat.zero_le
  | cons hop script ih =>
    obtain ⟨e, href⟩ | ⟨h, rest, result, -, hsent, hrest⟩ := fetch_cons env ctx url hops hop script
    · rw [href]
      apply Nat.zero_le
    · have hcount : rest.countP FetchEvent.isGet ≤ maxRedirects - hops := by
        obtain ⟨rfl, -⟩ | ⟨hlt, next, hrest⟩ := hrest
        · apply Nat.zero_le
        · obtain rfl : rest = _ := congrArg Prod.fst hrest
          apply (ih next hlt).trans
          omega
      rw [hsent]
      simpa [countP_cons, FetchEvent.isGet] using hcount

/-- Whatever the tokens and the replies are, a call sends requests only to URLs that were accepted
right before, at most six of them, and none after a URL is refused. -/
theorem guarded_invoke (env : Surroundings) (ctx : InvocationContext)
    (fromUtf8Lossy : List UInt8 → Text) (input : Json) (script : List Hop) :
  Guarded env ctx script (invoke env ctx fromUtf8Lossy input script).1
  := by
  unfold invoke
  rcases (input.get "url").bind Json.asStr with _ | url
  · constructor
    case accepted =>
      intro before url after hevent
      cases before <;> cases hevent
    case bounded => apply Nat.zero_le
    case stopped =>
      intro before url e after hevent
      cases before <;> cases hevent
  · constructor
    case accepted =>
      intro before url' after hevent
      obtain ⟨earlier, h, rfl, hop, hmem, hcheck⟩ :=
        (event_fetch env ctx url 0 script hevent).1 url' rfl
      exact ⟨earlier, h, rfl, hop, hmem, hcheck, hostGranted_of_check hcheck⟩
    case bounded => apply countP_fetch_le env ctx url (Nat.zero_le maxRedirects)
    case stopped =>
      intro before url' e after hevent
      rw [(event_fetch env ctx url 0 script hevent).2 url' e rfl]
      simp

end Requests

end WebFetchTool
