import AaOS.Lib.Pool
import AaOS.Persistent.Correlation
import Mathlib.Data.Finset.Basic

/-!
# Requests between agents

`send_and_wait` of `aaos-runtime/src/services.rs` registers a sender under the trace id of its
message with the router of `aaos-ipc/src/router.rs`, routes the message and waits for the response.
Requests, their time limits and the calls of `respond` interleave in any order, and a request may be
dropped while it waits.  A trace id that is drawn is new, so that a sender is known by it.
-/

/-- A request to an agent, with its time limit. -/
structure AgentRequest where
  message : McpMessage
  limit : Nat

/-- The identifier under which the caller waits. -/
def AgentRequest.traceId (c : AgentRequest) : Uuid := c.message.traceId

inductive RequestError where
  | ipc (message : Text)
  | timeout (limit : Nat)

/-- What the caller gets from a response. -/
def McpResponse.outcome (response : McpResponse) : Except RequestError Json :=
  response.body.mapError (fun e => .ipc e.2)

/-- The map of the router, the responses in the channels, and the trace ids that were drawn. -/
structure Requests where
  pending : Finset Uuid := ∅
  replies : Table Uuid McpResponse := ∅
  drawn : Finset Uuid := ∅

namespace Requests

def registerPending (s : Requests) (traceId : Uuid) : Requests :=
  { s with pending := insert traceId s.pending, drawn := insert traceId s.drawn }

def cancelPending (s : Requests) (traceId : Uuid) : Requests :=
  { s with pending := s.pending.erase traceId }

def send (s : Requests) (traceId : Uuid) (response : McpResponse) : Requests :=
  { s with replies := s.replies.insert traceId response }

/-- The guard of a request removes its entry, unless the request succeeds. -/
def finish (s : Requests) (c : AgentRequest) (outcome : Except RequestError Json) : Requests :=
  match outcome with
  | .ok _ => s
  | .error _ => s.cancelPending c.traceId

end Requests

/-- A call of `respond` has removed a sender before it sends the response. -/
inductive RequestProcess where
  | begins (c : AgentRequest)
  | routes (c : AgentRequest)
  | waits (c : AgentRequest)
  | responds (traceId : Uuid) (response : McpResponse)
  | sends (traceId : Uuid) (response : McpResponse)

namespace RequestProcess

/-- A request is under way with the trace id. -/
def requests (traceId : Uuid) : RequestProcess → Bool
  | routes c | waits c => c.traceId = traceId
  | _ => false

/-- The process is about to send a response for the trace. -/
def answers (traceId : Uuid) : RequestProcess → Bool
  | sends traceId' _ => traceId' = traceId
  | _ => false

end RequestProcess

section Moves

variable (s : Requests) (m : Multiset RequestProcess)

/-- What a request that waits returns, beside the other processes. -/
inductive AgentRequest.Returns (c : AgentRequest) : Except RequestError Json → Prop
  | answered (response : McpResponse) (hreply : s.replies.lookup c.traceId = some response) :
      Returns c response.outcome
  | timeout : Returns c (.error (.timeout c.limit))
  | responderDropped (hpending : c.traceId ∉ s.pending)
      (hempty : s.replies.lookup c.traceId = none)
      (hanswers : ∀ p ∈ m, p.answers c.traceId = false) :
      Returns c (.error (.ipc "responder dropped"))

/-- The moves.  A request is refused before it draws a trace id; while its message is routed it
fails or is dropped, and while it waits it returns or is dropped. -/
inductive RequestMove : RequestProcess → Requests → Option RequestProcess → Prop
  | refuse (c : AgentRequest) : RequestMove (.begins c) s none
  | begin (c : AgentRequest) (hnew : c.traceId ∉ s.drawn) :
      RequestMove (.begins c) (s.registerPending c.traceId) (some (.routes c))
  | route (c : AgentRequest) : RequestMove (.routes c) s (some (.waits c))
  | routeFails (c : AgentRequest) : RequestMove (.routes c) (s.cancelPending c.traceId) none
  | returns (c : AgentRequest) (outcome : Except RequestError Json)
      (hreturns : c.Returns s m outcome) : RequestMove (.waits c) (s.finish c outcome) none
  | dropped (c : AgentRequest) : RequestMove (.waits c) (s.cancelPending c.traceId) none
  | notPending (traceId : Uuid) (response : McpResponse) (hnone : traceId ∉ s.pending) :
      RequestMove (.responds traceId response) s none
  | respond (traceId : Uuid) (response : McpResponse) (hpending : traceId ∈ s.pending) :
      RequestMove (.responds traceId response) (s.cancelPending traceId)
        (some (.sends traceId response))
  | send (traceId : Uuid) (response : McpResponse) :
      RequestMove (.sends traceId response) (s.send traceId response) none

end Moves

/-- Requests begin and agents respond at any time. -/
def requestSystem : PoolSystem Requests RequestProcess where
  Start _ _ p := (∃ c, p = .begins c) ∨ ∃ traceId response, p = .responds traceId response
  Move := RequestMove

namespace Requests

/-! ### What always holds -/

def holds (traceIds : Finset Uuid) (traceId : Uuid) : Nat := if traceId ∈ traceIds then 1 else 0

/-- The places where the sender for a trace id is, or the response that was sent with it. -/
def places (pool : Pool Requests RequestProcess) (traceId : Uuid) : Nat :=
  holds pool.shared.pending traceId + pool.count (RequestProcess.answers traceId)
    + (pool.shared.replies.lookup traceId).isSome.toNat

/-- An entry of the map belongs to a request that is under way, such a request has a sender, and a
trace id has one at most. -/
def Balanced (pool : Pool Requests RequestProcess) (traceId : Uuid) : Prop :=
  holds pool.shared.pending traceId ≤ pool.count (RequestProcess.requests traceId)
    ∧ pool.count (RequestProcess.requests traceId) ≤ places pool traceId
    ∧ places pool traceId ≤ holds pool.shared.drawn traceId

/-- Senders are neither lost nor left behind, and a request returns the response to its trace id or
has waited for the time limit. -/
structure Answered (pool : Pool Requests RequestProcess) : Prop where
  balanced : ∀ traceId, Balanced pool traceId
  returns : ∀ c rest outcome, pool.running = .waits c ::ₘ rest →
    c.Returns pool.shared rest outcome → outcome = .error (.timeout c.limit)
      ∨ ∃ response ∈ pool.shared.replies.lookup c.traceId, outcome = response.outcome

variable {s s' : Requests} {m : Multiset RequestProcess} {p : RequestProcess}
  {p' : Option RequestProcess} {traceId : Uuid} {c : AgentRequest}

section Numbers

variable (traceIds : Finset Uuid) (traceId traceId' : Uuid)

theorem holds_le : holds traceIds traceId ≤ 1 := by
  unfold holds
  split <;> decide

theorem holds_insert :
  holds (insert traceId' traceIds) traceId
    = if traceId = traceId' then 1 else holds traceIds traceId
  := by
  grind [holds]

theorem holds_erase :
  holds (traceIds.erase traceId') traceId
    = if traceId = traceId' then 0 else holds traceIds traceId
  := by
  grind [holds]

end Numbers

theorem isSome_of_returns_ok {v : Json} (hret : c.Returns s m (.ok v)) :
  (s.replies.lookup c.traceId).isSome = true
  := by
  generalize hout : Except.ok v = outcome at hret
  cases hret with
  | answered response hreply => simp [hreply]
  | _ => cases hout

theorem Balanced.of_move (hmove : RequestMove s m p s' p') (hbal : Balanced ⟨s, p ::ₘ m⟩ traceId) :
  Balanced ⟨s', Pool.rejoin m p'⟩ traceId
  := by
  have hdrawn := holds_le s.drawn traceId
  simp only [Balanced, places, Pool.count_cons] at hbal ⊢
  rw [Pool.count_shared _ s' s, Pool.count_shared _ s' s]
  cases hmove <;> simp only [RequestProcess.requests, RequestProcess.answers, Pool.rejoin_none,
    Pool.rejoin_some, Pool.count_cons] at hbal ⊢
  case begin c hnew =>
    have hunus : holds s.drawn c.traceId = 0 := if_neg hnew
    grind [registerPending, holds_insert]
  case respond traceId' response hpend =>
    have hentry : holds s.pending traceId' = 1 := if_pos hpend
    grind [cancelPending, holds_erase]
  case send traceId' response => grind [send, Table.lookup_insert']
  case returns c outcome hret =>
    cases outcome with
    | ok v =>
      have hrep := isSome_of_returns_ok hret
      by_cases hown : c.traceId = traceId <;> grind [finish]
    | error e => grind [finish, cancelPending, holds_erase]
  all_goals grind [cancelPending, holds_erase]

theorem Balanced.of_start (hstart : requestSystem.Start s m p) (hbal : Balanced ⟨s, m⟩ traceId) :
  Balanced ⟨s, p ::ₘ m⟩ traceId
  := by
  unfold Balanced places at *
  obtain ⟨c, rfl⟩ | ⟨traceId', response, rfl⟩ := hstart <;>
    simpa [RequestProcess.requests, RequestProcess.answers] using hbal

/-- The sender of a request that waits is in the map, or with a call of `respond`, or was used. -/
theorem Balanced.returns (hbal : Balanced ⟨s, .waits c ::ₘ m⟩ c.traceId)
    {outcome : Except RequestError Json} (hret : c.Returns s m outcome) :
  outcome = .error (.timeout c.limit)
    ∨ ∃ response ∈ s.replies.lookup c.traceId, outcome = response.outcome
  := by
  cases hret with
  | answered response hreply => exact .inr ⟨response, hreply, rfl⟩
  | timeout => exact .inl rfl
  | responderDropped hpend hempty hanss =>
    exfalso
    have hnone : Pool.count (RequestProcess.answers c.traceId) ⟨s, m⟩ = 0 := by
      apply Multiset.countP_eq_zero.mpr
      intro p hp
      simp [hanss p hp]
    have hpos := hbal.2.1
    simp [places, holds, hpend, hempty, hnone, RequestProcess.requests,
      RequestProcess.answers] at hpos

/-- In every interleaving no sender is lost or left behind, and requests return their responses. -/
theorem answered_of_reaches {pool : Pool Requests RequestProcess}
    (hreaches : requestSystem.Reaches ⟨{}, 0⟩ pool) :
  Answered pool
  := by
  have hbal : ∀ traceId, Balanced pool traceId := by
    intro traceId
    apply PoolSystem.invariant (P := (Balanced · traceId)) _ _ hreaches
    · simp [Balanced, places, holds]
    · intro s m p
      apply Balanced.of_start
    · intro s m p s' p'
      apply Balanced.of_move
  constructor
  case balanced => apply hbal
  case returns =>
    intro c rest outcome hrun hret
    have hown := hbal c.traceId
    obtain ⟨s, running⟩ := pool
    cases hrun
    apply hown.returns hret

/-- A response is about to be sent to a request that waits. -/
theorem answered_sends :
  ∃ pool, requestSystem.Reaches ⟨{}, 0⟩ pool ∧ places pool 7 = 1 ∧ Answered pool
  := by
  let c : AgentRequest := ⟨⟨"plan", .null, 7⟩, 30000⟩
  let response : McpResponse := ⟨1, .ok .null, ⟨2⟩, 7⟩
  have hwaits : requestSystem.Reaches ⟨{}, 0⟩ ⟨registerPending {} 7, .waits c ::ₘ 0⟩ :=
    ((Relation.ReflTransGen.single (.start (.inl ⟨c, rfl⟩))).tail
      (.goesOn (.begin c (by simp)))).tail (.goesOn (.route c))
  have hsends := (hwaits.tail (.start (.inr ⟨7, response, rfl⟩))).tail
    (.goesOn (.respond 7 response (by simp [registerPending])))
  exact ⟨_, hsends, rfl, answered_of_reaches hsends⟩

end Requests
