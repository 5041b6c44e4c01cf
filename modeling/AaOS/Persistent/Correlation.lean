import AaOS.Persistent.History

/-!
# The responses of a persistent agent

`respond` of `aaos-ipc/src/router.rs` sends a response to the waiter that is registered for a trace
id.  `persistent_agent_loop` builds the response from a new message, so that its identifiers are
drawn anew (`aaos-ipc/src/message.rs`); the waiter is that of the trace id of the message.
-/

open List

structure MessageIds where
  id : Uuid
  traceId : Uuid

/-- The response to a message. -/
structure McpResponse where
  id : Uuid
  body : Except (Int × Text) Json
  responder : AgentId
  traceId : Uuid

def MessageIds.respondOk (ids : MessageIds) (responder : AgentId) (result : Json) : McpResponse :=
  ⟨ids.id, .ok result, responder, ids.traceId⟩

def MessageIds.respondErr (ids : MessageIds) (responder : AgentId) (code : Int) (message : Text) :
    McpResponse :=
  ⟨ids.id, .error (code, message), responder, ids.traceId⟩

/-- A response, the message that it answers and the waiter to which it is sent. -/
structure RoutedResponse where
  message : Option MessageIds
  response : McpResponse
  waiter : Option Nat

/-- The loop of an agent and the router. A waiter is the position of its trace id among the
registered ones. -/
structure Exchange where
  state : PersistentState
  handled : Option MessageIds := none
  pending : Table Uuid Nat := ∅
  waiters : List Uuid := []
  routed : List RoutedResponse := []

/-- What happens to the loop and the router; identifiers are drawn for a response. -/
inductive ExchangeInput (σ : Type) where
  | message (id : Uuid) (arrival : Arrival σ)
  | returned (append : Except (Nat × Text) Unit) (now : Nat) (drawn : MessageIds)
  | messagesClosed (clears : Bool)
  | command (command : Option AgentCommand) (clears : Bool)
  | registerPending (traceId : Uuid)
  | cancelPending (traceId : Uuid)

namespace Exchange

variable {σ : Type} (loop : PersistentLoop σ)

def responseTo (drawn : MessageIds) (result : ExecutionResultWithHistory) : McpResponse :=
  match result.stopReason with
  | .error message => drawn.respondErr loop.agentId (-32603) message
  | _ => drawn.respondOk loop.agentId (PersistentLoop.successResponse result)

def respond (traceId : Uuid) (response : McpResponse) (e : Exchange) : Exchange :=
  { e with
    pending := e.pending.erase traceId
    routed := e.routed ++ [⟨e.handled, response, e.pending.lookup traceId⟩] }

def finish (append : Except (Nat × Text) Unit) (now : Nat) (drawn : MessageIds) (e : Exchange) :
    Exchange :=
  let e' := { e with state := loop.step e.state (.returned append now) }
  match e.state.status with
  | .executing traceId _ _ (some result) => e'.respond traceId (responseTo loop drawn result)
  | _ => e'

/-- One step of the loop and of the callers. -/
def step (e : Exchange) : ExchangeInput σ → Exchange
  | .message id arrival =>
    { e with
      state := loop.step e.state (.message arrival)
      handled :=
        match e.state.status with
        | .waiting => some ⟨id, arrival.message.traceId⟩
        | _ => e.handled }
  | .returned append now drawn => e.finish loop append now drawn
  | .messagesClosed clears => { e with state := loop.step e.state (.messagesClosed clears) }
  | .command command clears => { e with state := loop.step e.state (.command command clears) }
  | .registerPending traceId =>
    { e with
      pending := e.pending.insert traceId e.waiters.length
      waiters := e.waiters ++ [traceId] }
  | .cancelPending traceId => { e with pending := e.pending.erase traceId }

/-- A response goes to the waiter for the trace id of its message, and no waiter gets two. -/
structure Addressed (waiters : List Uuid) (routed : List RoutedResponse) : Prop where
  addressed : ∀ r ∈ routed, ∀ waiter ∈ r.waiter, ∃ message ∈ r.message,
    waiters[waiter]? = some message.traceId
  once : (routed.filterMap (·.waiter)).Nodup

def HasOwnIds (r : RoutedResponse) : Prop :=
  r.message = some ⟨r.response.id, r.response.traceId⟩

/-- Every response has the identifiers of its message, and is delivered once at most, to its waiter.
-/
structure Correlates (e : Exchange) : Prop extends Addressed e.waiters e.routed where
  correlated : ∀ r ∈ e.routed, HasOwnIds r

/-- The loop waits for the executor, which will return a result. -/
def Executes (e : Exchange) (result : ExecutionResultWithHistory) : Prop :=
  ∃ traceId messagesForLlm promptForLlm,
    e.state.status = .executing traceId messagesForLlm promptForLlm (some result)

/-- No execution ends here, so that no message is answered. -/
def Unanswered (e : Exchange) : ExchangeInput σ → Prop
  | .returned .. => ∀ result, ¬ e.Executes result
  | _ => True

/-- The identifier that is drawn for a response is not that of the message that is handled. -/
def DrawsFresh (e : Exchange) : ExchangeInput σ → Prop
  | .returned _ _ drawn => ∀ message, e.handled = some message → drawn.id ≠ message.id
  | _ => True

/-- Responses go to their waiters, the message that is handled is known, and a pending waiter was
sent nothing. -/
structure Delivers (e : Exchange) : Prop extends Addressed e.waiters e.routed where
  handled : ∀ traceId messagesForLlm promptForLlm result,
    e.state.status = .executing traceId messagesForLlm promptForLlm result →
      ∃ message ∈ e.handled, message.traceId = traceId
  pending : ∀ traceId waiter, e.pending.lookup traceId = some waiter →
    e.waiters[waiter]? = some traceId ∧ waiter ∉ e.routed.filterMap (·.waiter)

variable {loop} {e : Exchange}

theorem Delivers.receive (hdel : Delivers e) (id : Uuid) (arrival : Arrival σ) :
  Delivers (e.step loop (.message id arrival))
  := by
  refine ⟨hdel.toAddressed, ?_, hdel.pending⟩
  intro traceId messagesForLlm promptForLlm result hstat
  obtain ⟨_, ⟨⟩, hwait, ⟨⟩⟩ | ⟨hbef, -⟩ := loop.executing_step hstat
  · simp [step, hwait]
  · simp only [step, hbef]
    apply hdel.handled _ _ _ _ hbef

/-- A step of the loop that receives no message. -/
theorem Delivers.advance (hdel : Delivers e) {input : PersistentInput σ}
    (hother : ∀ arrival, input ≠ .message arrival) :
  Delivers { e with state := loop.step e.state input }
  := by
  refine ⟨hdel.toAddressed, ?_, hdel.pending⟩
  intro traceId messagesForLlm promptForLlm result hstat
  obtain ⟨arrival, hmsg, -⟩ | ⟨hbef, -⟩ := loop.executing_step hstat
  · exact absurd hmsg (hother arrival)
  · apply hdel.handled _ _ _ _ hbef

theorem filterMap_routed_respond (traceId : Uuid) (response : McpResponse) :
  (e.respond traceId response).routed.filterMap (·.waiter)
    = e.routed.filterMap (·.waiter) ++ (e.pending.lookup traceId).toList
  := by
  rw [respond, filterMap_append]
  cases e.pending.lookup traceId <;> rfl

theorem Delivers.respond (hdel : Delivers e) {message : MessageIds}
    (hhand : e.handled = some message) (response : McpResponse) :
  Delivers (e.respond message.traceId response)
  := by
  refine ⟨⟨?addressed, ?once⟩, hdel.handled, ?pending⟩
  case addressed =>
    intro r hr waiter hwait
    obtain hr | hr := mem_append.mp hr
    · apply hdel.addressed r hr waiter hwait
    · cases mem_singleton.mp hr
      exact ⟨message, hhand, (hdel.pending _ _ hwait).1⟩
  case once =>
    rw [filterMap_routed_respond]
    apply hdel.once.append
    · cases e.pending.lookup message.traceId <;> simp
    · intro waiter hmem hwait
      apply (hdel.pending _ _ (Option.mem_toList.mp hwait)).2 hmem
  case pending =>
    intro traceId waiter hlook
    have hne : traceId ≠ message.traceId := by
      rintro rfl
      rw [Exchange.respond, AList.lookup_erase] at hlook
      cases hlook
    rw [Exchange.respond, AList.lookup_erase_ne hne] at hlook
    obtain ⟨hreg, huns⟩ := hdel.pending _ _ hlook
    refine ⟨hreg, ?_⟩
    rw [filterMap_routed_respond, mem_append, Option.mem_toList]
    rintro (hmem | hsame)
    · exact huns hmem
    · apply hne
      apply Option.some.inj (hreg.symm.trans (hdel.pending _ _ hsame).1)

theorem Delivers.registerPending (hdel : Delivers e) (traceId : Uuid) :
  Delivers (e.step loop (.registerPending traceId))
  := by
  have hkeep : ∀ {waiter : Nat} {traceId' : Uuid}, e.waiters[waiter]? = some traceId' →
      (e.waiters ++ [traceId])[waiter]? = some traceId' := by
    intro waiter traceId' hwait
    rw [getElem?_append_left (List.getElem?_eq_some_iff.mp hwait).1, hwait]
  refine ⟨⟨?addressed, hdel.once⟩, hdel.handled, ?pending⟩
  case addressed =>
    intro r hr waiter hwait
    obtain ⟨message, hmsg, hreg⟩ := hdel.addressed r hr waiter hwait
    exact ⟨message, hmsg, hkeep hreg⟩
  case pending =>
    intro traceId' waiter hlook
    obtain ⟨rfl, rfl⟩ | ⟨-, hlook⟩ := Table.lookup_insert_eq_some hlook
    · refine ⟨getElem?_concat_length, ?_⟩
      intro hmem
      obtain ⟨r, hr, hwait⟩ := mem_filterMap.mp hmem
      obtain ⟨message, -, hreg⟩ := hdel.addressed r hr _ hwait
      rw [getElem?_eq_none (Nat.le_refl _)] at hreg
      cases hreg
    · obtain ⟨hreg, huns⟩ := hdel.pending _ _ hlook
      exact ⟨hkeep hreg, huns⟩

theorem Delivers.cancelPending (hdel : Delivers e) (traceId : Uuid) :
  Delivers (e.step loop (.cancelPending traceId))
  := by
  refine ⟨hdel.toAddressed, hdel.handled, ?_⟩
  intro traceId' waiter hlook
  apply hdel.pending _ _ (Table.lookup_of_lookup_erase hlook)

variable (loop) in
/-- When the executor returns, its result is sent to the waiter of the message. -/
theorem Delivers.finish_cases (hdel : Delivers e) (append : Except (Nat × Text) Unit)
    (now : Nat) (drawn : MessageIds) :
  (∃ result message, e.Executes result ∧ e.handled = some message
      ∧ e.finish loop append now drawn
        = { e with state := loop.step e.state (.returned append now) }.respond message.traceId
          (responseTo loop drawn result))
    ∨ (∀ result, ¬ e.Executes result)
      ∧ e.finish loop append now drawn
        = { e with state := loop.step e.state (.returned append now) }
  := by
  unfold finish
  split
  case h_1 traceId messagesForLlm promptForLlm result hstat =>
    obtain ⟨message, hhand, rfl⟩ := hdel.handled _ _ _ _ hstat
    exact .inl ⟨result, message, ⟨_, _, _, hstat⟩, hhand, rfl⟩
  case h_2 hother =>
    refine .inr ⟨?_, rfl⟩
    rintro result ⟨traceId, messagesForLlm, promptForLlm, hstat⟩
    apply hother _ _ _ _ hstat

theorem delivers_step (hdel : Delivers e) (input : ExchangeInput σ) :
  Delivers (e.step loop input)
  := by
  cases input with
  | message id arrival => apply hdel.receive
  | returned append now drawn =>
    have hadv : Delivers { e with state := loop.step e.state (.returned append now) } :=
      hdel.advance (by rintro _ ⟨⟩)
    rw [step]
    obtain ⟨result, message, -, hhand, hfin⟩ | ⟨-, hfin⟩ := hdel.finish_cases loop append now drawn
    · rw [hfin]
      apply hadv.respond hhand
    · rw [hfin]
      exact hadv
  | messagesClosed clears | command command clears => exact hdel.advance (by rintro _ ⟨⟩)
  | registerPending traceId => apply hdel.registerPending
  | cancelPending traceId => apply hdel.cancelPending

/-- The exchange before the first message. -/
def starting (loads : Bool) (stored : List Message) : Exchange :=
  { state := PersistentLoop.startLoading loads stored }

theorem delivers_starting (loads : Bool) (stored : List Message) :
  Delivers (starting loads stored)
  := by
  refine ⟨⟨?_, List.nodup_nil⟩, ?_, ?_⟩
  · rintro r ⟨⟩
  · rintro _ _ _ _ ⟨⟩
  · rintro _ _ ⟨⟩

theorem routed_step (hdel : Delivers e) {input : ExchangeInput σ} (hunan : e.Unanswered input) :
  (e.step loop input).routed = e.routed
  := by
  cases input with
  | returned append now drawn =>
    rw [step]
    obtain ⟨result, -, hexec, -⟩ | ⟨-, hfin⟩ := hdel.finish_cases loop append now drawn
    · cases hunan result hexec
    · rw [hfin]
  | message | messagesClosed | command | registerPending | cancelPending => rfl

/-- A response to a message has the identifiers that were drawn. -/
theorem unanswered_of_correlates (hdel : Delivers e) {input : ExchangeInput σ}
    (hfresh : e.DrawsFresh input) (hcorr : Correlates (e.step loop input)) :
  e.Unanswered input
  := by
  cases input with
  | returned append now drawn =>
    intro result hexec
    obtain ⟨result, message, -, hhand, hfin⟩ | ⟨hidle, -⟩ := hdel.finish_cases loop append now drawn
    · have hids : (responseTo loop drawn result).id = drawn.id := by
        unfold responseTo
        split <;> rfl
      have hcor := hcorr.correlated
      rw [step, hfin, respond] at hcor
      have hown := hcor _ mem_concat_self
      rw [HasOwnIds, hids] at hown
      apply hfresh _ hown rfl
    · apply hidle result hexec
  | message | messagesClosed | command | registerPending | cancelPending => trivial

/-- In every run, a response is delivered once at most and to its waiter.  With fresh identifiers
it is never correlated with its message, so that no message may be answered. -/
theorem correlates_iff_unanswered (loop : PersistentLoop σ) (loads : Bool) (stored : List Message)
    (inputs : List (ExchangeInput σ))
    (hfresh : Machine.EveryStep (step loop) DrawsFresh (starting loads stored) inputs) :
  Machine.Always (step loop) (fun e => Addressed e.waiters e.routed) (starting loads stored) inputs
    ∧ (Machine.Always (step loop) Correlates (starting loads stored) inputs
      ↔ Machine.EveryStep (step loop) Unanswered (starting loads stored) inputs)
  := by
  constructor
  · intro before _ _
    have hdel : Delivers (Machine.after (step loop) (starting loads stored) before) :=
      Machine.invariant_after (I := Delivers)
        (fun _ input hdel => delivers_step hdel input) (delivers_starting loads stored)
        before
    exact hdel.toAddressed
  · apply Machine.always_iff_everyStep_of_everyStep hfresh
      (I := fun e => Delivers e ∧ e.routed = [])
    · rintro e ⟨hdel, hroute⟩
      refine ⟨hdel.toAddressed, ?_⟩
      simp [hroute]
    · rintro e input - ⟨hdel, hroute⟩ hunan
      exact ⟨delivers_step hdel input, (routed_step hdel hunan).trans hroute⟩
    · rintro e input hfresh ⟨hdel, -⟩ hcor
      apply unanswered_of_correlates hdel hfresh hcor
    · exact ⟨delivers_starting loads stored, rfl⟩

def answeredInputs : List (ExchangeInput Unit) :=
  [.registerPending 7, .message 1 PersistentLoop.readArrival, .returned (.ok ()) 0 ⟨2, 3⟩]

theorem everyStep_answeredInputs :
  Machine.EveryStep (step PersistentLoop.twoMessageLoop) DrawsFresh (starting true [])
    answeredInputs
  := by
  rw [answeredInputs, Machine.everyStep_cons, Machine.everyStep_cons, Machine.everyStep_cons]
  refine ⟨trivial, trivial, ?_, Machine.everyStep_nil⟩
  rintro message ⟨⟩
  decide

/-- The response is sent to the one waiter for the message. -/
theorem correlates_iff_unanswered_answeredInputs :
  ((Machine.after (step PersistentLoop.twoMessageLoop) (starting true [])
      answeredInputs).routed.filterMap (·.waiter) = [0])
    ∧ Machine.Always (step PersistentLoop.twoMessageLoop)
      (fun e => Addressed e.waiters e.routed) (starting true []) answeredInputs
    ∧ (Machine.Always (step PersistentLoop.twoMessageLoop) Correlates (starting true [])
        answeredInputs
      ↔ Machine.EveryStep (step PersistentLoop.twoMessageLoop) Unanswered (starting true [])
        answeredInputs)
  := ⟨rfl, correlates_iff_unanswered _ _ _ _ everyStep_answeredInputs⟩

/-- A message with the identifiers 1 and 7 is answered by a response with 2 and 3. -/
theorem not_correlates_drawn :
  ¬ Machine.Always (step PersistentLoop.twoMessageLoop) Correlates (starting true [])
    answeredInputs
  := by
  intro halways
  have hcor := (halways _ [] (List.append_nil _).symm).correlated _ (.head _)
  cases hcor

end Exchange
