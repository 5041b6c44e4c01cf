import AaOS.Lib.Pool
import AaOS.Tools.Invocation

/-!
# The session of a broker

The daemon talks to a worker over one stream.  `aaos-backend-linux/src/broker_session.rs` numbers
the requests from two counters and keeps the senders of those that wait in two maps, which the
reader searches for each response.  Calls, the reader and the worker are the processes of a
pool.  A call is known by its place among the calls that took a number.
-/

open List

/-! ### Requests and responses -/

/-- The calls that a session offers. -/
inductive BrokerCall where
  | sendPing (nonce : Nat)
  | sendPoke (op : PokeOp)
  | sendRevokeToken (tokenId : Uuid)
  | invokeOverWorker (toolName : Text) (input : Json) (capabilityTokens : List CapabilityToken)

/-- The request of a call. -/
def BrokerCall.request : BrokerCall → Request
  | sendPing nonce => .ping nonce
  | sendPoke op => .poke op
  | sendRevokeToken tokenId => .revokeToken tokenId
  | invokeOverWorker toolName input capabilityTokens => .invokeTool toolName input capabilityTokens

/-- The maps with the senders of the calls that wait for an answer. -/
inductive PendingMap where
  | pending
  | invokePending
deriving DecidableEq

/-- The map in which the sender of a call is put, if the call waits for an answer. -/
def BrokerCall.awaits : BrokerCall → Option PendingMap
  | sendPing _ | sendPoke _ => some .pending
  | sendRevokeToken _ => none
  | invokeOverWorker .. => some .invokePending

/-- The number of the request that a response is for. -/
def WireResponse.id : WireResponse → Nat
  | success id _ => id
  | error id .. => id

inductive InvokeToolError where
  | notAvailable (message : Text)
  | panicked (toolName message : Text)
  | timeout (message : Text)
  | denied (message : Text)
  | runtime (message : Text)
  | workerLost

/-- What the caller of a tool is told. -/
def WireResponse.payload : WireResponse → Except InvokeToolError Json
  | success _ result => .ok result
  | error _ code message =>
    .error
      (if code = toolNotAvailable then .notAvailable message
      else if code = toolPanicked then .panicked [] message
      else if code = toolTimeout then .timeout message
      else if code = toolDenied then .denied message
      else .runtime message)

structure Frame where
  call : Nat
  wire : WireRequest

/-- A response on the stream, and the call whose request it answers. -/
structure Answer where
  call : Nat
  response : WireResponse

/-- What the receiver of a call gets. -/
inductive Delivery where
  | response (answer : Answer)
  | payload (answer : Answer) (payload : Except InvokeToolError Json)
  | workerLost
  | closed

/-- The answer that is delivered. -/
def Delivery.answer : Delivery → Option Answer
  | response answer | payload answer _ => some answer
  | workerLost | closed => none

/-! ### The session -/

/-- The state of a session, and the history of its calls. -/
structure BrokerSession where
  connected : Bool := false
  pending : Table Nat Nat := ∅
  nextRequestId : Nat := 100
  invokePending : Table Nat Nat := ∅
  nextInvokeId : Nat := 1000
  requests : Multiset Frame := 0
  responses : List Answer := []
  drained : Bool := false
  issued : List (BrokerCall × Nat) := []
  delivered : List (Nat × Delivery) := []

def fetchAdd (n : Nat) : Nat := (n + 1) % 2 ^ 64

namespace BrokerSession

variable (s : BrokerSession)

/-- The number that a call is given next. -/
def nextId : BrokerCall → Nat
  | .invokeOverWorker .. => s.nextInvokeId
  | _ => s.nextRequestId

def takeId (method : BrokerCall) : BrokerSession :=
  let s := { s with issued := s.issued ++ [(method, s.nextId method)] }
  match method with
  | .invokeOverWorker .. => { s with nextInvokeId := fetchAdd s.nextInvokeId }
  | _ => { s with nextRequestId := fetchAdd s.nextRequestId }

def deliver (call : Option Nat) (delivery : Delivery) : BrokerSession :=
  { s with delivered := s.delivered ++ (call.map (·, delivery)).toList }

def mapOf : PendingMap → Table Nat Nat
  | .pending => s.pending
  | .invokePending => s.invokePending

def setMap (map : PendingMap) (entries : Table Nat Nat) : BrokerSession :=
  match map with
  | .pending => { s with pending := entries }
  | .invokePending => { s with invokePending := entries }

def park (map : PendingMap) (id call : Nat) : BrokerSession :=
  (s.deliver ((s.mapOf map).lookup id) .closed).setMap map (AList.insert id call (s.mapOf map))

def evict (map : PendingMap) (id : Nat) : BrokerSession :=
  (s.deliver ((s.mapOf map).lookup id) .closed).setMap map (AList.erase id (s.mapOf map))

/-- Remove the sender under the number of an answer, and use it. -/
def resolve (map : PendingMap) (answer : Answer) (delivery : Delivery) : BrokerSession :=
  (s.deliver ((s.mapOf map).lookup answer.response.id) delivery).setMap map
    (AList.erase answer.response.id (s.mapOf map))

/-- Empty a map, and tell the calls. -/
def empty (map : PendingMap) (delivery : Delivery) : BrokerSession :=
  BrokerSession.setMap
    { s with
      delivered := s.delivered ++ (s.mapOf map).entries.map (fun ⟨_, call⟩ => (call, delivery)) }
    map ∅

/-- Write a request to the stream. -/
def write (frame : Frame) : BrokerSession := { s with requests := frame ::ₘ s.requests }

end BrokerSession

/-! ### Processes -/

/-- A call has a number, its sender is in the map or is to be removed, or it waits. -/
inductive CallStage where
  | numbered
  | parked
  | failed
  | waiting

/-- A call that has a number. -/
structure Caller where
  method : BrokerCall
  call : Nat
  id : Nat
  stage : CallStage

def Caller.frame (c : Caller) : Frame := ⟨c.call, c.id, c.method.request⟩

/-- The reader reads, looks for the sender of a tool call or another sender, or drains a map. -/
inductive ReaderStage where
  | reading
  | demux (answer : Answer)
  | legacy (answer : Answer)
  | draining
  | clearing

/-- The processes of a session. -/
inductive BrokerProcess where
  | begins (method : BrokerCall)
  | caller (c : Caller)
  | installs
  | reader (stage : ReaderStage)
  | worker

/-- What becomes of a call after its request was written, or could not be. -/
def Caller.goesOn (c : Caller) (stage : CallStage) : Option BrokerProcess :=
  match c.method.awaits with
  | none => none
  | some _ => some (.caller { c with stage := stage })

/-- Without a stream, a tool call removes its sender, and that of another request is left in the
map. -/
def Caller.notConnected (c : Caller) : Option BrokerProcess :=
  match c.method.awaits with
  | some .invokePending => some (.caller { c with stage := .failed })
  | _ => none

/-- The moves. A write that fails may have reached the worker; a call can be dropped anywhere. -/
inductive BrokerMove (s : BrokerSession) :
    BrokerProcess → BrokerSession → Option BrokerProcess → Prop
  | number (method : BrokerCall) :
      BrokerMove s (.begins method) (s.takeId method)
        (some (.caller ⟨method, s.issued.length, s.nextId method, .numbered⟩))
  | notSerialized (c : Caller) (hstage : c.stage = .numbered)
      (hmethod : c.method.awaits ≠ some .invokePending) :
      BrokerMove s (.caller c) s none
  | park (c : Caller) (hstage : c.stage = .numbered) (map : PendingMap)
      (hmap : c.method.awaits = some map) :
      BrokerMove s (.caller c) (s.park map c.id c.call) (some (.caller { c with stage := .parked }))
  | goOn (c : Caller) (hstage : c.stage = .numbered) (hmethod : c.method.awaits = none) :
      BrokerMove s (.caller c) s (some (.caller { c with stage := .parked }))
  | invokeNotSerialized (c : Caller) (hstage : c.stage = .parked)
      (hmethod : c.method.awaits = some .invokePending) :
      BrokerMove s (.caller c) s (some (.caller { c with stage := .failed }))
  | notConnected (c : Caller) (hstage : c.stage = .parked) (hnot : s.connected = false) :
      BrokerMove s (.caller c) s c.notConnected
  | writeFails (c : Caller) (hstage : c.stage = .parked) (hconnected : s.connected = true) :
      BrokerMove s (.caller c) s (c.goesOn .failed)
  | flushFails (c : Caller) (hstage : c.stage = .parked) (hconnected : s.connected = true) :
      BrokerMove s (.caller c) (s.write c.frame) (c.goesOn .failed)
  | write (c : Caller) (hstage : c.stage = .parked) (hconnected : s.connected = true) :
      BrokerMove s (.caller c) (s.write c.frame) (c.goesOn .waiting)
  | evict (c : Caller) (hstage : c.stage = .failed) (map : PendingMap)
      (hmap : c.method.awaits = some map) :
      BrokerMove s (.caller c) (s.evict map c.id) none
  | timeout (c : Caller) (hstage : c.stage = .waiting) (hmethod : c.method.awaits = some .pending) :
      BrokerMove s (.caller c) s (some (.caller { c with stage := .failed }))
  | receive (c : Caller) (hstage : c.stage = .waiting) (delivery : Delivery)
      (hdelivered : (c.call, delivery) ∈ s.delivered) :
      BrokerMove s (.caller c) s none
  | dropped (c : Caller) : BrokerMove s (.caller c) s none
  | install : BrokerMove s .installs { s with connected := true } (some (.reader .reading))
  | malformed : BrokerMove s (.reader .reading) s (some (.reader .reading))
  | read (answer : Answer) (rest : List Answer) (hresponses : s.responses = answer :: rest) :
      BrokerMove s (.reader .reading) { s with responses := rest } (some (.reader (.demux answer)))
  | demux (answer : Answer) (call : Nat)
      (hcall : s.invokePending.lookup answer.response.id = some call) :
      BrokerMove s (.reader (.demux answer))
        (s.resolve .invokePending answer (.payload answer answer.response.payload))
        (some (.reader .reading))
  | notInvoke (answer : Answer) (hnone : s.invokePending.lookup answer.response.id = none) :
      BrokerMove s (.reader (.demux answer)) s (some (.reader (.legacy answer)))
  | legacy (answer : Answer) :
      BrokerMove s (.reader (.legacy answer)) (s.resolve .pending answer (.response answer))
        (some (.reader .reading))
  | close : BrokerMove s (.reader .reading) s (some (.reader .draining))
  | drain :
      BrokerMove s (.reader .draining) { s.empty .invokePending .workerLost with drained := true }
        (some (.reader .clearing))
  | clear : BrokerMove s (.reader .clearing) (s.empty .pending .closed) none
  | answer (frame : Frame) (rest : Multiset Frame) (response : WireResponse)
      (hrequests : s.requests = frame ::ₘ rest) (hid : response.id = frame.wire.id) :
      BrokerMove s .worker
        { s with requests := rest, responses := s.responses ++ [⟨frame.call, response⟩] }
        (some .worker)
  | ignore (frame : Frame) (rest : Multiset Frame) (hrequests : s.requests = frame ::ₘ rest) :
      BrokerMove s .worker { s with requests := rest } (some .worker)

/-- The system of a session, in which calls begin at any time. -/
def brokerSystem : PoolSystem BrokerSession BrokerProcess where
  Start _ _ p := ∃ method, p = .begins method
  Move s _ p s' p' := BrokerMove s p s' p'

/-- A new session with its worker. -/
def BrokerSession.start : Pool BrokerSession BrokerProcess := ⟨{}, {.installs, .worker}⟩

theorem BrokerSession.mem_running_start {p : BrokerProcess} :
  p ∈ BrokerSession.start.running ↔ p = .installs ∨ p = .worker
  := by
  simp [BrokerSession.start]

/-! ### The numbers of calls -/

namespace BrokerSession

variable {s s' : BrokerSession} {p : BrokerProcess} {p' : Option BrokerProcess}

def Issued (s : BrokerSession) (call : Nat) (method : BrokerCall) (id : Nat) : Prop :=
  s.issued[call]? = some (method, id)

def Carries (s : BrokerSession) (call id : Nat) : Prop := ∃ method, s.Issued call method id

@[simp]
theorem issued_takeId (method : BrokerCall) :
  (s.takeId method).issued = s.issued ++ [(method, s.nextId method)]
  := by
  cases method <;> rfl

section SetMap

variable (map : PendingMap) (entries : Table Nat Nat)

@[simp]
theorem issued_setMap : (s.setMap map entries).issued = s.issued := by cases map <;> rfl

@[simp]
theorem requests_setMap : (s.setMap map entries).requests = s.requests := by cases map <;> rfl

@[simp]
theorem responses_setMap : (s.setMap map entries).responses = s.responses := by cases map <;> rfl

@[simp]
theorem delivered_setMap : (s.setMap map entries).delivered = s.delivered := by cases map <;> rfl

@[simp]
theorem nextRequestId_setMap : (s.setMap map entries).nextRequestId = s.nextRequestId := by
  cases map <;> rfl

@[simp]
theorem nextInvokeId_setMap : (s.setMap map entries).nextInvokeId = s.nextInvokeId := by
  cases map <;> rfl

@[simp]
theorem drained_setMap : (s.setMap map entries).drained = s.drained := by cases map <;> rfl

theorem mapOf_setMap (map' : PendingMap) :
  (s.setMap map entries).mapOf map' = if map' = map then entries else s.mapOf map'
  := by
  cases map <;> cases map' <;> rfl

end SetMap

theorem counters_of_move (hmove : BrokerMove s p s' p') :
  (s'.issued = s.issued ∧ s'.nextRequestId = s.nextRequestId ∧ s'.nextInvokeId = s.nextInvokeId)
    ∨ ∃ method, p = .begins method ∧ s' = s.takeId method
  := by
  cases hmove with
  | number method => exact .inr ⟨method, rfl, rfl⟩
  | _ => exact .inl (by simp [park, evict, resolve, empty, write, deliver])

theorem Issued.of_move {call id : Nat} {method : BrokerCall} (hissue : s.Issued call method id)
    (hmove : BrokerMove s p s' p') :
  s'.Issued call method id
  := by
  obtain ⟨heq, -, -⟩ | ⟨method', -, rfl⟩ := counters_of_move hmove
  · rw [Issued, heq]
    apply hissue
  · rw [Issued, issued_takeId, getElem?_append_left]
    · apply hissue
    · obtain ⟨hlt, -⟩ := List.getElem?_eq_some_iff.mp hissue
      apply hlt

theorem Carries.of_move {call id : Nat} (hcar : s.Carries call id) (hmove : BrokerMove s p s' p') :
  s'.Carries call id
  := by
  obtain ⟨method, hissue⟩ := hcar
  use method
  apply hissue.of_move hmove

theorem issued_length (s : BrokerSession) (method : BrokerCall) :
  (s.takeId method).Issued s.issued.length method (s.nextId method)
  := by
  rw [Issued, issued_takeId, getElem?_concat_length]

/-! ### What a move can do -/

section Lookup

variable {map map' : PendingMap} {id id' call : Nat} {delivery : Delivery}

theorem lookup_of_evict (hlook : ((s.evict map' id').mapOf map).lookup id = some call) :
  (s.mapOf map).lookup id = some call
  := by
  rw [evict, mapOf_setMap] at hlook
  split_ifs at hlook with heq
  · subst heq
    apply Table.lookup_of_lookup_erase hlook
  · apply hlook

theorem lookup_of_resolve {answer : Answer}
    (hlook : ((s.resolve map' answer delivery).mapOf map).lookup id = some call) :
  (s.mapOf map).lookup id = some call
  := by
  rw [resolve, mapOf_setMap] at hlook
  split_ifs at hlook with heq
  · subst heq
    apply Table.lookup_of_lookup_erase hlook
  · apply hlook

theorem lookup_of_empty (hlook : ((s.empty map' delivery).mapOf map).lookup id = some call) :
  (s.mapOf map).lookup id = some call
  := by
  rw [empty, mapOf_setMap] at hlook
  split_ifs at hlook
  · cases hlook
  · apply hlook

theorem lookup_of_park {call' : Nat}
    (hlook : ((s.park map' id' call').mapOf map).lookup id = some call) :
  (s.mapOf map).lookup id = some call ∨ map = map' ∧ id = id' ∧ call' = call
  := by
  rw [park, mapOf_setMap] at hlook
  split_ifs at hlook with heq
  · subst heq
    rw [Table.lookup_insert'] at hlook
    split_ifs at hlook with hid
    · exact .inr ⟨rfl, hid, Option.some.inj hlook⟩
    · exact .inl hlook
  · exact .inl hlook

/-- A sender is put into a map by its own call. -/
theorem lookup_of_move (hmove : BrokerMove s p s' p')
    (hlook : (s'.mapOf map).lookup id = some call) :
  (s.mapOf map).lookup id = some call
    ∨ ∃ c : Caller, p = .caller c ∧ c.method.awaits = some map ∧ c.call = call ∧ c.id = id
      ∧ c.stage = .numbered
  := by
  cases hmove with
  | number method =>
    left
    cases method <;> cases map <;> apply hlook
  | park c hstage map' hmap =>
    obtain hold | ⟨rfl, rfl, hcall⟩ := lookup_of_park hlook
    · exact .inl hold
    · exact .inr ⟨c, rfl, hmap, hcall, rfl, hstage⟩
  | evict c hstage map' hmap => exact .inl (lookup_of_evict hlook)
  | demux answer call' hcall | legacy answer => exact .inl (lookup_of_resolve hlook)
  | drain =>
    have hempty : ((s.empty .invokePending .workerLost).mapOf map).lookup id = some call := by
      cases map <;> apply hlook
    exact .inl (lookup_of_empty hempty)
  | clear => exact .inl (lookup_of_empty hlook)
  | _ =>
    left
    cases map <;> apply hlook

end Lookup

theorem mem_requests_of_move (hmove : BrokerMove s p s' p') {frame : Frame}
    (hmem : frame ∈ s'.requests) :
  frame ∈ s.requests ∨ ∃ c : Caller, p = .caller c ∧ frame = c.frame
  := by
  have hwrite : ∀ c : Caller, frame ∈ (s.write c.frame).requests →
      frame ∈ s.requests
        ∨ ∃ c' : Caller, BrokerProcess.caller c = .caller c' ∧ frame = c'.frame := by
    intro c h
    obtain rfl | h := Multiset.mem_cons.mp h
    · exact .inr ⟨c, rfl, rfl⟩
    · exact .inl h
  cases hmove with
  | number method =>
    left
    cases method <;> apply hmem
  | flushFails c => apply hwrite c hmem
  | write c => apply hwrite c hmem
  | answer frame' rest response hreq | ignore frame' rest hreq =>
    left
    rw [hreq]
    apply Multiset.mem_cons_of_mem hmem
  | _ =>
    left
    simpa [park, evict, resolve, empty, deliver] using hmem

theorem mem_responses_of_move (hmove : BrokerMove s p s' p') {answer : Answer}
    (hmem : answer ∈ s'.responses) :
  answer ∈ s.responses
    ∨ ∃ frame ∈ s.requests, answer.call = frame.call ∧ answer.response.id = frame.wire.id
  := by
  cases hmove with
  | number method =>
    left
    cases method <;> apply hmem
  | read answer' rest hres =>
    left
    rw [hres]
    apply mem_cons_of_mem _ hmem
  | answer frame rest response hreq hid =>
    obtain hold | hnew := mem_append.mp hmem
    · exact .inl hold
    · obtain rfl := mem_singleton.mp hnew
      refine .inr ⟨frame, ?_, rfl, hid⟩
      rw [hreq]
      apply Multiset.mem_cons_self
  | _ =>
    left
    simpa [park, evict, resolve, empty, write, deliver] using hmem

section Delivered

variable {call : Nat} {delivery delivery' : Delivery}

theorem mem_delivered_deliver {target : Option Nat}
    (hmem : (call, delivery) ∈ (s.deliver target delivery').delivered) :
  (call, delivery) ∈ s.delivered ∨ target = some call ∧ delivery = delivery'
  := by
  obtain hold | hnew := mem_append.mp hmem
  · exact .inl hold
  · obtain ⟨call', rfl, heq⟩ := Option.map_eq_some_iff.mp (Option.mem_toList.mp hnew)
    cases heq
    exact .inr ⟨rfl, rfl⟩

theorem mem_delivered_resolve {map : PendingMap} {answer : Answer}
    (hlook : (s.mapOf map).lookup answer.response.id = some call) (delivery : Delivery) :
  (call, delivery) ∈ (s.resolve map answer delivery).delivered
  := by
  rw [resolve, delivered_setMap, deliver, hlook]
  apply mem_append_right
  apply mem_singleton_self

theorem mem_delivered_empty {map : PendingMap}
    (hmem : (call, delivery) ∈ (s.empty map delivery').delivered) :
  (call, delivery) ∈ s.delivered
    ∨ (∃ id, (s.mapOf map).lookup id = some call) ∧ delivery = delivery'
  := by
  rw [empty, delivered_setMap] at hmem
  obtain hold | hnew := mem_append.mp hmem
  · exact .inl hold
  · obtain ⟨⟨id, call'⟩, hentry, heq⟩ := mem_map.mp hnew
    cases heq
    exact .inr ⟨⟨id, Table.lookup_eq_some_iff.mpr hentry⟩, rfl⟩

/-- What is delivered goes to a sender in a map: an answer to the one under its own number. The
sender stays in the map only when its own call puts it there again. -/
theorem mem_delivered_of_move (hmove : BrokerMove s p s' p')
    (hmem : (call, delivery) ∈ s'.delivered) :
  (call, delivery) ∈ s.delivered
    ∨ ∃ map id, (s.mapOf map).lookup id = some call
      ∧ (∀ answer, delivery.answer = some answer → id = answer.response.id
        ∧ (p = .reader (.demux answer) ∨ p = .reader (.legacy answer)))
      ∧ ((s'.mapOf map).lookup id = some call → ∃ c : Caller, p = .caller c ∧ c.call = call
        ∧ c.stage = .numbered)
  := by
  have herase : ∀ (map : PendingMap) (id : Nat) (told : BrokerSession),
      ((told.setMap map (AList.erase id (s.mapOf map))).mapOf map).lookup id ≠ some call := by
    intro map id told
    simp [mapOf_setMap]
  cases hmove with
  | number method =>
    left
    cases method <;> apply hmem
  | park c hstage map hmap =>
    rw [park, delivered_setMap] at hmem
    obtain hold | ⟨htar, rfl⟩ := mem_delivered_deliver hmem
    · exact .inl hold
    · refine .inr ⟨map, c.id, htar, nofun, ?_⟩
      intro hlook
      rw [park, mapOf_setMap, if_pos rfl, AList.lookup_insert] at hlook
      exact ⟨c, rfl, Option.some.inj hlook, hstage⟩
  | evict c hstage map hmap =>
    rw [evict, delivered_setMap] at hmem
    obtain hold | ⟨htar, rfl⟩ := mem_delivered_deliver hmem
    · exact .inl hold
    · exact .inr ⟨map, c.id, htar, nofun, fun hlook => absurd hlook (herase _ _ _)⟩
  | demux answer | legacy answer =>
    rw [resolve, delivered_setMap] at hmem
    obtain hold | ⟨htar, rfl⟩ := mem_delivered_deliver hmem
    · exact .inl hold
    · refine .inr ⟨_, _, htar, ?_, fun hlook => absurd hlook (herase _ _ _)⟩
      rintro _ ⟨⟩
      simp
  | drain | clear =>
    obtain hold | ⟨⟨id, hlook⟩, rfl⟩ := mem_delivered_empty hmem
    · exact .inl hold
    · exact .inr ⟨_, id, hlook, nofun, nofun⟩
  | _ => exact .inl hmem

end Delivered

variable {c : Caller}

theorem Caller.eq_of_goesOn {stage : CallStage} {q : BrokerProcess} (hq : some q = c.goesOn stage) :
  q = .caller { c with stage := stage }
  := by
  unfold Caller.goesOn at hq
  split at hq <;> cases hq
  rfl

theorem Caller.eq_of_notConnected {q : BrokerProcess} (hq : some q = c.notConnected) :
  q = .caller { c with stage := .failed } ∧ c.method.awaits = some .invokePending
  := by
  unfold Caller.notConnected at hq
  split at hq
  case h_1 hmet =>
    cases hq
    exact ⟨rfl, hmet⟩
  case h_2 => cases hq

/-- A call that a move leaves has just been numbered, or has gone on to a later stage. -/
theorem caller_of_move (hmove : BrokerMove s p s' (some (.caller c))) :
  (∃ method, p = .begins method ∧ s' = s.takeId method
      ∧ c = ⟨method, s.issued.length, s.nextId method, .numbered⟩)
    ∨ ∃ c₀ stage, p = .caller c₀ ∧ c = { c₀ with stage := stage } ∧ stage ≠ .numbered
      ∧ (stage = .waiting → ∃ frame, s' = s.write frame)
  := by
  generalize hp' : some (BrokerProcess.caller c) = p' at hmove
  cases hmove with
  | number method =>
    cases hp'
    exact .inl ⟨method, rfl, rfl, rfl⟩
  | notConnected c₀ =>
    cases (Caller.eq_of_notConnected hp').1
    exact .inr ⟨c₀, .failed, rfl, rfl, nofun, nofun⟩
  | writeFails c₀ | flushFails c₀ =>
    cases Caller.eq_of_goesOn hp'
    exact .inr ⟨c₀, .failed, rfl, rfl, nofun, nofun⟩
  | write c₀ =>
    cases Caller.eq_of_goesOn hp'
    exact .inr ⟨c₀, .waiting, rfl, rfl, nofun, fun _ => ⟨_, rfl⟩⟩
  | _ => cases hp' <;> exact .inr ⟨_, _, rfl, rfl, nofun, nofun⟩

theorem reader_of_move {stage : ReaderStage} (hmove : BrokerMove s p s' (some (.reader stage)))
    {answer : Answer} (hstage : stage = .demux answer ∨ stage = .legacy answer) :
  answer ∈ s.responses ∨ p = .reader (.demux answer)
  := by
  generalize hp' : some (BrokerProcess.reader stage) = p' at hmove
  cases hmove with
  | notConnected c => cases (Caller.eq_of_notConnected hp').1
  | writeFails c | flushFails c | write c => cases Caller.eq_of_goesOn hp'
  | read answer' rest hres =>
    cases hp'
    obtain heq | heq := hstage
    · cases heq
      left
      rw [hres]
      apply mem_cons_self
    · cases heq
  | notInvoke answer' hnone =>
    cases hp'
    obtain heq | heq := hstage
    · cases heq
    · cases heq
      exact .inr rfl
  | _ => cases hp' <;> obtain heq | heq := hstage <;> cases heq

/-! ### Runs of calls -/

section Calls

variable {Allowed : BrokerSession → BrokerProcess → BrokerSession → Option BrokerProcess → Prop}
  (hothers : ∀ s p s' p', (∀ method, p ≠ .begins method) → Allowed s p s' p')

include hothers

theorem reaches_waiting (method : BrokerCall) (map : PendingMap) (hmap : method.awaits = some map)
    (hall : ∀ s' p', Allowed s (.begins method) s' p') (hcon : s.connected = true)
    (m : Multiset BrokerProcess) :
  (brokerSystem.restrict Allowed).Reaches ⟨s, m⟩
    ⟨((s.takeId method).park map (s.nextId method) s.issued.length).write
        ⟨s.issued.length, s.nextId method, method.request⟩,
      .caller ⟨method, s.issued.length, s.nextId method, .waiting⟩ ::ₘ m⟩
  := by
  have hstar : (brokerSystem.restrict Allowed).Reaches ⟨s, m⟩ ⟨s, .begins method ::ₘ m⟩ :=
    .single (.start ⟨method, rfl⟩)
  have hpar := (hstar.tail (.goesOn ⟨.number method, hall _ _⟩)).tail
    (.goesOn ⟨.park _ rfl map hmap, hothers _ _ _ _ (by simp)⟩)
  have hcon' : ((s.takeId method).park map (s.nextId method) s.issued.length).connected
      = true := by
    cases method <;> cases map <;> apply hcon
  have hwait : Caller.goesOn ⟨method, s.issued.length, s.nextId method, .parked⟩ .waiting
      = some (.caller ⟨method, s.issued.length, s.nextId method, .waiting⟩) := by
    simp [Caller.goesOn, hmap]
  apply hpar.tail
  apply PoolSystem.Step.goesOn
  rw [← hwait]
  exact ⟨.write _ rfl hcon', hothers _ _ _ _ (by simp)⟩

theorem exists_reaches_demux {pool : Pool BrokerSession BrokerProcess} {m : Multiset BrokerProcess}
    (hreach : (brokerSystem.restrict Allowed).Reaches pool ⟨s, m⟩) (hwork : .worker ∈ m)
    (hreader : .reader .reading ∈ m) (frame : Frame) (rest : Multiset Frame)
    (hreq : s.requests = frame ::ₘ rest) (hres : s.responses = []) (response : WireResponse)
    (hid : response.id = frame.wire.id) :
  ∃ m', (brokerSystem.restrict Allowed).Reaches pool
    ⟨{ s with requests := rest, responses := [] },
      .reader (.demux ⟨frame.call, response⟩) ::ₘ .worker ::ₘ m'⟩
  := by
  obtain ⟨m, rfl⟩ := Multiset.exists_cons_of_mem hwork
  obtain hreader | hreader := Multiset.mem_cons.mp hreader
  · cases hreader
  · obtain ⟨m, rfl⟩ := Multiset.exists_cons_of_mem hreader
    use m
    have hans : (brokerSystem.restrict Allowed).Step
        ⟨s, .worker ::ₘ .reader .reading ::ₘ m⟩
        ⟨{ s with requests := rest, responses := s.responses ++ [⟨frame.call, response⟩] },
          .worker ::ₘ .reader .reading ::ₘ m⟩ :=
      .goesOn ⟨.answer frame rest response hreq hid, hothers _ _ _ _ (by simp)⟩
    have hread : (brokerSystem.restrict Allowed).Step
        ⟨{ s with requests := rest, responses := s.responses ++ [⟨frame.call, response⟩] },
          .reader .reading ::ₘ .worker ::ₘ m⟩
        ⟨{ s with requests := rest, responses := [] },
          .reader (.demux ⟨frame.call, response⟩) ::ₘ .worker ::ₘ m⟩ := by
      apply PoolSystem.Step.goesOn
      refine ⟨.read _ [] ?_, hothers _ _ _ _ (by simp)⟩
      rw [hres]
      rfl
    rw [Multiset.cons_swap] at hread
    apply (hreach.tail hans).tail hread

end Calls

end BrokerSession
