import Mathlib.Data.Multiset.Filter
import AaOS.Daemon.Approval
import AaOS.Lib.History
import AaOS.Lib.Pool

/-!
# The queue of approvals

`agentd/src/approval.rs` with the store of `agentd/src/approval_store.rs`.  Requests and responses
run at the same time; each access to the map, the store and the channel is one step.  A response is
reported as delivered when it found an entry, but the entry of a dropped caller stays in the map,
and a decision may be sent to a caller whose time is over.
-/

open Multiset Option Pool PoolSystem.Step Relation.ReflTransGen Function

/-! ### The queue -/

/-- What is pending: the request of an agent, with its identifier and its time. -/
structure PersistedApproval extends ApprovalRequest where
  id : Uuid
  timestamp : DateTime

inductive AnswerChannel where
  | empty
  | sent (decision : ApprovalResult)
  | senderDropped
  | receiverDropped

namespace AnswerChannel

/-- Send a decision; it is lost when the receiver was dropped. -/
def send (decision : ApprovalResult) : AnswerChannel → AnswerChannel
  | empty => sent decision
  | channel => channel

def dropSender : AnswerChannel → AnswerChannel
  | empty => senderDropped
  | channel => channel

end AnswerChannel

/-- How a request ends: with the decision of a response, without a sender, or after its time. -/
inductive RequestOutcome where
  | answered (decision : ApprovalResult)
  | unavailable
  | timedOut

def RequestOutcome.decisions : RequestOutcome → List ApprovalResult
  | answered decision => [decision]
  | _ => []

inductive ApprovalEvent where
  | responded (id : Uuid) (decision : ApprovalResult) (reply : Except CoreError Unit)
  | returned (id : Uuid) (outcome : RequestOutcome)
  | cancelled (id : Uuid)

/-- The pending entries, the rows of the store if there is one, the channels, and what callers have
seen. -/
structure ApprovalQueue where
  pending : Table Uuid PersistedApproval
  store : Option (Table Uuid PersistedApproval)
  channels : Uuid → AnswerChannel
  log : List ApprovalEvent

namespace ApprovalQueue

/-- The queue without a store. -/
def new : ApprovalQueue where
  pending := ∅
  store := none
  channels _ := .empty
  log := []

/-- The queue with a store, from which the rows of an earlier daemon have been removed. -/
def withStore : ApprovalQueue := { new with store := some ∅ }

variable (queue : ApprovalQueue)

def insertPending (approval : PersistedApproval) : ApprovalQueue :=
  { queue with pending := queue.pending.insert approval.id approval }

def removePending (id : Uuid) : ApprovalQueue := { queue with pending := queue.pending.erase id }

def insertRow (approval : PersistedApproval) : ApprovalQueue :=
  { queue with store := queue.store.map (·.insert approval.id approval) }

def removeRow (id : Uuid) : ApprovalQueue :=
  { queue with store := queue.store.map (·.erase id) }

def updateChannel (id : Uuid) (f : AnswerChannel → AnswerChannel) : ApprovalQueue :=
  { queue with channels := Function.update queue.channels id (f (queue.channels id)) }

/-- Take an entry out of the map and drop it, with its sender. -/
def dropPending (id : Uuid) : ApprovalQueue :=
  if id ∈ queue.pending then (queue.removePending id).updateChannel id .dropSender else queue

def note (event : ApprovalEvent) : ApprovalQueue := { queue with log := queue.log ++ [event] }

end ApprovalQueue

/-! ### Calls -/

inductive RequestStage where
  | called
  | inserted
  | waiting
  | leaving (outcome : RequestOutcome)
  | ending (outcome : RequestOutcome)

inductive RespondStage where
  | called
  | taken
  | sending
deriving DecidableEq

/-- A call under way. -/
inductive ApprovalCall where
  | request (approval : PersistedApproval) (stage : RequestStage)
  | respond (id : Uuid) (decision : ApprovalResult) (stage : RespondStage)

/-- The identifier that a call is about. -/
def ApprovalCall.id : ApprovalCall → Uuid
  | request approval _ => approval.id
  | respond id _ _ => id

/-- A step of a call. While a request waits, its time may be over and its caller may be dropped. -/
inductive ApprovalMove (uuidText : Uuid → Text) (queue : ApprovalQueue) :
    ApprovalCall → ApprovalQueue → Option ApprovalCall → Prop
  | insert {approval} :
      ApprovalMove uuidText queue (.request approval .called)
        (queue.insertPending approval) (some (.request approval .inserted))
  | persist {approval} :
      ApprovalMove uuidText queue (.request approval .inserted)
        (queue.insertRow approval) (some (.request approval .waiting))
  | receive {approval : PersistedApproval} {decision}
      (hsent : queue.channels approval.id = .sent decision) :
      ApprovalMove uuidText queue (.request approval .waiting)
        queue (some (.request approval (.ending (.answered decision))))
  | lose {approval : PersistedApproval}
      (hdropped : queue.channels approval.id = .senderDropped) :
      ApprovalMove uuidText queue (.request approval .waiting)
        queue (some (.request approval (.leaving .unavailable)))
  | elapse {approval} :
      ApprovalMove uuidText queue (.request approval .waiting)
        (queue.updateChannel approval.id fun _ => .receiverDropped)
        (some (.request approval (.leaving .timedOut)))
  | cancel {approval} :
      ApprovalMove uuidText queue (.request approval .waiting)
        ((queue.updateChannel approval.id fun _ => .receiverDropped).note
          (.cancelled approval.id)) none
  | leave {approval outcome} :
      ApprovalMove uuidText queue (.request approval (.leaving outcome))
        (queue.dropPending approval.id) (some (.request approval (.ending outcome)))
  | finish {approval outcome} :
      ApprovalMove uuidText queue (.request approval (.ending outcome))
        ((queue.removeRow approval.id).note (.returned approval.id outcome)) none
  | take {approval id decision}
      (hpending : queue.pending.lookup id = some approval) :
      ApprovalMove uuidText queue (.respond id decision .called)
        (queue.removePending id) (some (.respond id decision .taken))
  | refuse {id decision} (hpending : queue.pending.lookup id = none) :
      ApprovalMove uuidText queue (.respond id decision .called)
        (queue.note (.responded id decision
          (.error (.ipc ("no pending approval with id " ++ uuidText id))))) none
  | unpersist {id decision} :
      ApprovalMove uuidText queue (.respond id decision .taken)
        (queue.removeRow id) (some (.respond id decision .sending))
  | send {id decision} :
      ApprovalMove uuidText queue (.respond id decision .sending)
        ((queue.updateChannel id (.send decision)).note (.responded id decision (.ok ()))) none

/-! ### What is about one identifier -/

namespace ApprovalQueue

def requestsOf (id : Uuid) (calls : Multiset ApprovalCall) :
    Multiset (PersistedApproval × RequestStage) :=
  calls.filterMap fun
    | .request approval stage => if approval.id = id then some (approval, stage) else none
    | .respond _ _ _ => none

def holdersOf (id : Uuid) (calls : Multiset ApprovalCall) : Multiset ApprovalResult :=
  calls.filterMap fun
    | .request _ _ => none
    | .respond id' decision stage => if id' = id ∧ stage ≠ .called then some decision else none

/-- The decisions for an identifier whose responses were told that all is well. -/
def answersOf (id : Uuid) (log : List ApprovalEvent) : List ApprovalResult :=
  log.filterMap fun
    | .responded id' decision (.ok _) => if id' = id then some decision else none
    | _ => none

def deliveriesOf (id : Uuid) (log : List ApprovalEvent) : List ApprovalResult :=
  log.filterMap fun
    | .returned id' (.answered decision) => if id' = id then some decision else none
    | _ => none

/-- All that is about one identifier.  The row is missing when there is no store. -/
structure Observed where
  requests : Multiset (PersistedApproval × RequestStage)
  holders : Multiset ApprovalResult
  pending : Option PersistedApproval
  row : Option (Option PersistedApproval)
  channel : AnswerChannel
  answers : List ApprovalResult
  deliveries : List ApprovalResult

/-- What is about an identifier, of a queue and the calls under way. -/
def observe (id : Uuid) (pool : Pool ApprovalQueue ApprovalCall) : Observed where
  requests := requestsOf id pool.running
  holders := holdersOf id pool.running
  pending := pool.shared.pending.lookup id
  row := pool.shared.store.map (·.lookup id)
  channel := pool.shared.channels id
  answers := answersOf id pool.shared.log
  deliveries := deliveriesOf id pool.shared.log

/-- The row of an identifier is as it should be, if there is a store. -/
def RowIs (row : Option (Option PersistedApproval)) (wanted : Option PersistedApproval) : Prop :=
  ∀ found ∈ row, found = wanted

structure Observed.Unused (o : Observed) : Prop where
  requests : o.requests = 0
  holders : o.holders = 0
  pending : o.pending = none
  row : RowIs o.row none
  channel : o.channel = .empty
  answers : o.answers = []
  deliveries : o.deliveries = []

/-- The system of requests and responses.  A request draws an identifier that is not used. -/
def system (uuidText : Uuid → Text) : PoolSystem ApprovalQueue ApprovalCall where
  Start queue calls call :=
    match call with
    | .request approval stage => stage = .called ∧ (observe approval.id ⟨queue, calls⟩).Unused
    | .respond _ _ stage => stage = .called
  Move queue _ call queue' call' := ApprovalMove uuidText queue call queue' call'

/-! ### Delivery -/

/-- The calls under way are requests that wait, and no decision has been sent to them. -/
def Settled (pool : Pool ApprovalQueue ApprovalCall) : Prop :=
  ∀ call ∈ pool.running, ∃ approval, call = .request approval .waiting
    ∧ pool.shared.channels approval.id = .empty

/-- A response is told that all is well exactly when the request returns its decision, and the map
and the store hold exactly the requests that wait. -/
structure Delivers (pool : Pool ApprovalQueue ApprovalCall) : Prop where
  delivered : ∀ id decision, .responded id decision (.ok ()) ∈ pool.shared.log
    ↔ .returned id (.answered decision) ∈ pool.shared.log
  pending : ∀ id approval, pool.shared.pending.lookup id = some approval
    ↔ .request approval .waiting ∈ pool.running ∧ approval.id = id
  stored : ∀ rows ∈ pool.shared.store, ∀ id approval, rows.lookup id = some approval
    ↔ .request approval .waiting ∈ pool.running ∧ approval.id = id

/-- No waiting caller is dropped, time is over only while the entry is pending, and no entry is
taken whose request has dropped its receiver. -/
def Heeds (queue : ApprovalQueue) (call : ApprovalCall) (_ : ApprovalQueue)
    (call' : Option ApprovalCall) : Prop :=
  match call, call' with
  | .request _ .waiting, none => False
  | .request approval .waiting, some (.request _ (.leaving .timedOut)) =>
    (queue.pending.lookup approval.id).isSome
  | .respond id _ .called, some _ => queue.channels id ≠ .receiverDropped
  | _, _ => True

/-! ### The course of a request -/

/-- The entry of a request is pending, or a response has taken it, or the decision has been sent. -/
inductive Registered (approval : PersistedApproval) (row : Option PersistedApproval)
    (o : Observed) : Prop
  | listed (hholders : o.holders = 0) (hpending : o.pending = some approval)
      (hrow : RowIs o.row row) (hchannel : o.channel = .empty) (hlog : o.answers = o.deliveries)
  | taken {decision : ApprovalResult} (hholders : o.holders = {decision})
      (hpending : o.pending = none) (hchannel : o.channel = .empty)
      (hlog : o.answers = o.deliveries)
  | sent {decision : ApprovalResult} (hholders : o.holders = 0) (hpending : o.pending = none)
      (hchannel : o.channel = .sent decision) (hlog : o.answers = o.deliveries ++ [decision])

/-- A request that is over, with the decisions that are still to be returned. -/
structure Over (owed : List ApprovalResult) (o : Observed) : Prop where
  holders : o.holders = 0
  pending : o.pending = none
  log : o.answers = o.deliveries ++ owed

/-- A request whose time is over and whose entry is still pending. -/
structure Elapsed (approval : PersistedApproval) (o : Observed) : Prop where
  holders : o.holders = 0
  pending : o.pending = some approval
  channel : o.channel = .receiverDropped
  log : o.answers = o.deliveries

def Phase (approval : PersistedApproval) : RequestStage → Observed → Prop
  | .called, o => Over [] o ∧ RowIs o.row none ∧ o.channel = .empty
  | .inserted, o => Registered approval none o
  | .waiting, o => Registered approval (some approval) o
  | .leaving .timedOut, o => Elapsed approval o
  | .ending .timedOut, o => Over [] o
  | .ending (.answered decision), o => Over [decision] o
  | _, _ => False

/-- There is one request with the identifier, at one of its stages, or nothing is left of it. -/
inductive Course (o : Observed) : Prop
  | absent (hrequests : o.requests = 0) (hover : Over [] o) (hrow : RowIs o.row none)
  | present {approval : PersistedApproval} {stage : RequestStage}
      (hrequests : o.requests = {(approval, stage)}) (hphase : Phase approval stage o)

/-! ### Observations of a step -/

section Observations

variable {id : Uuid} {calls : Multiset ApprovalCall}

@[simp]
theorem requestsOf_request (approval : PersistedApproval) (stage : RequestStage) :
  requestsOf id (.request approval stage ::ₘ calls)
    = if approval.id = id then (approval, stage) ::ₘ requestsOf id calls else requestsOf id calls
  := by
  unfold requestsOf
  split_ifs with h
  · apply filterMap_cons_some
    simp [h]
  · apply filterMap_cons_none
    simp [h]

@[simp]
theorem requestsOf_respond (id' : Uuid) (decision : ApprovalResult) (stage : RespondStage) :
  requestsOf id (.respond id' decision stage ::ₘ calls) = requestsOf id calls
  := filterMap_cons_none _ _ rfl

@[simp]
theorem holdersOf_request (approval : PersistedApproval) (stage : RequestStage) :
  holdersOf id (.request approval stage ::ₘ calls) = holdersOf id calls
  := filterMap_cons_none _ _ rfl

@[simp]
theorem holdersOf_respond (id' : Uuid) (decision : ApprovalResult) (stage : RespondStage) :
  holdersOf id (.respond id' decision stage ::ₘ calls)
    = if id' = id ∧ stage ≠ .called then decision ::ₘ holdersOf id calls else holdersOf id calls
  := by
  unfold holdersOf
  split_ifs with h
  · apply filterMap_cons_some
    simp [h]
  · apply filterMap_cons_none
    simp only [if_neg h]

theorem mem_requestsOf {approval : PersistedApproval} {stage : RequestStage} :
  (approval, stage) ∈ requestsOf id calls
    ↔ .request approval stage ∈ calls ∧ approval.id = id
  := by
  unfold requestsOf
  rw [mem_filterMap]
  constructor
  · rintro ⟨_ | _, hmem, heq⟩
    · simp only [ite_none_right_eq_some, some.injEq, Prod.mk.injEq] at heq
      obtain ⟨hid, rfl, rfl⟩ := heq
      exact ⟨hmem, hid⟩
    · cases heq
  · rintro ⟨hmem, hid⟩
    exact ⟨_, hmem, if_pos hid⟩

variable {decision : ApprovalResult}

theorem exists_of_mem_holdersOf (hmem : decision ∈ holdersOf id calls) :
  ∃ stage, .respond id decision stage ∈ calls
  := by
  obtain ⟨_ | ⟨id', decision', stage⟩, hmem, heq⟩ := (mem_filterMap _ _).mp hmem
  · cases heq
  · simp only [ite_none_right_eq_some, some.injEq] at heq
    obtain ⟨⟨rfl, -⟩, rfl⟩ := heq
    use stage

theorem mem_answersOf {log : List ApprovalEvent} :
  decision ∈ answersOf id log ↔ .responded id decision (.ok ()) ∈ log
  := by
  apply mem_filterMap_of_iff
  rintro (⟨id', decision', e | ⟨⟩⟩ | ⟨id', outcome⟩ | id') <;> simp

theorem mem_deliveriesOf {log : List ApprovalEvent} :
  decision ∈ deliveriesOf id log ↔ .returned id (.answered decision) ∈ log
  := by
  apply mem_filterMap_of_iff
  rintro (⟨id', decision', reply⟩ | ⟨id', decision' | _ | _⟩ | id') <;> simp

end Observations

section Steps

variable {uuidText : Uuid → Text} {queue queue' : ApprovalQueue} {call : ApprovalCall}
  {call' : Option ApprovalCall} {calls : Multiset ApprovalCall}

variable {id : Uuid}

theorem observe_cons_of_ne (hne : id ≠ call.id) :
  observe id ⟨queue, call ::ₘ calls⟩ = observe id ⟨queue, calls⟩
  := by
  cases call with
  | request approval stage =>
    have hother : approval.id ≠ id := Ne.symm hne
    simp only [observe, requestsOf_request, holdersOf_request, if_neg hother]
  | respond id' decision stage =>
    have hother : ¬ (id' = id ∧ stage ≠ .called) := fun h => hne h.1.symm
    simp only [observe, requestsOf_respond, holdersOf_respond, if_neg hother]

theorem observe_note (event : ApprovalEvent) :
  observe id ⟨queue.note event, calls⟩
    = { observe id ⟨queue, calls⟩ with
        answers := (observe id ⟨queue, calls⟩).answers ++ answersOf id [event]
        deliveries := (observe id ⟨queue, calls⟩).deliveries ++ deliveriesOf id [event] }
  := by
  simp only [observe, note, answersOf, deliveriesOf, List.filterMap_append]

theorem observe_note_of_nil {event : ApprovalEvent} (hanss : answersOf id [event] = [])
    (hdel : deliveriesOf id [event] = []) :
  observe id ⟨queue.note event, calls⟩ = observe id ⟨queue, calls⟩
  := by
  rw [observe_note, hanss, hdel, List.append_nil, List.append_nil]

theorem ApprovalMove.observe_eq (hmove : ApprovalMove uuidText queue call queue' call')
    (hne : id ≠ call.id) :
  observe id ⟨queue', calls⟩ = observe id ⟨queue, calls⟩
  := by
  cases hmove <;> simp only [ApprovalCall.id] at hne
  case insert => simp only [observe, insertPending, AList.lookup_insert_ne hne]
  case persist =>
    simp only [observe, insertRow, Option.map_map, comp_def, AList.lookup_insert_ne hne]
  case receive | lose => rfl
  case elapse => simp only [observe, updateChannel, update_of_ne hne]
  case cancel =>
    rw [observe_note_of_nil rfl rfl]
    simp only [observe, updateChannel, update_of_ne hne]
  case leave =>
    unfold dropPending
    split_ifs
    · simp only [observe, updateChannel, removePending, update_of_ne hne, AList.lookup_erase_ne hne]
    · rfl
  case finish approval outcome =>
    rw [observe_note_of_nil rfl]
    · simp only [observe, removeRow, Option.map_map, comp_def, AList.lookup_erase_ne hne]
    · cases outcome <;> simp [deliveriesOf, hne.symm]
  case take => simp only [observe, removePending, AList.lookup_erase_ne hne]
  case refuse => apply observe_note_of_nil rfl rfl
  case unpersist =>
    simp only [observe, removeRow, Option.map_map, comp_def, AList.lookup_erase_ne hne]
  case send =>
    rw [observe_note_of_nil _ rfl]
    · simp only [observe, updateChannel, update_of_ne hne]
    · simp [answersOf, hne.symm]

theorem observe_of_ne (hmove : ApprovalMove uuidText queue call queue' call') (hne : id ≠ call.id) :
  observe id ⟨queue', rejoin calls call'⟩ = observe id ⟨queue, call ::ₘ calls⟩
  := by
  rw [observe_cons_of_ne hne, ← ApprovalMove.observe_eq hmove hne]
  cases hmove <;> first | rfl | exact observe_cons_of_ne hne

theorem rowIs_map {row : Option (Option PersistedApproval)} (wanted : Option PersistedApproval) :
  RowIs (row.map fun _ => wanted) wanted
  := by
  intro found hmem
  obtain ⟨_, -, rfl⟩ := map_eq_some_iff.mp hmem
  rfl

variable {o : Observed}

/-- A request among those with its identifier is the only one, at its stage. -/
theorem Course.phase (hcourse : Course o) {approval : PersistedApproval} {stage : RequestStage}
    {rest : Multiset (PersistedApproval × RequestStage)}
    (hreq : o.requests = (approval, stage) ::ₘ rest) :
  rest = 0 ∧ Phase approval stage o
  := by
  obtain ⟨habs, -, -⟩ | ⟨hpres, hphase⟩ := hcourse
  · rw [hreq] at habs
    exact absurd habs (cons_ne_zero)
  · rw [hreq, eq_comm, singleton_eq_cons_iff] at hpres
    obtain ⟨heq, hrest⟩ := hpres
    cases heq
    exact ⟨hrest, hphase⟩

def IsOpen (stage : RequestStage) : Prop := stage = .inserted ∨ stage = .waiting

theorem Course.split (hcourse : Course o) :
  (∃ owed, Over owed o) ∨ (∃ approval, Elapsed approval o)
    ∨ ∃ approval stage row, IsOpen stage ∧ o.requests = {(approval, stage)}
      ∧ Registered approval row o
  := by
  obtain ⟨-, hover, -⟩ | @⟨approval, stage, hpres, hphase⟩ := hcourse
  · exact .inl ⟨_, hover⟩
  · cases stage with
    | called => exact .inl ⟨_, hphase.1⟩
    | inserted => exact .inr (.inr ⟨approval, _, _, .inl rfl, hpres, hphase⟩)
    | waiting => exact .inr (.inr ⟨approval, _, _, .inr rfl, hpres, hphase⟩)
    | leaving outcome =>
      cases outcome with
      | timedOut => exact .inr (.inl ⟨approval, hphase⟩)
      | answered decision => cases hphase
      | unavailable => cases hphase
    | ending outcome =>
      cases outcome with
      | timedOut | answered decision => exact .inl ⟨_, hphase⟩
      | unavailable => cases hphase

theorem Course.of_holder (hcourse : Course o) {decision : ApprovalResult}
    {rest : Multiset ApprovalResult} (hhol : o.holders = decision ::ₘ rest) :
  rest = 0 ∧ o.pending = none ∧ o.channel = .empty ∧ o.answers = o.deliveries
    ∧ ∃ approval stage, IsOpen stage ∧ o.requests = {(approval, stage)}
  := by
  have hsome : o.holders ≠ 0 := by
    rw [hhol]
    apply cons_ne_zero
  obtain ⟨owed, hover⟩ | ⟨approval, helap⟩ | ⟨approval, stage, row, hopen, hpres, hreg⟩ :=
    hcourse.split
  · exact absurd hover.holders hsome
  · exact absurd helap.holders hsome
  · cases hreg with
    | listed hzero | sent hzero => exact absurd hzero hsome
    | taken hone hpend hchan hlog =>
      rw [hone, singleton_eq_cons_iff] at hhol
      exact ⟨hhol.2, hpend, hchan, hlog, approval, stage, hopen, hpres⟩

/-- When an entry is pending with its receiver, the request waits and no response has taken the
entry. -/
theorem Course.of_pending (hcourse : Course o) (hpend : o.pending ≠ none)
    (hchan : o.channel ≠ .receiverDropped) :
  o.holders = 0 ∧ o.channel = .empty ∧ o.answers = o.deliveries
    ∧ ∃ approval stage, IsOpen stage ∧ o.requests = {(approval, stage)}
  := by
  obtain ⟨owed, hover⟩ | ⟨approval, helap⟩ | ⟨approval, stage, row, hopen, hpres, hreg⟩ :=
    hcourse.split
  · exact absurd hover.pending hpend
  · exact absurd helap.channel hchan
  · cases hreg with
    | listed hhol _ _ hempty hlog =>
      exact ⟨hhol, hempty, hlog, approval, stage, hopen, hpres⟩
    | taken _ hnone | sent _ hnone => exact absurd hnone hpend

theorem Course.of_open {approval : PersistedApproval} {stage : RequestStage} (hopen : IsOpen stage)
    (hreq : o.requests = {(approval, stage)}) (hreg : ∀ row, Registered approval row o) :
  Course o
  := by
  apply Course.present hreq
  obtain rfl | rfl := hopen
  all_goals apply hreg

/-! ### The steps of a request -/

section Request

variable {o : Observed} {approval : PersistedApproval}

theorem Course.insert (hcourse : Course { o with requests := (approval, .called) ::ₘ o.requests }) :
  Course { o with requests := (approval, .inserted) ::ₘ o.requests, pending := some approval }
  := by
  obtain ⟨hrest, hover, hrow, hchan⟩ := hcourse.phase rfl
  apply Course.present (congrArg _ hrest)
  exact .listed hover.holders rfl hrow hchan (by simpa using hover.log)

theorem Course.persist
    (hcourse : Course { o with requests := (approval, .inserted) ::ₘ o.requests }) :
  Course { o with
    requests := (approval, .waiting) ::ₘ o.requests
    row := o.row.map fun _ => some approval }
  := by
  obtain ⟨hrest, hreg⟩ := hcourse.phase rfl
  apply Course.present (congrArg _ hrest)
  cases hreg with
  | listed hhol hpend _ hchan hlog =>
    exact .listed hhol hpend (rowIs_map _) hchan hlog
  | taken hhol hpend hchan hlog => exact .taken hhol hpend hchan hlog
  | sent hhol hpend hchan hlog => exact .sent hhol hpend hchan hlog

theorem Course.receive {decision : ApprovalResult}
    (hcourse : Course { o with requests := (approval, .waiting) ::ₘ o.requests })
    (hsent : o.channel = .sent decision) :
  Course { o with requests := (approval, .ending (.answered decision)) ::ₘ o.requests }
  := by
  obtain ⟨hrest, hreg⟩ := hcourse.phase rfl
  apply Course.present (congrArg _ hrest)
  cases hreg with
  | listed _ _ _ hchan | taken _ _ hchan => cases hsent.symm.trans hchan
  | sent hhol hpend hchan hlog =>
    cases hsent.symm.trans hchan
    exact ⟨hhol, hpend, hlog⟩

theorem Course.not_senderDropped
    (hcourse : Course { o with requests := (approval, .waiting) ::ₘ o.requests }) :
  o.channel ≠ .senderDropped
  := by
  obtain ⟨-, hreg⟩ := hcourse.phase rfl
  intro hdrop
  cases hreg with
  | listed _ _ _ hchan | taken _ _ hchan
  | sent _ _ hchan => cases hdrop.symm.trans hchan

theorem Course.elapse (hcourse : Course { o with requests := (approval, .waiting) ::ₘ o.requests })
    (hpend : o.pending.isSome) :
  Course { o with
    requests := (approval, .leaving .timedOut) ::ₘ o.requests
    channel := .receiverDropped }
  := by
  obtain ⟨hrest, hreg⟩ := hcourse.phase rfl
  apply Course.present (congrArg _ hrest)
  cases hreg with
  | listed hhol hpend _ _ hlog => exact ⟨hhol, hpend, rfl, hlog⟩
  | taken _ hnone | sent _ hnone => simp [show o.pending = none from hnone] at hpend

theorem Course.leave {outcome : RequestOutcome} {channel : AnswerChannel}
    (hcourse : Course { o with requests := (approval, .leaving outcome) ::ₘ o.requests }) :
  Course { o with
    requests := (approval, .ending outcome) ::ₘ o.requests
    pending := none
    channel := channel }
  := by
  obtain ⟨hrest, hphase⟩ := hcourse.phase rfl
  apply Course.present (congrArg _ hrest)
  cases outcome with
  | timedOut => exact ⟨hphase.holders, rfl, by simpa using hphase.log⟩
  | answered decision => cases hphase
  | unavailable => cases hphase

theorem Course.finish {outcome : RequestOutcome}
    (hcourse : Course { o with requests := (approval, .ending outcome) ::ₘ o.requests }) :
  Course { o with
    row := o.row.map fun _ => none
    deliveries := o.deliveries ++ outcome.decisions }
  := by
  obtain ⟨hrest, hphase⟩ := hcourse.phase rfl
  have hover : Over outcome.decisions o := by
    cases outcome with
    | timedOut | answered decision => exact ⟨hphase.holders, hphase.pending, hphase.log⟩
    | unavailable => cases hphase
  apply Course.absent
  · exact hrest
  · exact ⟨hover.holders, hover.pending, by simpa using hover.log⟩
  · exact rowIs_map none

end Request

/-! ### The steps of a response -/

section Response

variable {o : Observed} {decision : ApprovalResult}

theorem Course.take (hcourse : Course o) (hpend : o.pending ≠ none)
    (hchan : o.channel ≠ .receiverDropped) :
  Course { o with holders := decision ::ₘ o.holders, pending := none }
  := by
  obtain ⟨hhol, hempty, hlog, approval, stage, hopen, hreq⟩ := hcourse.of_pending hpend hchan
  apply Course.of_open hopen
  · exact hreq
  · intro row
    exact .taken (congrArg _ hhol) rfl hempty hlog

theorem Course.unpersist (hcourse : Course { o with holders := decision ::ₘ o.holders }) :
  Course { o with holders := decision ::ₘ o.holders, row := o.row.map fun _ => none }
  := by
  obtain ⟨hhol, hpend, hempty, hlog, approval, stage, hopen, hreq⟩ := hcourse.of_holder rfl
  apply Course.of_open hopen
  · exact hreq
  · intro row
    exact .taken (congrArg _ hhol) hpend hempty hlog

theorem Course.send (hcourse : Course { o with holders := decision ::ₘ o.holders }) :
  Course { o with channel := o.channel.send decision, answers := o.answers ++ [decision] }
  := by
  obtain ⟨hhol, hpend, hempty, hlog, approval, stage, hopen, hreq⟩ := hcourse.of_holder rfl
  apply Course.of_open hopen
  · exact hreq
  · intro row
    exact .sent hhol hpend (congrArg (AnswerChannel.send decision) hempty)
      (congrArg (· ++ [decision]) hlog)

end Response

/-! ### Runs -/

section Operations

variable {id : Uuid} {approval : PersistedApproval}

theorem observe_request (stage : RequestStage) :
  observe approval.id ⟨queue, .request approval stage ::ₘ calls⟩
    = { observe approval.id ⟨queue, calls⟩ with
        requests := (approval, stage) ::ₘ (observe approval.id ⟨queue, calls⟩).requests }
  := by
  simp [observe]

variable (decision : ApprovalResult)

theorem observe_respond_called :
  observe id ⟨queue, .respond id decision .called ::ₘ calls⟩ = observe id ⟨queue, calls⟩
  := by
  simp [observe]

theorem observe_respond {stage : RespondStage} (hstage : stage ≠ .called)
    (decision : ApprovalResult) :
  observe id ⟨queue, .respond id decision stage ::ₘ calls⟩
    = { observe id ⟨queue, calls⟩ with
        holders := decision ::ₘ (observe id ⟨queue, calls⟩).holders }
  := by
  simp [observe, hstage]

theorem observe_insertPending :
  observe approval.id ⟨queue.insertPending approval, calls⟩
    = { observe approval.id ⟨queue, calls⟩ with pending := some approval }
  := by
  simp [observe, insertPending]

theorem observe_removePending :
  observe id ⟨queue.removePending id, calls⟩
    = { observe id ⟨queue, calls⟩ with pending := none }
  := by
  simp [observe, removePending]

theorem observe_insertRow :
  observe approval.id ⟨queue.insertRow approval, calls⟩
    = { observe approval.id ⟨queue, calls⟩ with
        row := (observe approval.id ⟨queue, calls⟩).row.map fun _ => some approval }
  := by
  simp [observe, insertRow, comp_def]

theorem observe_removeRow :
  observe id ⟨queue.removeRow id, calls⟩
    = { observe id ⟨queue, calls⟩ with
        row := (observe id ⟨queue, calls⟩).row.map fun _ => none }
  := by
  simp [observe, removeRow, comp_def]

theorem observe_updateChannel (f : AnswerChannel → AnswerChannel) :
  observe id ⟨queue.updateChannel id f, calls⟩
    = { observe id ⟨queue, calls⟩ with channel := f (observe id ⟨queue, calls⟩).channel }
  := by
  simp [observe, updateChannel]

theorem observe_dropPending (queue : ApprovalQueue) (calls : Multiset ApprovalCall) (id : Uuid) :
  ∃ channel, observe id ⟨queue.dropPending id, calls⟩
    = { observe id ⟨queue, calls⟩ with pending := none, channel := channel }
  := by
  unfold dropPending
  split_ifs with hmem
  · rw [observe_updateChannel, observe_removePending]
    exact ⟨_, rfl⟩
  · have hnone : queue.pending.lookup id = none := AList.lookup_eq_none.mpr hmem
    use (observe id ⟨queue, calls⟩).channel
    simp [observe, hnone]

theorem observe_returned (outcome : RequestOutcome) :
  observe id ⟨queue.note (.returned id outcome), calls⟩
    = { observe id ⟨queue, calls⟩ with
        deliveries := (observe id ⟨queue, calls⟩).deliveries ++ outcome.decisions }
  := by
  rw [observe_note]
  cases outcome <;> simp [answersOf, deliveriesOf, RequestOutcome.decisions]

theorem observe_responded :
  observe id ⟨queue.note (.responded id decision (.ok ())), calls⟩
    = { observe id ⟨queue, calls⟩ with
        answers := (observe id ⟨queue, calls⟩).answers ++ [decision] }
  := by
  rw [observe_note]
  simp [answersOf, deliveriesOf]

theorem observe_refused (e : CoreError) :
  observe id ⟨queue.note (.responded id decision (.error e)), calls⟩ = observe id ⟨queue, calls⟩
  := observe_note_of_nil rfl rfl

end Operations

theorem course_of_move (hmove : ApprovalMove uuidText queue call queue' call')
    (hheeds : Heeds queue call queue' call')
    (hcourse : Course (observe call.id ⟨queue, call ::ₘ calls⟩)) :
  Course (observe call.id ⟨queue', rejoin calls call'⟩)
  := by
  cases hmove <;> simp only [ApprovalCall.id, rejoin_some, rejoin_none, observe_request,
    observe_respond_called, observe_respond (by decide : RespondStage.taken ≠ .called),
    observe_respond (by decide : RespondStage.sending ≠ .called), observe_insertPending,
    observe_removePending, observe_insertRow, observe_removeRow, observe_updateChannel,
    observe_returned, observe_responded, observe_refused] at hcourse ⊢
  case insert => apply hcourse.insert
  case persist => apply hcourse.persist
  case receive hsent => apply hcourse.receive hsent
  case lose hdropp => exact absurd hdropp hcourse.not_senderDropped
  case elapse => apply hcourse.elapse hheeds
  case cancel => cases hheeds
  case leave approval outcome =>
    obtain ⟨channel, hdrop⟩ := observe_dropPending queue calls approval.id
    rw [hdrop]
    apply hcourse.leave
  case finish => apply hcourse.finish
  case take hpend =>
    apply hcourse.take _ hheeds
    intro hnone
    cases hpend.symm.trans hnone
  case refuse => apply hcourse
  case unpersist => apply hcourse.unpersist
  case send => apply hcourse.send

theorem course_of_start (hstart : (system uuidText).Start queue calls call)
    (hcourse : Course (observe id ⟨queue, calls⟩)) :
  Course (observe id ⟨queue, call ::ₘ calls⟩)
  := by
  cases call with
  | respond id' decision stage =>
    obtain rfl : stage = .called := hstart
    simpa [observe] using hcourse
  | request approval stage =>
    obtain ⟨rfl, hunus⟩ := hstart
    by_cases hid : approval.id = id
    · subst hid
      rw [observe_request]
      apply Course.present (congrArg _ hunus.requests)
      refine ⟨⟨hunus.holders, hunus.pending, ?_⟩, hunus.row, hunus.channel⟩
      simp [hunus.answers, hunus.deliveries]
    · simpa [observe, hid] using hcourse

/-- In a run in which the steps heed the other side, every identifier keeps its course. -/
theorem course_of_reaches {pool pool' : Pool ApprovalQueue ApprovalCall}
    (hreach : ((system uuidText).restrict Heeds).Reaches pool pool')
    (hcourse : ∀ id, Course (observe id pool)) :
  ∀ id, Course (observe id pool')
  := by
  apply PoolSystem.invariant (P := fun pool => ∀ id, Course (observe id pool)) _ _ hreach hcourse
  · intro queue calls call hstart hcourse id
    change (system uuidText).Start queue calls call at hstart
    apply course_of_start hstart (hcourse id)
  · intro queue calls call queue' call' hmove hcourse id
    by_cases hid : id = call.id
    · subst hid
      apply course_of_move hmove.1 hmove.2 (hcourse _)
    · rw [observe_of_ne hmove.1 hid]
      apply hcourse id

end Steps

theorem course_empty {queue : ApprovalQueue} (hqueue : queue = new ∨ queue = withStore)
    (id : Uuid) :
  Course (observe id ⟨queue, 0⟩)
  := by
  obtain rfl | rfl := hqueue
  · exact .absent rfl ⟨rfl, rfl, rfl⟩ (by rintro found ⟨⟩)
  · exact .absent rfl ⟨rfl, rfl, rfl⟩ (by
      rintro found ⟨⟩
      rfl)

theorem Settled.observed {pool : Pool ApprovalQueue ApprovalCall} (hset : Settled pool)
    {id : Uuid} (hcourse : Course (observe id pool)) :
  (observe id pool).answers = (observe id pool).deliveries
    ∧ ∃ wanted, (observe id pool).pending = wanted ∧ RowIs (observe id pool).row wanted
      ∧ ∀ approval, wanted = some approval
        ↔ .request approval .waiting ∈ pool.running ∧ approval.id = id
  := by
  obtain ⟨hreq, hover, hrow⟩ | @⟨approval, stage, hreq, hphase⟩ := hcourse
  · refine ⟨by simpa using hover.log, none, hover.pending, hrow, ?_⟩
    intro approval
    rw [← mem_requestsOf]
    change requestsOf id pool.running = 0 at hreq
    simp [hreq]
  · change requestsOf id pool.running = {(approval, stage)} at hreq
    have hmem : (approval, stage) ∈ requestsOf id pool.running := by simp [hreq]
    obtain ⟨hmem, hid⟩ := mem_requestsOf.mp hmem
    obtain ⟨approval', heq, hempty⟩ := hset _ hmem
    cases heq
    rw [hid] at hempty
    cases hphase with
    | listed hhol hpend hrow hchan hlog =>
      refine ⟨hlog, some approval, hpend, hrow, ?_⟩
      intro approval'
      rw [← mem_requestsOf, hreq, mem_singleton, Prod.mk.injEq, some.injEq]
      constructor
      · rintro rfl
        exact ⟨rfl, rfl⟩
      · rintro ⟨rfl, -⟩
        rfl
    | @taken decision hhol =>
      change holdersOf id pool.running = {decision} at hhol
      have hhold : decision ∈ holdersOf id pool.running := by simp [hhol]
      obtain ⟨stage, hres⟩ := exists_of_mem_holdersOf hhold
      obtain ⟨_, heq, -⟩ := hset _ hres
      cases heq
    | sent _ _ hchan => cases hempty.symm.trans hchan

/-- In every run in which the steps heed the other side, decisions are delivered whenever calls are
settled. -/
theorem delivers_of_reaches {uuidText : Uuid → Text} {queue : ApprovalQueue}
    (hqueue : queue = new ∨ queue = withStore) {pool : Pool ApprovalQueue ApprovalCall}
    (hreaches : ((system uuidText).restrict Heeds).Reaches ⟨queue, 0⟩ pool)
    (hsettled : Settled pool) :
  Delivers pool
  := by
  have hcourse := course_of_reaches hreaches (course_empty hqueue)
  constructor
  case delivered =>
    intro id decision
    rw [← mem_answersOf, ← mem_deliveriesOf]
    have hlog : answersOf id pool.shared.log = deliveriesOf id pool.shared.log :=
      (hsettled.observed (hcourse id)).1
    rw [hlog]
  case pending =>
    intro id approval
    obtain ⟨-, wanted, hpend, -, hwant⟩ := hsettled.observed (hcourse id)
    rw [← hwant, ← hpend]
    rfl
  case stored =>
    intro rows hrows id approval
    obtain ⟨-, wanted, -, hrow, hwant⟩ := hsettled.observed (hcourse id)
    have hlook : rows.lookup id = wanted := hrow _ (Option.mem_map_of_mem _ hrows)
    rw [← hwant, hlook]

/-! ### Runs that heed, and runs that do not -/

def numeral (id : Uuid) : Text := Nat.toDigits 10 id

section Steps

variable {queue queue' : ApprovalQueue} {call : ApprovalCall} {calls : Multiset ApprovalCall}

theorem step_heeds {call' : ApprovalCall}
    (hmove : ApprovalMove numeral queue call queue' (some call'))
    (hheeds : Heeds queue call queue' (some call')) :
  ((system numeral).restrict Heeds).Step ⟨queue, call ::ₘ calls⟩ ⟨queue', call' ::ₘ calls⟩
  := goesOn ⟨hmove, hheeds⟩

theorem ends_heeds (hmove : ApprovalMove numeral queue call queue' none)
    (hheeds : Heeds queue call queue' none) :
  ((system numeral).restrict Heeds).Step ⟨queue, call ::ₘ calls⟩ ⟨queue', calls⟩
  := ends ⟨hmove, hheeds⟩

end Steps

def question : PersistedApproval where
  agentId := ⟨0⟩
  agentName := "coder"
  description := "proceed?"
  tool := none
  input := none
  id := 7
  timestamp := 0

def asked : ApprovalQueue := (withStore.insertPending question).insertRow question

theorem reaches_asked :
  ((system numeral).restrict Heeds).Reaches ⟨withStore, 0⟩ ⟨asked, {.request question .waiting}⟩
  := by
  have hstart : ((system numeral).restrict Heeds).Start withStore 0 (.request question .called) :=
    ⟨rfl, rfl, rfl, rfl, by rintro found ⟨⟩; rfl, rfl, rfl, rfl⟩
  apply head (start hstart)
  apply head (step_heeds .insert trivial)
  apply single (step_heeds .persist trivial)

def furtherQuestion : PersistedApproval := { question with id := 8 }

def askedTwice : ApprovalQueue := (asked.insertPending furtherQuestion).insertRow furtherQuestion

theorem reaches_askedTwice :
  ((system numeral).restrict Heeds).Reaches ⟨withStore, 0⟩
    ⟨askedTwice, {.request furtherQuestion .waiting, .request question .waiting}⟩
  := by
  have hstart : ((system numeral).restrict Heeds).Start asked {.request question .waiting}
      (.request furtherQuestion .called) :=
    ⟨rfl, rfl, rfl, rfl, by rintro found ⟨⟩; rfl, rfl, rfl, rfl⟩
  apply reaches_asked.trans
  apply head (start hstart)
  apply head (step_heeds .insert trivial)
  apply single (step_heeds .persist trivial)

/-- The first request is approved and returns, beside the second one. -/
def answeredOnce : ApprovalQueue :=
  ((((((askedTwice.removePending question.id).removeRow question.id).updateChannel question.id
    (.send .approved)).note (.responded question.id .approved (.ok ()))).removeRow
    question.id).note (.returned question.id (.answered .approved)))

theorem reaches_answeredOnce :
  ((system numeral).restrict Heeds).Reaches ⟨withStore, 0⟩
    ⟨answeredOnce, {.request furtherQuestion .waiting}⟩
  := by
  have hstart : ((system numeral).restrict Heeds).Start askedTwice
      {.request furtherQuestion .waiting, .request question .waiting}
      (.respond question.id .approved .called) := rfl
  have hopen : askedTwice.channels question.id ≠ .receiverDropped := by
    rintro ⟨⟩
  apply reaches_askedTwice.trans
  apply head (start hstart)
  apply head (step_heeds (.take rfl) hopen)
  apply head (step_heeds .unpersist trivial)
  apply head (ends_heeds .send trivial)
  rw [pair_comm]
  apply head (step_heeds (.receive rfl) trivial)
  apply single (ends_heeds .finish trivial)

theorem delivers_answeredOnce :
  Delivers ⟨answeredOnce, {.request furtherQuestion .waiting}⟩
  := by
  apply delivers_of_reaches (.inr rfl) reaches_answeredOnce
  intro call hcall
  rw [mem_singleton.mp hcall]
  exact ⟨furtherQuestion, rfl, rfl⟩

/-- The caller is dropped, and its entry stays. -/
theorem not_delivers_cancelled :
  ∃ pool, (system numeral).Reaches ⟨withStore, 0⟩ pool ∧ Settled pool ∧ ¬ Delivers pool
  := by
  use ⟨(asked.updateChannel question.id fun _ => .receiverDropped).note (.cancelled question.id), 0⟩
  refine ⟨?_, ?_, ?_⟩
  · have hmove : (system numeral).Move asked 0 (.request question .waiting) _ none :=
      ApprovalMove.cancel
    apply reaches_asked.of_restrict.tail (ends hmove)
  · rintro call ⟨⟩
  · intro hdel
    obtain ⟨hwaits, -⟩ := (hdel.pending question.id question).mp rfl
    cases hwaits

end ApprovalQueue
