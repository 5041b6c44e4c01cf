import Mathlib.Algebra.Order.Ring.Nat
import AaOS.Lib.Service

/-!
# The scheduler of reasoning slots

`ReasoningScheduler` of `aaos-runtime/src/scheduler/mod.rs` awards slots for inference.  A caller
pushes a request to a queue, notifies the dispatcher, and waits for a permit; the dispatcher hands
a permit of a semaphore to the request with the earliest key.  A caller can be dropped where it
waits, and a permit that is dropped goes back to the semaphore.
-/

/-! ### Requests -/

/-- The time until the deadline of a request without one, in nanoseconds. -/
def syntheticDeadlineDefault : Nat := 60 * 10 ^ 9

/-- A request: its key, and the caller at the other end of its channel. -/
structure ReasoningRequest where
  effectiveDeadline : Nat
  insertionId : UInt64
  caller : Nat

def ReasoningRequest.cmp (a b : ReasoningRequest) : Ordering :=
  (compare a.effectiveDeadline b.effectiveDeadline).then (compare a.insertionId b.insertionId)

/-- The key of a request is earlier. -/
def ReasoningRequest.earlier (a b : ReasoningRequest) : Bool := (a.cmp b).isLT

/-! ### Callers and the dispatcher -/

/-- Where a caller stands. -/
inductive SlotCaller where
  | locking (request : ReasoningRequest)
  | pushed (permit : Bool)
  | waiting (permit : Bool)
  | holding
  | released
  | cancelled

namespace SlotCaller

def permits : SlotCaller → Nat
  | pushed permit | waiting permit => permit.toNat
  | holding => 1
  | _ => 0

/-- Put a permit into the channel of a caller that still has its end of it. -/
def offer : SlotCaller → Option SlotCaller
  | pushed false => some (pushed true)
  | waiting false => some (waiting true)
  | _ => none

def isLocking : SlotCaller → Bool
  | locking _ => true
  | _ => false

end SlotCaller

/-- Where the dispatcher stands. -/
inductive Dispatcher where
  | polling
  | settling
  | parked
  | acquiring (request : ReasoningRequest)
  | handing (request : ReasoningRequest)

namespace Dispatcher

def permits : Dispatcher → Nat
  | handing _ => 1
  | _ => 0

/-- The request that the dispatcher has popped. -/
def request : Dispatcher → Option ReasoningRequest
  | acquiring request | handing request => some request
  | _ => none

def isParked : Dispatcher → Bool
  | parked => true
  | _ => false

def rests : Dispatcher → Bool
  | settling | parked => true
  | _ => false

theorem eq_parked {dispatcher : Dispatcher} (hpar : dispatcher.isParked = true) :
  dispatcher = .parked
  := by
  cases dispatcher with
  | parked => rfl
  | _ => cases hpar

end Dispatcher

/-- The scheduler with its callers, and the requests that were pushed and served. -/
structure ReasoningScheduler where
  available : Nat
  queue : List ReasoningRequest
  notification : Bool
  dispatcher : Dispatcher
  nextInsertionId : UInt64
  callers : List SlotCaller
  log : List (Service.Event ReasoningRequest)

/-- A caller asks for a slot, does its next step, is dropped, or releases its permit; or the
dispatcher does its next step. -/
inductive SchedulerInput where
  | call (deadline : Option Nat) (now : Nat)
  | push (i : Nat)
  | notify (i : Nat)
  | receive (i : Nat)
  | cancel (i : Nat)
  | release (i : Nat)
  | poll (k : Nat)
  | settle
  | acquire
  | hand

namespace ReasoningScheduler

/-- A scheduler with as many slots as given. -/
def new (maxConcurrent : Nat) : ReasoningScheduler where
  available := maxConcurrent
  queue := []
  notification := false
  dispatcher := .polling
  nextInsertionId := 0
  callers := []
  log := []

variable (s : ReasoningScheduler)

/-- A caller makes a request, and waits for the lock of the queue. -/
def call (deadline : Option Nat) (now : Nat) : ReasoningScheduler :=
  let request : ReasoningRequest :=
    ⟨deadline.getD (now + syntheticDeadlineDefault), s.nextInsertionId, s.callers.length⟩
  { s with
    nextInsertionId := s.nextInsertionId + 1
    callers := s.callers ++ [.locking request] }

/-- A caller that has the lock pushes its request. -/
def push (i : Nat) : ReasoningScheduler :=
  match s.callers[i]? with
  | some (.locking request) =>
    { s with
      queue := s.queue ++ [request]
      callers := s.callers.set i (.pushed false)
      log := s.log ++ [.arrived request] }
  | _ => s

/-- A caller wakes the dispatcher, or leaves a notification when it is not parked. -/
def notify (i : Nat) : ReasoningScheduler :=
  match s.callers[i]? with
  | some (.pushed permit) =>
    if s.dispatcher.isParked then
      { s with callers := s.callers.set i (.waiting permit), dispatcher := .polling }
    else { s with callers := s.callers.set i (.waiting permit), notification := true }
  | _ => s

/-- A caller takes the slot that it was sent. -/
def receive (i : Nat) : ReasoningScheduler :=
  match s.callers[i]? with
  | some (.waiting true) => { s with callers := s.callers.set i .holding }
  | _ => s

def cancel (i : Nat) : ReasoningScheduler :=
  match s.callers[i]? with
  | some (.locking _) => { s with callers := s.callers.set i .cancelled }
  | some (.waiting permit) =>
    { s with
      callers := s.callers.set i .cancelled
      available := s.available + permit.toNat }
  | _ => s

/-- A caller gives its slot back. -/
def release (i : Nat) : ReasoningScheduler :=
  match s.callers[i]? with
  | some .holding =>
    { s with callers := s.callers.set i .released, available := s.available + 1 }
  | _ => s

/-- The dispatcher pops a request before which there is no other in the queue, or finds the queue
empty. -/
def poll (k : Nat) : ReasoningScheduler :=
  match s.dispatcher, s.queue with
  | .polling, [] => { s with dispatcher := .settling }
  | .polling, _ :: _ =>
    match s.queue[k]? with
    | some request =>
      if s.queue.all fun other => !other.earlier request then
        { s with queue := s.queue.eraseIdx k, dispatcher := .acquiring request }
      else s
    | none => s
  | _, _ => s

/-- The dispatcher takes a notification that is stored, or is parked. -/
def settle : ReasoningScheduler :=
  match s.dispatcher with
  | .settling =>
    if s.notification then { s with notification := false, dispatcher := .polling }
    else { s with dispatcher := .parked }
  | _ => s

/-- The dispatcher acquires a permit, when there is one. -/
def acquire : ReasoningScheduler :=
  match s.dispatcher with
  | .acquiring request =>
    if s.available = 0 then s
    else { s with available := s.available - 1, dispatcher := .handing request }
  | _ => s

/-- The dispatcher hands a permit over; it goes back when the caller was dropped. -/
def hand : ReasoningScheduler :=
  match s.dispatcher with
  | .handing request =>
    match s.callers[request.caller]?.bind SlotCaller.offer with
    | some caller =>
      { s with
        callers := s.callers.set request.caller caller
        dispatcher := .polling
        log := s.log ++ [.served request] }
    | none =>
      { s with
        available := s.available + 1
        dispatcher := .polling
        log := s.log ++ [.served request] }
  | _ => s

/-- One step of the scheduler. -/
def step : SchedulerInput → ReasoningScheduler
  | .call deadline now => s.call deadline now
  | .push i => s.push i
  | .notify i => s.notify i
  | .receive i => s.receive i
  | .cancel i => s.cancel i
  | .release i => s.release i
  | .poll k => s.poll k
  | .settle => s.settle
  | .acquire => s.acquire
  | .hand => s.hand

/-! ### What a step can do -/

/-- The changes of a step, with the conditions under which they are made. -/
inductive Change : ReasoningScheduler → Prop
  | stay : Change s
  | call (deadline : Option Nat) (now : Nat) : Change (s.call deadline now)
  | push {i request} (hcaller : s.callers[i]? = some (.locking request)) :
      Change
        { s with
          queue := s.queue ++ [request]
          callers := s.callers.set i (.pushed false)
          log := s.log ++ [.arrived request] }
  | wake {i permit} (hcaller : s.callers[i]? = some (.pushed permit))
      (hdispatcher : s.dispatcher = .parked) :
      Change { s with callers := s.callers.set i (.waiting permit), dispatcher := .polling }
  | store {i permit} (hcaller : s.callers[i]? = some (.pushed permit))
      (hdispatcher : s.dispatcher ≠ .parked) :
      Change { s with callers := s.callers.set i (.waiting permit), notification := true }
  | receive {i} (hcaller : s.callers[i]? = some (.waiting true)) :
      Change { s with callers := s.callers.set i .holding }
  | leave {i request} (hcaller : s.callers[i]? = some (.locking request)) :
      Change { s with callers := s.callers.set i .cancelled }
  | cancel {i permit} (hcaller : s.callers[i]? = some (.waiting permit)) :
      Change
        { s with
          callers := s.callers.set i .cancelled
          available := s.available + permit.toNat }
  | release {i} (hcaller : s.callers[i]? = some .holding) :
      Change { s with callers := s.callers.set i .released, available := s.available + 1 }
  | pop {k request} (hdispatcher : s.dispatcher = .polling)
      (hrequest : s.queue[k]? = some request)
      (hfirst : ∀ other ∈ s.queue, other.earlier request = false) :
      Change { s with queue := s.queue.eraseIdx k, dispatcher := .acquiring request }
  | empty (hdispatcher : s.dispatcher = .polling) (hqueue : s.queue = []) :
      Change { s with dispatcher := .settling }
  | consume (hdispatcher : s.dispatcher = .settling) (hnotification : s.notification = true) :
      Change { s with notification := false, dispatcher := .polling }
  | park (hdispatcher : s.dispatcher = .settling) (hnotification : s.notification = false) :
      Change { s with dispatcher := .parked }
  | acquire {request} (hdispatcher : s.dispatcher = .acquiring request)
      (havailable : s.available ≠ 0) :
      Change { s with available := s.available - 1, dispatcher := .handing request }
  | offer {request : ReasoningRequest} {caller : SlotCaller} {caller'}
      (hdispatcher : s.dispatcher = .handing request)
      (hcaller : s.callers[request.caller]? = some caller) (hoffer : caller.offer = some caller') :
      Change
        { s with
          callers := s.callers.set request.caller caller'
          dispatcher := .polling
          log := s.log ++ [.served request] }
  | discard {request} (hdispatcher : s.dispatcher = .handing request) :
      Change
        { s with
          available := s.available + 1
          dispatcher := .polling
          log := s.log ++ [.served request] }

theorem change_push (i : Nat) : s.Change (s.push i) := by
  unfold push
  split
  · rename_i request hcall
    apply Change.push hcall
  · apply Change.stay

theorem change_notify (i : Nat) : s.Change (s.notify i) := by
  unfold notify
  split
  · rename_i permit hcall
    split_ifs with hpar
    · apply Change.wake hcall
      apply Dispatcher.eq_parked hpar
    · apply Change.store hcall
      intro hdisp
      apply hpar
      rw [hdisp]
      rfl
  · apply Change.stay

theorem change_receive (i : Nat) : s.Change (s.receive i) := by
  unfold receive
  split
  · rename_i hcall
    apply Change.receive hcall
  · apply Change.stay

theorem change_cancel (i : Nat) : s.Change (s.cancel i) := by
  unfold cancel
  split
  · rename_i request hcall
    apply Change.leave hcall
  · rename_i permit hcall
    apply Change.cancel hcall
  · apply Change.stay

theorem change_release (i : Nat) : s.Change (s.release i) := by
  unfold release
  split
  · rename_i hcall
    apply Change.release hcall
  · apply Change.stay

theorem change_poll (k : Nat) : s.Change (s.poll k) := by
  unfold poll
  split
  · rename_i hdisp hqueue
    apply Change.empty hdisp hqueue
  · rename_i hdisp _
    split
    · rename_i request hreq
      split_ifs with hall
      · apply Change.pop hdisp hreq
        simpa using hall
      · apply Change.stay
    · apply Change.stay
  · apply Change.stay

theorem change_settle : s.Change s.settle := by
  unfold settle
  split
  · rename_i hdisp
    split_ifs with hnot
    · apply Change.consume hdisp hnot
    · apply Change.park hdisp
      simpa using hnot
  · apply Change.stay

theorem change_acquire : s.Change s.acquire := by
  unfold acquire
  split
  · rename_i request hdisp
    split_ifs with havail
    · apply Change.stay
    · apply Change.acquire hdisp havail
  · apply Change.stay

theorem change_hand : s.Change s.hand := by
  unfold hand
  split
  · rename_i request hdisp
    split
    · rename_i caller' hoffer
      obtain ⟨caller, hcall, hoffer⟩ := Option.bind_eq_some_iff.mp hoffer
      apply Change.offer hdisp hcall hoffer
    · apply Change.discard hdisp
  · apply Change.stay

theorem change_step (input : SchedulerInput) : s.Change (s.step input) := by
  cases input with
  | call deadline now => apply Change.call
  | push i => apply change_push
  | notify i => apply change_notify
  | receive i => apply change_receive
  | cancel i => apply change_cancel
  | release i => apply change_release
  | poll k => apply change_poll
  | settle => apply change_settle
  | acquire => apply change_acquire
  | hand => apply change_hand

end ReasoningScheduler
