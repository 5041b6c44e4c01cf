import AaOS.Lib.Machine
import AaOS.Runtime.Scheduler

/-!
# The scheduler is safe

In every interleaving, the permits that are held and those of the semaphore add up to the number of
slots, the queue is a service by priority, in which a request is overtaken once at most, and a
dispatcher that is parked is woken by every push.
-/

open List SlotCaller Service

namespace ReasoningScheduler

variable (s : ReasoningScheduler)

/-! ### Safety -/

def held : Nat := s.dispatcher.permits + (s.callers.map SlotCaller.permits).sum

def service : Service.Queue ReasoningRequest where
  waiting := s.queue
  hand := s.dispatcher.request
  log := s.log

/-- No more permits are held than there are slots, and the others are in the pool; every caller is
served once at most, and overtaken by at most one later request; and the dispatcher is not parked
while there are requests, unless a notification is stored or will be given. -/
structure Safe (maxConcurrent : Nat) : Prop where
  bounded : s.held ≤ maxConcurrent
  conserved : s.available + s.held = maxConcurrent
  handedBack : ∀ request, s.dispatcher = .handing request →
    s.callers[request.caller]? = some .cancelled → s.hand.available = s.available + 1
  droppedBack : ∀ i, s.callers[i]? = some (.waiting true) →
    (s.cancel i).available = s.available + 1
  once : ((Service.services s.log).map ReasoningRequest.caller).Nodup
  overtaken : ∀ before request during after,
    s.log = before ++ .arrived request :: (during ++ after) → .served request ∉ during →
      (Service.services during).countP request.earlier ≤ 1
  awake : s.dispatcher = .parked → s.queue ≠ [] →
    s.notification = true ∨ ∃ permit, SlotCaller.pushed permit ∈ s.callers

variable {s} {s' : ReasoningScheduler}

/-! ### Permits -/

variable {i : Nat} {caller : SlotCaller}

theorem sum_map_set (f : SlotCaller → Nat) {callers : List SlotCaller}
    (hcall : callers[i]? = some caller) (caller' : SlotCaller) :
  ((callers.set i caller').map f).sum + f caller = (callers.map f).sum + f caller'
  := by
  obtain ⟨hlt, rfl⟩ := List.getElem?_eq_some_iff.mp hcall
  have hset := ((set_perm_cons_eraseIdx hlt caller').map f).sum_nat
  have hold := ((getElem_cons_eraseIdx_perm hlt).map f).sum_nat
  simp only [map_cons, sum_cons] at hset hold
  omega

variable {caller' : SlotCaller}

theorem offer_eq_some (hoffer : caller.offer = some caller') :
  caller = .pushed false ∧ caller' = .pushed true
    ∨ caller = .waiting false ∧ caller' = .waiting true
  := by
  unfold offer at hoffer
  split at hoffer
  · exact .inl ⟨rfl, (Option.some.inj hoffer).symm⟩
  · exact .inr ⟨rfl, (Option.some.inj hoffer).symm⟩
  · cases hoffer

theorem Change.available_add_held (hchan : s.Change s') :
  s'.available + s'.held = s.available + s.held
  := by
  cases hchan with
  | stay => rfl
  | call deadline now => simp [held, ReasoningScheduler.call, permits]
  | push hcall =>
    have hsum := sum_map_set permits hcall (.pushed false)
    simp only [held, permits, Bool.toNat_false] at hsum ⊢
    omega
  | @wake _ permit hcall hpar =>
    have hsum := sum_map_set permits hcall (.waiting permit)
    simp only [held, hpar, permits, Dispatcher.permits] at hsum ⊢
    omega
  | @store _ permit hcall =>
    have hsum := sum_map_set permits hcall (.waiting permit)
    simp only [held, permits] at hsum ⊢
    omega
  | receive hcall =>
    have hsum := sum_map_set permits hcall .holding
    simp only [held, permits, Bool.toNat_true] at hsum ⊢
    omega
  | leave hcall | cancel hcall =>
    have hsum := sum_map_set permits hcall .cancelled
    simp only [held, permits] at hsum ⊢
    omega
  | release hcall =>
    have hsum := sum_map_set permits hcall .released
    simp only [held, permits] at hsum ⊢
    omega
  | pop hdisp _ _ | empty hdisp _ | consume hdisp _
  | park hdisp _ => simp only [held, hdisp, Dispatcher.permits]
  | acquire hdisp havail | discard hdisp =>
    simp only [held, hdisp, Dispatcher.permits]
    omega
  | @offer _ _ caller' hdisp hcall hoffer =>
    have hsum := sum_map_set permits hcall caller'
    simp only [held, hdisp, Dispatcher.permits]
    obtain ⟨rfl, rfl⟩ | ⟨rfl, rfl⟩ := offer_eq_some hoffer
    all_goals
      simp only [permits, Bool.toNat_true, Bool.toNat_false] at hsum
      omega

/-! ### Notifications -/

/-- While the dispatcher is parked or about to be, requests are announced, or a caller has pushed
one and is to notify the dispatcher. -/
def Awake (s : ReasoningScheduler) : Prop :=
  s.dispatcher.rests = true → s.queue ≠ [] →
    s.notification = true ∨ ∃ permit, SlotCaller.pushed permit ∈ s.callers

/-- A caller that has pushed its request is still there after another caller has changed. -/
theorem pushed_mem_set {callers : List SlotCaller} (hcall : callers[i]? = some caller)
    (hpush : ∀ permit, caller ≠ .pushed permit) :
  (∃ permit, pushed permit ∈ callers) →
    ∃ permit, pushed permit ∈ callers.set i caller'
  := by
  rintro ⟨permit, hmem⟩
  obtain ⟨j, hj⟩ := mem_iff_getElem?.mp hmem
  use permit
  apply mem_iff_getElem?.mpr
  use j
  rw [getElem?_set_ne, hj]
  rintro rfl
  cases hcall.symm.trans hj
  apply hpush permit rfl

theorem Awake.set (hawake : s.Awake) {available : Nat} (hcall : s.callers[i]? = some caller)
    (hpush : ∀ permit, caller ≠ .pushed permit) :
  Awake { s with callers := s.callers.set i caller', available := available }
  := by
  intro hdisp hqueue
  apply (hawake hdisp hqueue).imp_right
  apply pushed_mem_set hcall hpush

/-- Requests that are pushed are announced. -/
theorem Change.awake (hchan : s.Change s') (hawake : s.Awake) : s'.Awake := by
  cases hchan with
  | stay => apply hawake
  | call deadline now =>
    intro hdisp hqueue
    apply (hawake hdisp hqueue).imp_right
    rintro ⟨permit, hmem⟩
    use permit
    apply mem_append_left _ hmem
  | @push i _ hcall =>
    intro _ _
    right
    use false
    apply mem_set
    apply (List.getElem?_eq_some_iff.mp hcall).1
  | wake hcall _ | pop _ _ _ | consume _ _ | acquire _ _ | offer _ _ _ | discard _ => rintro ⟨⟩
  | store hcall _ =>
    intro _ _
    left
    rfl
  | receive hcall | leave hcall | cancel hcall | release hcall =>
    apply hawake.set hcall
    rintro permit ⟨⟩
  | empty _ hqueue =>
    intro _ hne
    cases hne hqueue
  | park hdisp _ =>
    intro _ hqueue
    apply hawake _ hqueue
    rw [hdisp]
    rfl

/-! ### Service -/

/-- A caller that waits for the lock has its own request, and a pushed request is that of a caller
with no other. -/
structure Known (callers : List SlotCaller) (log : List (Service.Event ReasoningRequest)) :
    Prop where
  own : ∀ (i : Nat) (request : ReasoningRequest), callers[i]? = some (.locking request) →
    request.caller = i
  past : ∀ request, .arrived request ∈ log →
    ∃ caller, callers[request.caller]? = some caller ∧ caller.isLocking = false
  distinct : ((Service.arrivals log).map ReasoningRequest.caller).Nodup

section Known

variable {callers : List SlotCaller} {log : List (Service.Event ReasoningRequest)}

variable {request : ReasoningRequest}

variable (hknown : Known callers log)

include hknown

theorem Known.call (hreq : request.caller = callers.length) :
  Known (callers ++ [.locking request]) log
  := by
  constructor
  case own =>
    intro i request' hcall
    obtain hlt | hle := Nat.lt_or_ge i callers.length
    · rw [getElem?_append_left hlt] at hcall
      apply hknown.own i request' hcall
    · obtain ⟨hlt, -⟩ := List.getElem?_eq_some_iff.mp hcall
      rw [length_append, length_singleton] at hlt
      obtain rfl : i = callers.length := by omega
      rw [getElem?_concat_length] at hcall
      cases hcall
      apply hreq
  case past =>
    intro request' hmem
    obtain ⟨caller, hcall, hpast⟩ := hknown.past request' hmem
    use caller
    rw [getElem?_append_left (List.getElem?_eq_some_iff.mp hcall).1]
    exact ⟨hcall, hpast⟩
  case distinct => apply hknown.distinct

variable {i : Nat}

theorem Known.set {caller caller' : SlotCaller} (hcall : callers[i]? = some caller)
    (hpast : caller'.isLocking = false) :
  Known (callers.set i caller') log
  := by
  have hlt := (List.getElem?_eq_some_iff.mp hcall).1
  constructor
  case own =>
    intro j request hj
    by_cases hij : i = j
    · subst hij
      rw [getElem?_set_self hlt] at hj
      cases hj
      cases hpast
    · rw [getElem?_set_ne hij] at hj
      apply hknown.own j request hj
  case past =>
    intro request hmem
    by_cases hij : i = request.caller
    · subst hij
      use caller', getElem?_set_self hlt
    · rw [getElem?_set_ne hij]
      apply hknown.past request hmem
  case distinct => apply hknown.distinct

theorem Known.not_arrived {request' : ReasoningRequest}
    (hcall : callers[i]? = some (.locking request)) (harr : .arrived request' ∈ log) :
  request'.caller ≠ i
  := by
  rintro rfl
  obtain ⟨caller, hcall', hpast⟩ := hknown.past request' harr
  cases hcall.symm.trans hcall'
  cases hpast

theorem Known.push (hcall : callers[i]? = some (.locking request)) :
  Known (callers.set i (.pushed false)) (log ++ [.arrived request])
  := by
  have hown := hknown.own i request hcall
  have hset : Known (callers.set i (.pushed false)) log := hknown.set hcall rfl
  constructor
  case own => apply hset.own
  case past =>
    intro request' hmem
    obtain hmem | hmem := mem_append.mp hmem
    · apply hset.past request' hmem
    · cases mem_singleton.mp hmem
      use .pushed false
      rw [hown]
      exact ⟨getElem?_set_self (List.getElem?_eq_some_iff.mp hcall).1, rfl⟩
  case distinct =>
    rw [arrivals_append, map_append]
    apply nodup_append.mpr
    refine ⟨hknown.distinct, nodup_singleton _, ?_⟩
    intro c hc c' hc' heq
    obtain ⟨request', hreq', rfl⟩ := mem_map.mp hc
    apply hknown.not_arrived hcall (mem_arrivals.mp hreq')
    rw [heq, mem_singleton.mp hc', hown]

theorem Known.serve (request : ReasoningRequest) :
  Known callers (log ++ [.served request])
  := by
  constructor
  case own => apply hknown.own
  case past =>
    intro request' hmem
    obtain hmem | hmem := mem_append.mp hmem
    · apply hknown.past request' hmem
    · cases mem_singleton.mp hmem
  case distinct =>
    rw [arrivals_append, arrivals_served, arrivals_nil, append_nil]
    apply hknown.distinct

end Known

theorem Change.known (hchan : s.Change s') (hknown : Known s.callers s.log) :
  Known s'.callers s'.log
  := by
  cases hchan with
  | stay | pop _ _ _ | empty _ _ | consume _ _ | park _ _ | acquire _ _ => apply hknown
  | call deadline now => apply hknown.call rfl
  | push hcall => apply hknown.push hcall
  | wake hcall _ | store hcall _ | receive hcall | leave hcall | cancel hcall
  | release hcall => apply hknown.set hcall rfl
  | offer _ hcall hoffer =>
    apply Known.serve
    obtain ⟨-, rfl⟩ | ⟨-, rfl⟩ := offer_eq_some hoffer <;> apply hknown.set hcall rfl
  | discard _ => apply hknown.serve

theorem service_eq {dispatcher : Dispatcher} (hdisp : s.dispatcher = dispatcher) :
  s.service = ⟨s.queue, dispatcher.request, s.log⟩
  := by
  rw [service, hdisp]

theorem Change.serves (hchan : s.Change s') (hknown : Known s.callers s.log) :
  s'.service = s.service ∨ Service.Step ReasoningRequest.earlier s.service s'.service
  := by
  cases hchan with
  | stay | call deadline now | store _ _ | receive _ | leave _ | cancel _ | release _ => left; rfl
  | push hcall =>
    right
    apply Service.Step.arrive
    intro hmem
    apply hknown.not_arrived hcall hmem (hknown.own _ _ hcall)
  | wake _ hdisp | empty hdisp _ | consume hdisp _ | park hdisp _
  | acquire hdisp _ =>
    left
    apply (service_eq hdisp).symm
  | pop hdisp hreq hfirst =>
    right
    rw [service_eq hdisp]
    apply Service.Step.take rfl hreq hfirst
  | offer hdisp _ _ | discard hdisp =>
    right
    rw [service_eq hdisp]
    apply Service.Step.serve rfl

/-! ### Runs -/

/-- What holds of a scheduler throughout. -/
structure Sound (maxConcurrent : Nat) (s : ReasoningScheduler) : Prop where
  conserved : s.available + s.held = maxConcurrent
  awake : s.Awake
  known : Known s.callers s.log
  service : Service.Sound ReasoningRequest.earlier s.service

theorem sound_new (maxConcurrent : Nat) : (new maxConcurrent).Sound maxConcurrent := by
  constructor
  case conserved => rfl
  case awake => rintro ⟨⟩
  case known =>
    constructor
    case own => rintro i request ⟨⟩
    case past => rintro request ⟨⟩
    case distinct => apply nodup_nil
  case service => apply sound_empty

theorem sound_step {maxConcurrent : Nat} (s : ReasoningScheduler) (input : SchedulerInput)
    (hsound : s.Sound maxConcurrent) :
  (s.step input).Sound maxConcurrent
  := by
  have hchan := s.change_step input
  constructor
  case conserved =>
    rw [hchan.available_add_held]
    apply hsound.conserved
  case awake => apply hchan.awake hsound.awake
  case known => apply hchan.known hsound.known
  case service =>
    obtain heq | hstep := hchan.serves hsound.known
    · rw [heq]
      apply hsound.service
    · apply hsound.service.step hstep

theorem Sound.safe {maxConcurrent : Nat} (hsound : s.Sound maxConcurrent) :
  s.Safe maxConcurrent
  := by
  constructor
  case bounded =>
    rw [← hsound.conserved]
    apply Nat.le_add_left
  case conserved => apply hsound.conserved
  case handedBack =>
    intro request hdisp hcall
    simp [hand, hdisp, hcall, offer]
  case droppedBack =>
    intro i hcall
    simp [cancel, hcall]
  case once =>
    have hplace := hsound.service.placed.map ReasoningRequest.caller
    have hnodup := hplace.nodup_iff.mp hsound.known.distinct
    rw [map_append] at hnodup
    apply hnodup.of_append_left
  case overtaken => apply hsound.service.fair.overtaken
  case awake =>
    intro hdisp hqueue
    apply hsound.awake _ hqueue
    rw [hdisp]
    rfl

/-- In every interleaving of callers and the dispatcher, the scheduler is safe. -/
theorem safe_after (maxConcurrent : Nat) (inputs : List SchedulerInput) :
  (Machine.after step (new maxConcurrent) inputs).Safe maxConcurrent
  := by
  have hsound := Machine.invariant_after sound_step (sound_new maxConcurrent) inputs
  apply hsound.safe

end ReasoningScheduler
