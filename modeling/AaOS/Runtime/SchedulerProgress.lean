import Mathlib.Order.WellFounded
import AaOS.Runtime.SchedulerSafety

/-!
# The scheduler makes progress

Every step of the scheduler that is not a new call does some of the work that is left, so that a
run in which something always changes has a bounded number of steps.  It ends, when nobody calls
or is dropped, with a dispatcher that has served every request.
-/

open List SlotCaller Service

/-! ### Work -/

def SlotCaller.work : SlotCaller → Nat
  | locking _ => 9
  | pushed _ => 5
  | waiting _ => 2
  | holding => 1
  | _ => 0

def Dispatcher.work : Dispatcher → Nat
  | parked => 0
  | settling => 1
  | polling => 2
  | handing _ => 3
  | acquiring _ => 4

/-- The steps of the dispatcher and of callers that are not dropped. -/
def SchedulerInput.goesOn : SchedulerInput → Bool
  | call _ _ | cancel _ => false
  | _ => true

namespace ReasoningScheduler

variable {s : ReasoningScheduler} {maxConcurrent : Nat}

/-- A bound for the number of steps that are left when nobody calls. -/
def work (s : ReasoningScheduler) : Nat :=
  (s.callers.map SlotCaller.work).sum + 3 * s.queue.length + 2 * s.notification.toNat
    + s.dispatcher.work

/-- A change does some of the work, unless a caller asks for a slot. -/
theorem Change.work_lt {s' : ReasoningScheduler} (hchan : s.Change s') (hne : s' ≠ s) :
  s'.work + 10 * s.callers.length < s.work + 10 * s'.callers.length
  := by
  have hset {i : Nat} {caller : SlotCaller} (hcall : s.callers[i]? = some caller)
      (caller' : SlotCaller) := sum_map_set SlotCaller.work hcall caller'
  cases hchan with
  | stay => cases hne rfl
  | call deadline now =>
    simp [ReasoningScheduler.call, work, SlotCaller.work]
    omega
  | push hcall =>
    have hsum := hset hcall (.pushed false)
    simp [work, SlotCaller.work] at hsum ⊢
    omega
  | @wake i permit hcall hdisp =>
    have hsum := hset hcall (.waiting permit)
    simp [work, SlotCaller.work, Dispatcher.work, hdisp] at hsum ⊢
    omega
  | @store i permit hcall _ =>
    have hsum := hset hcall (.waiting permit)
    have hle := s.notification.toNat_le
    simp [work, SlotCaller.work] at hsum ⊢
    omega
  | receive hcall =>
    have hsum := hset hcall .holding
    simp [work, SlotCaller.work] at hsum ⊢
    omega
  | leave hcall | cancel hcall =>
    have hsum := hset hcall .cancelled
    simp [work, SlotCaller.work] at hsum ⊢
    omega
  | release hcall =>
    have hsum := hset hcall .released
    simp [work, SlotCaller.work] at hsum ⊢
    omega
  | pop hdisp hreq _ =>
    obtain ⟨hlt, -⟩ := List.getElem?_eq_some_iff.mp hreq
    simp [work, Dispatcher.work, hdisp, length_eraseIdx_of_lt hlt]
    omega
  | empty hdisp _ | acquire hdisp _ | discard hdisp =>
    simp [work, Dispatcher.work, hdisp]
  | consume hdisp hnot => simp [work, Dispatcher.work, hdisp, hnot]
  | park hdisp hnot => simp [work, Dispatcher.work, hdisp, hnot]
  | @offer request caller caller' hdisp hcall hoffer =>
    have hsum := hset hcall caller'
    obtain ⟨rfl, rfl⟩ | ⟨rfl, rfl⟩ := offer_eq_some hoffer
    all_goals
      simp [work, SlotCaller.work, Dispatcher.work, hdisp] at hsum ⊢
      omega

/-- A dispatcher that is parked has not been notified. -/
def Quiet (s : ReasoningScheduler) : Prop := s.dispatcher = .parked → s.notification = false

theorem quiet_step (s : ReasoningScheduler) (input : SchedulerInput) (hquiet : s.Quiet) :
  (s.step input).Quiet
  := by
  have hchan := s.change_step input
  generalize s.step input = s' at hchan
  cases hchan with
  | stay | call | push | receive | leave | cancel | release => apply hquiet
  | store _ hdisp =>
    intro hpar
    cases hdisp hpar
  | park _ hnot =>
    intro _
    apply hnot
  | wake | pop | empty | consume | acquire | offer | discard => rintro ⟨⟩

/-! ### Progress -/

theorem earlier_iff {a b : ReasoningRequest} :
  a.earlier b = true ↔ a.effectiveDeadline < b.effectiveDeadline
    ∨ a.effectiveDeadline = b.effectiveDeadline ∧ a.insertionId.toNat < b.insertionId.toNat
  := by
  rw [ReasoningRequest.earlier, ReasoningRequest.cmp, Ordering.isLT_iff_eq_lt, Ordering.then_eq_lt,
    Nat.compare_eq_lt, Nat.compare_eq_eq, ← UInt64.lt_iff_toNat_lt]
  exact or_congr_right (and_congr_right' compareOfLessAndEq_eq_lt)

theorem exists_first {queue : List ReasoningRequest} (hqueue : queue ≠ []) :
  ∃ (k : Nat) (request : ReasoningRequest), queue[k]? = some request
    ∧ (queue.all fun other => !other.earlier request) = true
  := by
  have hwf := InvImage.wf (fun r : ReasoningRequest => (r.effectiveDeadline, r.insertionId.toNat))
    (Prod.lex Nat.lt_wfRel Nat.lt_wfRel).wf
  obtain ⟨request, hmem, hmin⟩ := hwf.has_min { r | r ∈ queue } (exists_mem_of_ne_nil queue hqueue)
  obtain ⟨k, hk⟩ := mem_iff_getElem?.mp hmem
  refine ⟨k, request, hk, all_eq_true.mpr ?_⟩
  intro other hother
  have hnot := hmin other hother
  simp only [InvImage, WellFoundedRelation.rel, Prod.lex_def, ← earlier_iff] at hnot
  simpa using hnot

/-- Neither the dispatcher nor a caller that is not dropped can go on. -/
def Stuck (s : ReasoningScheduler) : Prop :=
  ∀ input : SchedulerInput, input.goesOn = true → s.step input = s

theorem Stuck.permits_eq_zero (hstuck : s.Stuck) {caller : SlotCaller} (hmem : caller ∈ s.callers) :
  (∀ permit, caller ≠ .pushed permit) ∧ caller.permits = 0
  := by
  obtain ⟨i, hcall⟩ := mem_iff_getElem?.mp hmem
  have hnot := congrArg callers (hstuck (.notify i) rfl)
  have hrec := congrArg callers (hstuck (.receive i) rfl)
  have hrel := congrArg callers (hstuck (.release i) rfl)
  simp only [step, notify, receive, release, hcall] at hnot hrec hrel
  rcases caller with _ | _ | (_ | _) | _ | _ | _ <;> grind [permits]

/-- The dispatcher waits, all permits are back, and all requests are served. -/
structure Drained (maxConcurrent : Nat) (s : ReasoningScheduler) : Prop where
  parked : s.dispatcher = .parked
  available : s.available = maxConcurrent
  served : ∀ request, .arrived request ∈ s.log → .served request ∈ s.log

theorem Stuck.drained (hstuck : s.Stuck) (hpos : 0 < maxConcurrent)
    (hsound : s.Sound maxConcurrent) (hquiet : s.Quiet) :
  s.Drained maxConcurrent
  := by
  have hheld : (s.callers.map permits).sum = 0 := by
    rw [List.sum_eq_zero_iff_forall_eq_nat]
    simpa using fun caller hmem => (hstuck.permits_eq_zero hmem).2
  have hcon := hsound.conserved
  have hset := congrArg dispatcher (hstuck .settle rfl)
  have hacq := congrArg dispatcher (hstuck .acquire rfl)
  have hhand := congrArg dispatcher (hstuck .hand rfl)
  simp only [step, settle, acquire, hand] at hset hacq hhand
  cases hdisp : s.dispatcher with
  | polling =>
    cases hqueue : s.queue with
    | nil =>
      have hpoll := congrArg dispatcher (hstuck (.poll 0) rfl)
      simp [step, poll, hdisp, hqueue] at hpoll
    | cons head tail =>
      obtain ⟨k, request, hreq, hfirst⟩ := exists_first (cons_ne_nil head tail)
      have hpoll := congrArg dispatcher (hstuck (.poll k) rfl)
      simp only [step, poll, hdisp, hqueue, hreq, hfirst] at hpoll
      cases hpoll
  | parked =>
    have hempty : s.queue = [] := by
      by_contra hqueue
      obtain hnot | ⟨permit, hmem⟩ := hsound.awake (by rw [hdisp]; rfl) hqueue
      · cases hnot.symm.trans (hquiet hdisp)
      · apply (hstuck.permits_eq_zero hmem).1 permit rfl
    constructor
    case parked => apply hdisp
    case available => simpa [held, hdisp, hheld, Dispatcher.permits] using hcon
    case served =>
      intro request harr
      have hplace := hsound.service.placed.mem_iff.mp (mem_arrivals.mpr harr)
      simpa [service, hdisp, hempty, Dispatcher.request, mem_services] using hplace
  | acquiring request => grind [held, Dispatcher.permits]
  | settling | handing request => grind

/-- A run of steps that change something has at most ten steps for each call, and when only new
calls or cancellations could go on, the scheduler has served all requests. -/
theorem drains_after (hpositive : 0 < maxConcurrent) {inputs : List SchedulerInput}
    (hmoves : Machine.EveryStep step (fun s input => s.step input ≠ s) (new maxConcurrent) inputs) :
  inputs.length ≤ 10 * (Machine.after step (new maxConcurrent) inputs).callers.length + 2
    ∧ ((Machine.after step (new maxConcurrent) inputs).Stuck →
      (Machine.after step (new maxConcurrent) inputs).Drained maxConcurrent)
  := by
  constructor
  · have hlen := hmoves.length_add_le (f := work) (g := fun s => 10 * s.callers.length)
      fun s input => (s.change_step input).work_lt
    have hnew : (new maxConcurrent).work = 2 := rfl
    omega
  · intro hstuck
    apply hstuck.drained hpositive
    · apply Machine.invariant_after sound_step (sound_new maxConcurrent)
    · apply Machine.invariant_after quiet_step
      rintro ⟨⟩

/-- A caller asks for the only slot, gets it and gives it back. -/
theorem drains_called :
  (Machine.after step (new 1) [.call none 0, .push 0, .notify 0, .poll 0, .acquire, .hand,
    .receive 0, .release 0, .poll 0, .settle, .poll 0, .settle]).Drained 1
  := by
  apply (drains_after Nat.one_pos _).2
  · intro input hgoes
    cases input with
    | call | cancel => cases hgoes
    | push i | notify i | receive i | release i => cases i <;> rfl
    | _ => rfl
  · simp [Machine.everyStep_cons, Machine.everyStep_nil, step, new, call, push, notify, receive,
      release, poll, settle, acquire, hand, Dispatcher.isParked, offer, ReasoningRequest.earlier,
      ReasoningRequest.cmp]

end ReasoningScheduler
