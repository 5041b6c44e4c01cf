import AaOS.Lib.Pool
import AaOS.Registry.Concurrent
import AaOS.Tools.Invocation

/-!
# Denied calls of tools

The first check of `ToolInvocation::invoke` looks for the first handle that permits the tool and
then charges it, which checks it again; other calls, revocations and insertions may come in
between.  A call should be denied only if at some moment none of its handles permits the
tool.  This holds as long as nobody takes the permission of a handle that a call has found while
another handle of the call permits the tool.
-/

open List CapabilityRegistry

/-! ### The first check in steps -/

/-- The registry at a time. -/
structure RegistryMoment where
  registry : CapabilityRegistry
  now : DateTime

/-- What the first check of a call is about. -/
structure ToolRequest where
  agentId : AgentId
  toolName : Text
  tokenHandles : List CapabilityHandle

inductive InvokeStage where
  | scanning (position : Nat)
  | charging (handle : CapabilityHandle)

inductive CheckStep where
  | goesOn (stage : InvokeStage)
  | returns (outcome : Except CoreError CapabilityHandle)

namespace ToolRequest

variable (canonicalize : Text → Option Text) (request : ToolRequest)

def required : Capability := .toolInvoke request.toolName

def permittedAt (moment : RegistryMoment) (h : CapabilityHandle) : Bool :=
  moment.registry.permits canonicalize moment.now h request.agentId request.required

def StarvedAt (moment : RegistryMoment) : Prop :=
  ∀ h ∈ request.tokenHandles, request.permittedAt canonicalize moment h = false

/-- One step of the check, with the registry that it leaves. -/
def step (moment : RegistryMoment) : InvokeStage → CapabilityRegistry × CheckStep
  | .scanning position =>
    match request.tokenHandles[position]? with
    | none =>
      (moment.registry, .returns (.error (.capabilityDenied request.agentId request.required
        "tool invocation not permitted")))
    | some h =>
      (moment.registry, .goesOn
        (if request.permittedAt canonicalize moment h then .charging h
          else .scanning (position + 1)))
  | .charging h =>
    match moment.registry.authorizeAndRecord canonicalize moment.now h request.agentId
        request.required with
    | (registry, .error e) =>
      (registry, .returns (.error (.capabilityDenied request.agentId request.required
        ("capability use record failed: " ++ e.debug))))
    | (registry, .ok _) => (registry, .returns (.ok h))

def UpToDate (moment : RegistryMoment) : InvokeStage → Prop
  | .scanning position =>
    ∀ h ∈ request.tokenHandles.take position, request.permittedAt canonicalize moment h = false
  | .charging h => request.permittedAt canonicalize moment h = true

variable {canonicalize request} {moment : RegistryMoment} {stage stage' : InvokeStage}
  {registry : CapabilityRegistry}

theorem permits_of_step {h : CapabilityHandle} {now : DateTime} {agentId : AgentId}
    {requested : Capability}
    (hperm : (request.step canonicalize moment stage).1.permits canonicalize now h agentId
      requested = true) :
  moment.registry.permits canonicalize now h agentId requested = true
  := by
  cases stage with
  | scanning position =>
    rw [step] at hperm
    split at hperm <;> apply hperm
  | charging k =>
    rw [step] at hperm
    split at hperm
    case h_1 heq =>
      apply permits_of_authorizeAndRecord
      rw [heq]
      apply hperm
    case h_2 heq =>
      apply permits_of_authorizeAndRecord
      rw [heq]
      apply hperm

/-- A check that goes on leaves the registry as it is, and what it has seen is up to date. -/
theorem upToDate_of_goesOn (hupt : request.UpToDate canonicalize moment stage)
    (hstep : request.step canonicalize moment stage = (registry, .goesOn stage')) :
  registry = moment.registry ∧ request.UpToDate canonicalize moment stage'
  := by
  cases stage with
  | scanning position =>
    rw [step] at hstep
    split at hstep
    · cases hstep
    case h_2 h hget =>
      cases hstep
      refine ⟨rfl, ?_⟩
      cases hpermt : request.permittedAt canonicalize moment h with
      | true => apply hpermt
      | false =>
        intro k hk
        rw [take_add_one, hget, mem_append] at hk
        obtain hk | hk := hk
        · apply hupt k hk
        · obtain rfl : k = h := by simpa using hk
          apply hpermt
  | charging h =>
    rw [step] at hstep
    split at hstep <;> cases hstep

/-- A check that is up to date and denies a call finds that no handle permits the tool. -/
theorem starvedAt_of_error (hupt : request.UpToDate canonicalize moment stage) {e : CoreError}
    (hstep : request.step canonicalize moment stage = (registry, .returns (.error e))) :
  request.StarvedAt canonicalize moment
  := by
  cases stage with
  | scanning position =>
    rw [step] at hstep
    split at hstep
    case h_1 hget =>
      have hall := take_of_length_le (List.getElem?_eq_none_iff.mp hget)
      rw [UpToDate, hall] at hupt
      apply hupt
    · cases hstep
  | charging h =>
    have hok := authorizeAndRecord_eq_ok hupt
    rw [step] at hstep
    split at hstep
    case h_1 heq =>
      rw [heq] at hok
      cases hok
    · cases hstep

end ToolRequest

/-! ### Interleaved checks -/

/-- A check under way, with the number of moments that were over when it began. -/
structure PendingInvoke where
  request : ToolRequest
  since : Nat
  stage : InvokeStage

def PendingInvoke.passed (p : PendingInvoke) : List CapabilityHandle :=
  match p.stage with
  | .scanning position => p.request.tokenHandles.take position
  | .charging _ => []

structure InvokeReturn where
  request : ToolRequest
  outcome : Except CoreError CapabilityHandle
  during : List RegistryMoment

/-- A call is denied only if at some moment none of its handles permitted the tool; it is authorised
if one of them always did. -/
structure InvokeReturn.Justified (canonicalize : Text → Option Text) (r : InvokeReturn) :
    Prop where
  denied : ∀ e, r.outcome = .error e →
    ∃ moment ∈ r.during, r.request.StarvedAt canonicalize moment
  authorized : ∀ h ∈ r.request.tokenHandles,
    (∀ moment ∈ r.during, r.request.permittedAt canonicalize moment h = true) →
    ∃ charged, r.outcome = .ok charged

/-- The registry now, the moments that are over, and the checks that have returned. -/
structure SharedRegistry where
  present : RegistryMoment
  past : List RegistryMoment
  returned : List InvokeReturn

namespace SharedRegistry

/-- The registry before anything has happened. -/
def initial (moment : RegistryMoment) : SharedRegistry where
  present := moment
  past := []
  returned := []

variable (s : SharedRegistry)

def moments : List RegistryMoment := s.past ++ [s.present]

/-- The moments since a check began. -/
def during (since : Nat) : List RegistryMoment := s.moments.drop since

def next (moment : RegistryMoment) : SharedRegistry :=
  { s with present := moment, past := s.moments }

/-- A check returns. -/
def settle (r : InvokeReturn) : SharedRegistry := { s with returned := s.returned ++ [r] }

variable {s} {since : Nat}

theorem present_mem_during (hle : since ≤ s.past.length) :
  s.present ∈ s.during since
  := by
  rw [during, moments, drop_append_of_le_length hle]
  simp

theorem mem_during_next {moment : RegistryMoment} (hmem : moment ∈ s.during since)
    (next : RegistryMoment) :
  moment ∈ (s.next next).during since
  := by
  change moment ∈ (s.moments ++ [next]).drop since
  rw [drop_append]
  apply mem_append_left _ hmem

end SharedRegistry

/-- Who acts on the registry: the clock, an operation of the registry, or the check of a call. -/
inductive RegistryClient where
  | clock
  | call (call : Interleaving.Call)
  | invoking (p : PendingInvoke)

namespace RegistryClient

def Begins (s : SharedRegistry) : RegistryClient → Prop
  | clock => True
  | call c => c.isRequest = true
  | invoking p => p.stage = .scanning 0 ∧ p.since = s.past.length

/-- One step of a client. -/
inductive Move (canonicalize : Text → Option Text) (s : SharedRegistry) :
    RegistryClient → SharedRegistry → Option RegistryClient → Prop
  | tick (now : DateTime) :
      Move canonicalize s clock (s.next ⟨s.present.registry, now⟩) (some clock)
  | call {c e registry c'} (hcall : Interleaving.CallStep s.present.registry c e registry c') :
      Move canonicalize s (call c) (s.next ⟨registry, s.present.now⟩) (c'.map .call)
  | goOn {p : PendingInvoke} {registry stage}
      (hstep : p.request.step canonicalize s.present p.stage = (registry, .goesOn stage)) :
      Move canonicalize s (invoking p) (s.next ⟨registry, s.present.now⟩)
        (some (invoking { p with stage := stage }))
  | finish {p : PendingInvoke} {registry outcome}
      (hstep : p.request.step canonicalize s.present p.stage = (registry, .returns outcome)) :
      Move canonicalize s (invoking p)
        ((s.next ⟨registry, s.present.now⟩).settle ⟨p.request, outcome, s.during p.since⟩) none

/-- Time does not go back, nothing is stored at a handle that a check has passed, and a handle that
it has found keeps its permission, or no handle of it has one. -/
structure Steady (canonicalize : Text → Option Text) (s : SharedRegistry)
    (others : Multiset RegistryClient) (client : RegistryClient) (s' : SharedRegistry) :
    Prop where
  time : s.present.now ≤ s'.present.now
  stored : ∀ p, invoking p ∈ others → ∀ h ∈ p.passed, ∀ agentId token,
    client ≠ call (.storing agentId token h)
  found : ∀ p, invoking p ∈ others → ∀ h, p.stage = .charging h →
    p.request.permittedAt canonicalize s.present h = true →
    p.request.permittedAt canonicalize s'.present h = true
      ∨ p.request.StarvedAt canonicalize s'.present

end RegistryClient

def invokeSystem (canonicalize : Text → Option Text) :
    PoolSystem SharedRegistry RegistryClient where
  Start s _ client := client.Begins s
  Move s _ client s' client' := client.Move canonicalize s s' client'

def steadySystem (canonicalize : Text → Option Text) :
    PoolSystem SharedRegistry RegistryClient where
  Start s _ client := client.Begins s
  Move s others client s' client' :=
    client.Move canonicalize s s' client' ∧ client.Steady canonicalize s others s'

/-! ### Denials in steady runs -/

section Steady

variable {canonicalize : Text → Option Text} {s s' : SharedRegistry} {client : RegistryClient}
  {client' : Option RegistryClient}

namespace RegistryClient.Move

variable (hmove : client.Move canonicalize s s' client')

include hmove

theorem past_eq :
  s'.past = s.moments
  := by
  cases hmove <;> rfl

theorem mem_during {moment : RegistryMoment} {since : Nat} (hmem : moment ∈ s.during since) :
  moment ∈ s'.during since
  := by
  cases hmove <;> apply SharedRegistry.mem_during_next hmem

theorem permittedAt_of_permittedAt {request : ToolRequest} {h : CapabilityHandle}
    (htime : s.present.now ≤ s'.present.now)
    (hstore : ∀ agentId token, client ≠ .call (.storing agentId token h))
    (hpermt : request.permittedAt canonicalize s'.present h = true) :
  request.permittedAt canonicalize s.present h = true
  := by
  cases hmove with
  | tick now => apply permits_of_le htime hpermt
  | call hcall =>
    apply hcall.permits_of_permits _ hpermt
    rintro agentId token rfl
    apply hstore agentId token rfl
  | goOn hstep | finish hstep =>
    apply ToolRequest.permits_of_step
    rw [hstep]
    apply hpermt

end RegistryClient.Move

/-- At some moment since the check began none of its handles permitted the tool, or the check is up
to date. -/
structure PendingInvoke.Sound (canonicalize : Text → Option Text) (s : SharedRegistry)
    (p : PendingInvoke) : Prop where
  since_le : p.since ≤ s.past.length
  sound : (∃ moment ∈ s.during p.since, p.request.StarvedAt canonicalize moment)
    ∨ p.request.UpToDate canonicalize s.present p.stage

namespace PendingInvoke.Sound

variable {p : PendingInvoke} (hsound : p.Sound canonicalize s)

include hsound

theorem of_steady {others : Multiset RegistryClient} (hmem : .invoking p ∈ others)
    (hmove : client.Move canonicalize s s' client')
    (hsteady : client.Steady canonicalize s others s') :
  p.Sound canonicalize s'
  := by
  have hle : p.since ≤ s'.past.length := by
    rw [hmove.past_eq, SharedRegistry.moments, length_append]
    apply Nat.le_add_right_of_le hsound.since_le
  refine ⟨hle, ?_⟩
  obtain ⟨moment, hmom, hstar⟩ | hupt := hsound.sound
  · exact .inl ⟨moment, hmove.mem_during hmom, hstar⟩
  · cases hstage : p.stage with
    | scanning position =>
      right
      intro h hh
      have hpass : h ∈ p.passed := by
        rw [passed, hstage]
        apply hh
      rw [hstage] at hupt
      apply Bool.eq_false_iff.mpr
      intro hpermt
      have hbef := hmove.permittedAt_of_permittedAt hsteady.time
        (hsteady.stored p hmem h hpass) hpermt
      rw [hupt h hh] at hbef
      cases hbef
    | charging h =>
      rw [hstage] at hupt
      obtain hpermt | hstar := hsteady.found p hmem h hstage hupt
      · exact .inr hpermt
      · exact .inl ⟨s'.present, SharedRegistry.present_mem_during hle, hstar⟩

theorem goOn {registry : CapabilityRegistry} {stage : InvokeStage}
    (hstep : p.request.step canonicalize s.present p.stage = (registry, .goesOn stage)) :
  Sound canonicalize (s.next ⟨registry, s.present.now⟩) { p with stage := stage }
  := by
  constructor
  case since_le =>
    change p.since ≤ (s.past ++ [s.present]).length
    rw [length_append]
    apply Nat.le_add_right_of_le hsound.since_le
  case sound =>
    obtain ⟨moment, hmom, hstar⟩ | hupt := hsound.sound
    · exact .inl ⟨moment, SharedRegistry.mem_during_next hmom _, hstar⟩
    · obtain ⟨rfl, hupt⟩ := ToolRequest.upToDate_of_goesOn hupt hstep
      exact .inr hupt

theorem justified {registry : CapabilityRegistry} {outcome : Except CoreError CapabilityHandle}
    (hstep : p.request.step canonicalize s.present p.stage = (registry, .returns outcome)) :
  InvokeReturn.Justified canonicalize ⟨p.request, outcome, s.during p.since⟩
  := by
  have hdeny : ∀ e, outcome = .error e →
      ∃ moment ∈ s.during p.since, p.request.StarvedAt canonicalize moment := by
    rintro e rfl
    obtain hstar | hupt := hsound.sound
    · apply hstar
    · exact ⟨s.present, SharedRegistry.present_mem_during hsound.since_le,
        ToolRequest.starvedAt_of_error hupt hstep⟩
  constructor
  case denied => apply hdeny
  case authorized =>
    intro h hh hpermt
    cases outcome with
    | ok charged => use charged
    | error e =>
      obtain ⟨moment, hmom, hstar⟩ := hdeny e rfl
      have hnot := hstar h hh
      rw [hpermt moment hmom] at hnot
      cases hnot

end PendingInvoke.Sound

theorem steadySystem_keeps (canonicalize : Text → Option Text) :
  (steadySystem canonicalize).Keeps
    (fun s => ∀ r ∈ s.returned, r.Justified canonicalize)
    (fun s client => ∀ p, client = .invoking p → p.Sound canonicalize s)
    (fun _ _ => True)
  := by
  constructor
  case symm => intros; trivial
  case apart => intros; trivial
  case start =>
    intro s others client hbegin _ _
    refine ⟨?_, fun _ _ => trivial⟩
    rintro p rfl
    obtain ⟨hstage, hsince⟩ := hbegin
    refine ⟨hsince.le, .inr ?_⟩
    rw [hstage]
    intro h hh
    simp at hh
  case shared =>
    rintro s others client s' client' ⟨hmove, -⟩ hjus hsound -
    cases hmove with
    | tick | call | goOn => apply hjus
    | finish hstep =>
      intro r hr
      obtain hr | rfl := mem_append.mp hr |>.imp_right mem_singleton.mp
      · apply hjus r hr
      · apply (hsound _ rfl).justified hstep
  case each =>
    rintro s others client s' client' ⟨hmove, -⟩ - hsound - p rfl
    generalize hclient : some (RegistryClient.invoking p) = client' at hmove
    cases hmove with
    | tick => cases hclient
    | @call c e registry c' hcall =>
      cases c' <;> cases hclient
    | goOn hstep =>
      cases hclient
      apply (hsound _ rfl).goOn hstep
    | finish => cases hclient
  case others =>
    rintro s others client s' client' ⟨hmove, hsteady⟩ - - other hother hsound - p rfl
    apply (hsound p rfl).of_steady hother hmove hsteady

theorem RegistryClient.Steady.of_present_eq (hpres : s'.present = s.present)
    (hclient : ∀ c, client ≠ .call c) (others : Multiset RegistryClient) :
  client.Steady canonicalize s others s'
  := by
  constructor
  case time => rw [hpres]
  case stored =>
    intro p _ h _ agentId token
    apply hclient
  case found =>
    intro p _ h _ hpermt
    rw [hpres]
    exact .inl hpermt

/-! ### Calls that race -/

/-- An agent holds a token for a single call of any tool, and another one without a limit. -/
def racedMoment : RegistryMoment where
  registry :=
    let once : CapabilityToken := .issue 0 0 ⟨0⟩ (.toolInvoke ['*']) { maxInvocations := some 1 }
    let always : CapabilityToken := .issue 1 0 ⟨0⟩ (.toolInvoke ['*']) {}
    ((CapabilityRegistry.new.insert ⟨0⟩ once).1.insert ⟨0⟩ always).1
  now := 0

/-- A call with the token for a single call, and other ones. -/
def racingRequest (others : List CapabilityHandle) : ToolRequest where
  agentId := ⟨0⟩
  toolName := "echo"
  tokenHandles := ⟨0⟩ :: others

def chargedMoment : RegistryMoment where
  registry := ((racingRequest []).step Option.some racedMoment (.charging ⟨0⟩)).1
  now := 0

/-- The token for a single call is used up. -/
def exhaustedError : CoreError :=
  .capabilityDenied ⟨0⟩ (racingRequest []).required
    ("capability use record failed: " ++ CapabilityDenied.exhausted.debug)

section Race

variable (others : List CapabilityHandle)

def racer (stage : InvokeStage) : RegistryClient := .invoking ⟨racingRequest others, 0, stage⟩

/-- Two calls have found the token. -/
def bothFound : SharedRegistry :=
  ((SharedRegistry.initial racedMoment).next racedMoment).next racedMoment

def oneCharged : SharedRegistry :=
  (bothFound.next chargedMoment).settle ⟨racingRequest others, .ok ⟨0⟩, bothFound.during 0⟩

def otherDenied : SharedRegistry :=
  ((oneCharged others).next chargedMoment).settle
    ⟨racingRequest others, .error exhaustedError, (oneCharged others).during 0⟩

theorem move_scanning (s : SharedRegistry) (hs : s.present = racedMoment) :
  (racer others (.scanning 0)).Move Option.some s (s.next racedMoment)
    (some (racer others (.charging ⟨0⟩)))
  := by
  have hscan : (racingRequest others).step Option.some racedMoment (.scanning 0)
      = (racedMoment.registry, .goesOn (.charging ⟨0⟩)) := rfl
  obtain ⟨present, past, returned⟩ := s
  obtain rfl : present = racedMoment := hs
  exact .goOn hscan

theorem move_denied :
  (racer others (.charging ⟨0⟩)).Move Option.some (oneCharged others) (otherDenied others) none
  := by
  have hdeny : (racingRequest others).step Option.some chargedMoment (.charging ⟨0⟩)
      = (chargedMoment.registry, .returns (.error exhaustedError)) := rfl
  exact .finish hdeny

/-- Two calls find the token for a single call, one is charged, and the other one is denied. -/
theorem reaches_otherDenied {sys : PoolSystem SharedRegistry RegistryClient}
    (hstart : ∀ s m client, client.Begins s → sys.Start s m client)
    (hquiet : ∀ s m client s' client', client.Move Option.some s s' client' →
      s'.present = s.present → (∀ c, client ≠ .call c) → sys.Move s m client s' client')
    (hchar : sys.Move bothFound {racer others (.charging ⟨0⟩)} (racer others (.charging ⟨0⟩))
      (oneCharged others) none) :
  sys.Reaches ⟨.initial racedMoment, 0⟩ ⟨otherDenied others, 0⟩
  := by
  have hclient : ∀ stage c, racer others stage ≠ .call c := by
    rintro stage c ⟨⟩
  have hbegin : (racer others (.scanning 0)).Begins (.initial racedMoment) := ⟨rfl, rfl⟩
  have hscan (s : SharedRegistry) (m : Multiset RegistryClient) (hs : s.present = racedMoment) :
      sys.Step ⟨s, racer others (.scanning 0) ::ₘ m⟩
        ⟨s.next racedMoment, racer others (.charging ⟨0⟩) ::ₘ m⟩ :=
    .goesOn (hquiet _ m _ _ _ (move_scanning others s hs) hs.symm (hclient _))
  have hfound : sys.Reaches ⟨.initial racedMoment, 0⟩
      ⟨bothFound, racer others (.charging ⟨0⟩) ::ₘ racer others (.charging ⟨0⟩) ::ₘ 0⟩ := by
    apply Relation.ReflTransGen.head (.start (hstart _ _ _ hbegin))
    apply Relation.ReflTransGen.head (.start (hstart _ _ _ hbegin))
    apply Relation.ReflTransGen.head (hscan _ _ rfl)
    rw [Multiset.cons_swap]
    apply Relation.ReflTransGen.single (hscan _ _ rfl)
  have hlast : sys.Step ⟨oneCharged others, racer others (.charging ⟨0⟩) ::ₘ 0⟩
      ⟨otherDenied others, 0⟩ :=
    .ends (hquiet _ 0 _ _ _ (move_denied others) rfl (hclient _))
  exact (hfound.tail (.ends hchar)).tail hlast

end Race

/-- In a run of steady steps, a call is denied only if at some moment during it none of its handles
permits the tool, and a call with a handle that always permits the tool is authorised. -/
theorem invoke_denials_justified
    {moment : RegistryMoment} {pool : Pool SharedRegistry RegistryClient}
    (hreaches : (steadySystem canonicalize).Reaches ⟨.initial moment, 0⟩ pool) :
  ∀ r ∈ pool.shared.returned, r.Justified canonicalize
  := by
  apply ((steadySystem_keeps canonicalize).holds_of_reaches hreaches _).shared
  constructor
  case shared =>
    intro r hr
    cases hr
  case each =>
    intro client hclient
    simp at hclient
  case apart =>
    intro client rest hcons
    cases Multiset.zero_ne_cons hcons

/-- Two calls with the one token find it, and the later one is denied. -/
theorem invoke_denials_justified_otherDenied :
  (steadySystem Option.some).Reaches ⟨.initial racedMoment, 0⟩ ⟨otherDenied [], 0⟩
    ∧ (otherDenied []).returned.map (·.outcome) = [.ok ⟨0⟩, .error exhaustedError]
    ∧ ∀ r ∈ (otherDenied []).returned, r.Justified Option.some
  := by
  have hreach : (steadySystem Option.some).Reaches ⟨.initial racedMoment, 0⟩
      ⟨otherDenied [], 0⟩ := by
    apply reaches_otherDenied
    · exact fun _ _ _ hbegin => hbegin
    · exact fun _ m _ _ _ hmove hpres hclient => ⟨hmove, .of_present_eq hpres hclient m⟩
    · refine ⟨.finish rfl, le_rfl, ?_, ?_⟩
      · rintro p - h - agentId token ⟨⟩
      · intro p hp _ _ _
        rw [Multiset.mem_singleton] at hp
        cases hp
        right
        intro h hh
        rw [List.mem_singleton.mp hh]
        rfl
  exact ⟨hreach, rfl, invoke_denials_justified hreach⟩

/-- Two calls find the token for a single call, and the later one is denied, although its other
token always permits the tool. -/
theorem racing_call_is_denied :
  ∃ pool r, (invokeSystem Option.some).Reaches ⟨.initial racedMoment, 0⟩ pool
    ∧ r ∈ pool.shared.returned ∧ (∃ e, r.outcome = .error e)
    ∧ ⟨1⟩ ∈ r.request.tokenHandles
    ∧ ∀ moment ∈ r.during, r.request.permittedAt Option.some moment ⟨1⟩ = true
  := by
  have hreach : (invokeSystem Option.some).Reaches ⟨.initial racedMoment, 0⟩
      ⟨otherDenied [⟨1⟩], 0⟩ := by
    apply reaches_otherDenied
    · exact fun _ _ _ hbegin => hbegin
    · exact fun _ _ _ _ _ hmove _ _ => hmove
    · exact .finish rfl
  refine ⟨_, _, hreach, List.mem_append_right _ (List.mem_singleton_self _), ⟨_, rfl⟩,
    List.mem_cons_of_mem _ (List.mem_singleton_self _), ?_⟩
  intro moment hmom
  have hmom : moment ∈ [racedMoment, racedMoment, racedMoment, chargedMoment] := hmom
  simp only [List.mem_cons, List.not_mem_nil, or_false, or_self_left] at hmom
  obtain rfl | rfl := hmom <;> rfl

end Steady
