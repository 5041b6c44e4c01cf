import Mathlib.Data.Multiset.Filter
import AaOS.Lib.Run
import AaOS.Registry.Registry

/-!
# Interleaved registry operations

The registry is shared by any number of threads, and its table locks one entry at a time.  A state
holds the registry and the calls that are under way, each with what it still has to do; a step
begins a call or advances one, and is recorded by an event.
-/

open CapabilityRegistry

namespace Interleaving

inductive Narrowing where
  | narrow
  | narrowWithCapability (requestedCapability : Capability)

/-- The token that narrowing an entry yields. -/
def Narrowing.narrowed (canonicalize : Text → Option Text) (id : Uuid)
    (parentAgent childAgent : AgentId) (additional : Constraints) (entry : OwnedEntry) :
    Narrowing → Option CapabilityToken
  | narrow => entry.narrow id parentAgent additional
  | narrowWithCapability requestedCapability =>
    entry.narrowWithCapability canonicalize id parentAgent childAgent requestedCapability
      additional

/-- The two operations that revoke tokens. -/
inductive Revocation where
  | revoke (tokenId : Uuid)
  | revokeAllForAgent (agentId : AgentId)

namespace Revocation

def selected : Revocation → OwnedEntry → Bool
  | revoke tokenId => OwnedEntry.hasTokenId tokenId
  | revokeAllForAgent agentId => OwnedEntry.ownedBy agentId

/-- The calls of the notifier that follow when the loop has marked the given tokens. -/
def publications : Revocation → List Uuid → List Uuid
  | revoke _, [] => []
  | revoke tokenId, _ :: _ => [tokenId]
  | revokeAllForAgent _, marked => marked

end Revocation

/-- A call with what it still has to do. -/
inductive Call where
  | insert (agentId : AgentId) (token : CapabilityToken)
  | storing (agentId : AgentId) (token : CapabilityToken) (handle : CapabilityHandle)
  | narrow (narrowing : Narrowing) (parentHandle : CapabilityHandle)
      (parentAgent childAgent : AgentId) (additional : Constraints)
  | authorizeAndRecord (handle : CapabilityHandle) (requestingAgent : AgentId)
      (requested : Capability)
  | revoke (revocation : Revocation)
  | revoking (revocation : Revocation) (rest : List CapabilityHandle) (marked : List Uuid)
  | notifying (tokenIds : List Uuid)
  | removeAgent (agentId : AgentId)
  | removing (agentId : AgentId) (rest : List CapabilityHandle)

def Call.isRequest : Call → Bool
  | insert .. | narrow .. | authorizeAndRecord .. | revoke .. | removeAgent .. => true
  | storing .. | revoking .. | notifying .. | removing .. => false

/-- What a step does, as far as an observer is concerned. -/
inductive Event where
  | started (call : Call)
  | allocated (handle : CapabilityHandle)
  | inserted (handle : CapabilityHandle) (agentId : AgentId) (token : CapabilityToken)
  | narrowed (parent child : CapabilityToken)
  | refused
  | authorized (handle : CapabilityHandle) (tokenId : Uuid) (requestingAgent : AgentId)
  | denied (reason : CapabilityDenied)
  | marked (tokenId : Uuid)
  | notified (tokenId : Uuid)
  | removed (handle : CapabilityHandle)
  | passed

/-- An order in which a loop may visit the table; handles inserted during the loop may occur. -/
structure VisitOrder (registry : CapabilityRegistry) (order : List CapabilityHandle) :
    Prop where
  covers : ∀ h ∈ registry.table, h ∈ order
  nodup : order.Nodup

theorem visitOrder_keys (registry : CapabilityRegistry) :
  VisitOrder registry registry.table.keys
  := by
  constructor
  case covers =>
    intro h hmem
    apply AList.mem_keys.mp hmem
  case nodup => apply registry.table.keys_nodup

/-- One step of a call, which has returned when there is none after the step. -/
inductive CallStep (registry : CapabilityRegistry) :
    Call → Event → CapabilityRegistry → Option Call → Prop
  | fetchAdd (agentId token) :
      CallStep registry (.insert agentId token) (.allocated ⟨registry.nextId⟩)
        { registry with nextId := registry.nextId + 1 }
        (some (.storing agentId token ⟨registry.nextId⟩))
  | store (agentId token h) :
      CallStep registry (.storing agentId token h) (.inserted h agentId token)
        { registry with table := registry.table.insert h ⟨agentId, token⟩ } none
  | readParent {narrowing : Narrowing}
      {parentHandle parentAgent childAgent additional entry child}
      (canonicalize : Text → Option Text) (id : Uuid)
      (hlookup : registry.table.lookup parentHandle = some entry)
      (hchild : narrowing.narrowed canonicalize id parentAgent childAgent additional entry
        = some child) :
      CallStep registry (.narrow narrowing parentHandle parentAgent childAgent additional)
        (.narrowed entry.token child) registry (some (.insert childAgent child))
  | refuseNarrowing {narrowing : Narrowing} {parentHandle parentAgent childAgent additional}
      (canonicalize : Text → Option Text) (id : Uuid)
      (hnone : (registry.table.lookup parentHandle).bind
        (fun entry =>
          narrowing.narrowed canonicalize id parentAgent childAgent additional entry) = none) :
      CallStep registry (.narrow narrowing parentHandle parentAgent childAgent additional)
        .refused registry none
  | authorize {h requestingAgent requested} {entry : OwnedEntry} {used}
      (canonicalize : Text → Option Text) (now : DateTime)
      (hlookup : registry.table.lookup h = some entry)
      (hok : entry.authorizeAndRecord canonicalize now requestingAgent requested = .ok used) :
      CallStep registry (.authorizeAndRecord h requestingAgent requested)
        (.authorized h entry.token.id requestingAgent)
        { registry with table := registry.table.insert h used } none
  | denyUnknown {h requestingAgent requested} (hlookup : registry.table.lookup h = none) :
      CallStep registry (.authorizeAndRecord h requestingAgent requested)
        (.denied .unknownHandle) registry none
  | deny {h requestingAgent requested} {entry : OwnedEntry} {reason}
      (canonicalize : Text → Option Text) (now : DateTime)
      (hlookup : registry.table.lookup h = some entry)
      (herror : entry.authorizeAndRecord canonicalize now requestingAgent requested
        = .error reason) :
      CallStep registry (.authorizeAndRecord h requestingAgent requested) (.denied reason)
        registry none
  | beginRevoking {revocation order} (horder : VisitOrder registry order) :
      CallStep registry (.revoke revocation) .passed registry
        (some (.revoking revocation order []))
  | mark {revocation : Revocation} {h rest marked} {entry : OwnedEntry} {revoked} (now : DateTime)
      (hlookup : registry.table.lookup h = some entry)
      (hrevoked : entry.revokeIf revocation.selected now = some revoked) :
      CallStep registry (.revoking revocation (h :: rest) marked) (.marked entry.token.id)
        { registry with table := registry.table.insert h revoked }
        (some (.revoking revocation rest (marked ++ [entry.token.id])))
  | passOver {revocation : Revocation} {h rest marked} (now : DateTime)
      (hnone : (registry.table.lookup h).bind (·.revokeIf revocation.selected now) = none) :
      CallStep registry (.revoking revocation (h :: rest) marked) .passed registry
        (some (.revoking revocation rest marked))
  | endRevoking (revocation marked) :
      CallStep registry (.revoking revocation [] marked) .passed registry
        (some (.notifying (revocation.publications marked)))
  | notify (tokenId tokenIds) :
      CallStep registry (.notifying (tokenId :: tokenIds)) (.notified tokenId)
        (registry.publish [tokenId]) (some (.notifying tokenIds))
  | endNotifying : CallStep registry (.notifying []) .passed registry none
  | beginRemoving {agentId order} (horder : VisitOrder registry order) :
      CallStep registry (.removeAgent agentId) .passed registry (some (.removing agentId order))
  | remove {agentId h rest} {entry : OwnedEntry} (hlookup : registry.table.lookup h = some entry)
      (howned : entry.ownedBy agentId = true) :
      CallStep registry (.removing agentId (h :: rest)) (.removed h)
        { registry with table := registry.table.erase h } (some (.removing agentId rest))
  | keep {agentId h rest} (hkeep : (registry.table.lookup h).any (·.ownedBy agentId) = false) :
      CallStep registry (.removing agentId (h :: rest)) .passed registry
        (some (.removing agentId rest))
  | endRemoving (agentId) :
      CallStep registry (.removing agentId []) .passed registry none

theorem CallStep.permits_of_permits
    {registry registry' : CapabilityRegistry} {call : Call} {call' : Option Call} {e : Event}
    (hcall : CallStep registry call e registry' call') {h : CapabilityHandle}
    (hnot : ∀ agentId token, call ≠ .storing agentId token h)
    {canonicalize : Text → Option Text} {now : DateTime} {agentId : AgentId}
    {requested : Capability}
    (hperm : registry'.permits canonicalize now h agentId requested = true) :
  registry.permits canonicalize now h agentId requested = true
  := by
  cases hcall with
  | store owner token k =>
    have hne : h ≠ k := by
      rintro rfl
      apply hnot owner token rfl
    rw [permits_eq_true_iff, AList.lookup_insert_ne hne] at hperm
    rw [permits_eq_true_iff]
    apply hperm
  | authorize _ _ hlook hok => apply permits_of_used hlook hok hperm
  | mark _ hlook hrev =>
    obtain ⟨-, -, rfl⟩ := OwnedEntry.revokeIf_eq_some hrev
    apply permits_of_replaced hlook _ _ hperm
    · rfl
    · intro hrev
      cases CapabilityToken.not_isRevoked_of_permits hrev
  | remove hlook howned =>
    rw [permits_eq_true_iff] at hperm ⊢
    obtain ⟨entry, hlook, hperm⟩ := hperm
    exact ⟨entry, Table.lookup_of_lookup_erase hlook, hperm⟩
  | fetchAdd | readParent | refuseNarrowing | denyUnknown | deny | beginRevoking | passOver
  | endRevoking | notify | endNotifying | beginRemoving | keep | endRemoving => apply hperm

/-- A registry with the calls under way. -/
structure State where
  registry : CapabilityRegistry
  calls : Multiset Call

/-- One step of the system: a call begins, or one of the calls under way advances. -/
inductive Step : State → Event → State → Prop
  | start {registry calls} {call : Call} (hrequest : call.isRequest = true) :
      Step ⟨registry, calls⟩ (.started call) ⟨registry, call ::ₘ calls⟩
  | advance {registry registry' calls call call' e}
      (hcall : CallStep registry call e registry' call') :
      Step ⟨registry, call ::ₘ calls⟩ e ⟨registry', call'.elim calls (· ::ₘ calls)⟩

/-! ### What a run records -/

structure Use where
  handle : CapabilityHandle
  agentId : AgentId
  tokenId : Uuid

/-- What has happened in a run. -/
structure History where
  drawn : List Uuid := []
  allocated : List CapabilityHandle := []
  inserted : List (CapabilityHandle × OwnedEntry) := []
  narrowed : List (CapabilityToken × CapabilityToken) := []
  uses : List Use := []
  marked : List Uuid := []

/-- The token that a call is about to insert. -/
def Call.token : Call → Option CapabilityToken
  | insert _ token | storing _ token _ => some token
  | _ => none

namespace History

/-- The history with one more event. -/
def record (past : History) : Event → History
  | .started call => { past with drawn := past.drawn ++ (call.token.map (·.id)).toList }
  | .allocated h => { past with allocated := past.allocated ++ [h] }
  | .inserted h agentId token =>
    { past with inserted := past.inserted ++ [(h, ⟨agentId, token⟩)] }
  | .narrowed parent child =>
    { past with
      drawn := past.drawn ++ [child.id]
      narrowed := past.narrowed ++ [(parent, child)] }
  | .authorized h tokenId agentId => { past with uses := past.uses ++ [⟨h, agentId, tokenId⟩] }
  | .marked tokenId => { past with marked := past.marked ++ [tokenId] }
  | .refused | .denied _ | .notified _ | .removed _ | .passed => past

/-- The number of uses of a token. -/
def successes (past : History) (tokenId : Uuid) : Nat :=
  past.uses.countP (·.tokenId = tokenId)

end History

/-- What has happened in a run. -/
def history (trace : List Event) : History := trace.foldl History.record {}

/-- The identifier drawn is fresh and fewer than 2^64 handles have been allocated. -/
structure Admissible (trace : List Event) (e : Event) : Prop where
  fresh : ∀ id ∈ (history [e]).drawn, id ∉ (history trace).drawn
  few : (history (trace ++ [e])).allocated.length < 2 ^ 64

/-- The start of a run: an empty registry, with or without a notifier, and no calls. -/
def initial (installed : Bool) : State where
  registry := if installed then .newWithNotifier else .new
  calls := 0

/-- The runs of the interleaved operations, with fresh identifiers and fewer than 2^64
insertions. -/
abbrev Reaches (installed : Bool) : List Event → State → Prop :=
  Run (fun trace s e s' => Step s e s' ∧ Admissible trace e) (initial installed)

@[simp]
theorem history_snoc (trace : List Event) (e : Event) :
  history (trace ++ [e]) = (history trace).record e
  := by
  simp [history]

end Interleaving
