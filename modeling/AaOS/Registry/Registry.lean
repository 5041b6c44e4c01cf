import AaOS.Core.Capability
import AaOS.Lib.Table

/-!
# The capability registry

The table of issued tokens, with the operations of `aaos-core/src/capability_registry.rs` when each
runs alone.  The loops of `revoke` and `revoke_all_for_agent` read the clock at each entry they
mark; `clock` gives the time read at each handle.
-/

open CapabilityToken

/-- A token in the table, with the agent that owns its handle. -/
structure OwnedEntry where
  agentId : AgentId
  token : CapabilityToken

namespace OwnedEntry

def revokeIf (selected : OwnedEntry → Bool) (now : DateTime) (entry : OwnedEntry) :
    Option OwnedEntry :=
  if selected entry && entry.token.revokedAt.isNone then
    some { entry with token := { entry.token with revokedAt := some now } }
  else none

def swept (selected : OwnedEntry → Bool) (now : DateTime) (entry : OwnedEntry) : OwnedEntry :=
  (entry.revokeIf selected now).getD entry

/-- The entries that `revoke` selects. -/
def hasTokenId (tokenId : Uuid) (entry : OwnedEntry) : Bool := entry.token.id = tokenId

/-- The entries that `revoke_all_for_agent` selects and `remove_agent` removes. -/
def ownedBy (agentId : AgentId) (entry : OwnedEntry) : Bool := entry.agentId = agentId

/-- The entry with a use recorded, or the reason why the use is denied. -/
def authorizeAndRecord (canonicalize : Text → Option Text) (now : DateTime)
    (requestingAgent : AgentId) (requested : Capability) (entry : OwnedEntry) :
    Except CapabilityDenied OwnedEntry :=
  if entry.agentId ≠ requestingAgent then .error .wrongAgent
  else if !entry.token.permits canonicalize now requested then
    if entry.token.isRevoked then .error .revoked
    else if entry.token.isExhausted then .error .exhausted
    else .error .notPermitted
  else .ok { entry with token := entry.token.recordUse.1 }

def narrow (id : Uuid) (parentAgent : AgentId) (additional : Constraints) (entry : OwnedEntry) :
    Option CapabilityToken :=
  if entry.agentId ≠ parentAgent then none else some (entry.token.narrow id additional)

def narrowWithCapability (canonicalize : Text → Option Text) (id : Uuid) (parentAgent : AgentId)
    (childAgent : AgentId) (requestedCapability : Capability) (additional : Constraints)
    (entry : OwnedEntry) : Option CapabilityToken :=
  if entry.agentId ≠ parentAgent then none
  else entry.token.narrowWithCapability canonicalize id childAgent requestedCapability additional

/-! ### Revocation of an entry -/

section Swept

variable (selected : OwnedEntry → Bool) (now : DateTime) (entry : OwnedEntry)

@[simp]
theorem swept_id :
  (entry.swept selected now).token.id = entry.token.id
  := by
  unfold swept revokeIf
  split_ifs <;> rfl

@[simp]
theorem swept_agentId :
  (entry.swept selected now).agentId = entry.agentId
  := by
  unfold swept revokeIf
  split_ifs <;> rfl

@[simp]
theorem swept_capability :
  (entry.swept selected now).token.capability = entry.token.capability
  := by
  unfold swept revokeIf
  split_ifs <;> rfl

theorem isRevoked_swept :
  (entry.swept selected now).token.isRevoked = (entry.token.isRevoked || selected entry)
  := by
  unfold swept revokeIf isRevoked
  cases hsel : selected entry with
  | false => simp
  | true => cases hrev : entry.token.revokedAt <;> simp [hrev]

theorem revokeIf_eq_some {selected : OwnedEntry → Bool} {now : DateTime}
    {entry revoked : OwnedEntry} (hrev : entry.revokeIf selected now = some revoked) :
  selected entry = true ∧ entry.token.isRevoked = false
    ∧ revoked = { entry with token := { entry.token with revokedAt := some now } }
  := by
  simp only [revokeIf, Bool.and_eq_true, Option.ite_none_right_eq_some, Option.some.injEq]
    at hrev
  obtain ⟨⟨hsel, hnone⟩, rfl⟩ := hrev
  simp_all [isRevoked]

end Swept

theorem authorizeAndRecord_eq_ok {canonicalize : Text → Option Text} {now : DateTime}
    {requestingAgent : AgentId} {requested : Capability} {entry used : OwnedEntry}
    (hok : entry.authorizeAndRecord canonicalize now requestingAgent requested = .ok used) :
  entry.agentId = requestingAgent ∧ entry.token.permits canonicalize now requested = true
    ∧ used = { entry with token := entry.token.recordUse.1 }
  := by
  unfold authorizeAndRecord at hok
  split_ifs at hok with howner hperm hrev hexh
  simp_all

end OwnedEntry

/-- The table, the next handle, and the calls received by the notifier when one is installed. -/
structure CapabilityRegistry where
  table : Table CapabilityHandle OwnedEntry
  nextId : UInt64
  notifier : Option (List Uuid)

namespace CapabilityRegistry

/-- The empty registry. -/
def new : CapabilityRegistry where
  table := ∅
  nextId := 0
  notifier := none

def newWithNotifier : CapabilityRegistry := { new with notifier := some [] }

def insert (registry : CapabilityRegistry) (agentId : AgentId) (token : CapabilityToken) :
    CapabilityRegistry × CapabilityHandle :=
  let h : CapabilityHandle := ⟨registry.nextId⟩
  ({ registry with
      table := registry.table.insert h ⟨agentId, token⟩
      nextId := registry.nextId + 1 }, h)

def narrow (registry : CapabilityRegistry) (id : Uuid) (parentHandle : CapabilityHandle)
    (parentAgent childAgent : AgentId) (additional : Constraints) :
    CapabilityRegistry × Option CapabilityHandle :=
  match (registry.table.lookup parentHandle).bind (·.narrow id parentAgent additional) with
  | none => (registry, none)
  | some narrowed =>
    let inserted := registry.insert childAgent narrowed
    (inserted.1, some inserted.2)

section Authorization

variable (canonicalize : Text → Option Text)

/-- Issue a handle for a copy of the token of the parent with a more specific
capability. -/
def narrowWithCapability (registry : CapabilityRegistry) (id : Uuid)
    (parentHandle : CapabilityHandle) (parentAgent childAgent : AgentId)
    (requestedCapability : Capability) (additional : Constraints) :
    CapabilityRegistry × Option CapabilityHandle :=
  let narrowed := (registry.table.lookup parentHandle).bind
    (·.narrowWithCapability canonicalize id parentAgent childAgent requestedCapability additional)
  match narrowed with
  | none => (registry, none)
  | some narrowed =>
    let inserted := registry.insert childAgent narrowed
    (inserted.1, some inserted.2)

def permits (registry : CapabilityRegistry) (now : DateTime) (handle : CapabilityHandle)
    (requestingAgent : AgentId) (requested : Capability) : Bool :=
  match registry.table.lookup handle with
  | none => false
  | some entry =>
    if entry.agentId ≠ requestingAgent then false
    else entry.token.permits canonicalize now requested

def authorizeAndRecord (registry : CapabilityRegistry) (now : DateTime)
    (handle : CapabilityHandle) (requestingAgent : AgentId) (requested : Capability) :
    CapabilityRegistry × Except CapabilityDenied Unit :=
  match registry.table.lookup handle with
  | none => (registry, .error .unknownHandle)
  | some entry =>
    match entry.authorizeAndRecord canonicalize now requestingAgent requested with
    | .error denied => (registry, .error denied)
    | .ok used => ({ registry with table := registry.table.insert handle used }, .ok ())

end Authorization

def permitsCanonicalFile (registry : CapabilityRegistry) (now : DateTime)
    (handle : CapabilityHandle) (requestingAgent : AgentId) (kind : FileAccess)
    (canonical : Text) : Bool :=
  match registry.table.lookup handle with
  | none => false
  | some entry =>
    if entry.agentId ≠ requestingAgent then false
    else entry.token.permitsCanonicalFile now kind canonical

/-- The notifier, when installed, is called with each of the identifiers. -/
def publish (registry : CapabilityRegistry) (tokenIds : List Uuid) : CapabilityRegistry :=
  { registry with notifier := registry.notifier.map (· ++ tokenIds) }

/-- The loop that revokes the selected tokens, with the identifiers of those it marks. -/
def revokeLoop (registry : CapabilityRegistry) (selected : OwnedEntry → Bool)
    (clock : CapabilityHandle → DateTime) : CapabilityRegistry × List Uuid :=
  ({ registry with
      table := registry.table.sweep (fun h entry => entry.swept selected (clock h)) },
    registry.table.collect (fun h entry => (entry.revokeIf selected (clock h)).map (·.token.id)))

/-- Revoke the tokens with the given identifier. -/
def revoke (registry : CapabilityRegistry) (clock : CapabilityHandle → DateTime)
    (tokenId : Uuid) : CapabilityRegistry × Bool :=
  let swept := registry.revokeLoop (OwnedEntry.hasTokenId tokenId) clock
  if swept.2 = [] then (swept.1, false) else (swept.1.publish [tokenId], true)

def revokeAllForAgent (registry : CapabilityRegistry) (clock : CapabilityHandle → DateTime)
    (agentId : AgentId) : CapabilityRegistry × Nat :=
  let swept := registry.revokeLoop (OwnedEntry.ownedBy agentId) clock
  (swept.1.publish swept.2, swept.2.length)

def removeAgent (registry : CapabilityRegistry) (agentId : AgentId) : CapabilityRegistry :=
  { registry with table := registry.table.retain (fun _ entry => !entry.ownedBy agentId) }

def tokenIdOf (registry : CapabilityRegistry) (handle : CapabilityHandle) : Option Uuid :=
  (registry.table.lookup handle).map (·.token.id)

def resolveTokens (registry : CapabilityRegistry) (now : DateTime)
    (handles : List CapabilityHandle) (agentId : AgentId) : List CapabilityToken :=
  handles.filterMap fun h =>
    match registry.table.lookup h with
    | none => none
    | some entry =>
      if entry.agentId ≠ agentId then none
      else if entry.token.isRevoked || entry.token.isExpired now then none
      else some entry.token

/-! ### What the operations do to the table -/

section Table

variable (registry : CapabilityRegistry)

theorem lookup_insert (agentId : AgentId) (token : CapabilityToken) (h : CapabilityHandle) :
  (registry.insert agentId token).1.table.lookup h
    = if h = ⟨registry.nextId⟩ then some ⟨agentId, token⟩ else registry.table.lookup h
  := by
  apply Table.lookup_insert'

theorem permits_eq_true_iff {canonicalize : Text → Option Text} {now : DateTime}
    {h : CapabilityHandle} {agentId : AgentId} {requested : Capability} :
  registry.permits canonicalize now h agentId requested = true
    ↔ ∃ entry, registry.table.lookup h = some entry ∧ entry.agentId = agentId
      ∧ entry.token.permits canonicalize now requested = true
  := by
  unfold permits
  cases registry.table.lookup h <;> simp

section Permits

variable {registry} {canonicalize : Text → Option Text} {now : DateTime} {h k : CapabilityHandle}
  {agentId : AgentId} {requested : Capability} {entry : OwnedEntry}

theorem permits_of_replaced {entry' : OwnedEntry} (hlook : registry.table.lookup k = some entry)
    (hagent : entry'.agentId = entry.agentId)
    (htoken : entry'.token.permits canonicalize now requested = true →
      entry.token.permits canonicalize now requested = true)
    (hperm : permits canonicalize
      { registry with table := registry.table.insert k entry' } now h agentId requested = true) :
  registry.permits canonicalize now h agentId requested = true
  := by
  rw [permits_eq_true_iff] at hperm ⊢
  obtain ⟨found, hfound, howner, hfoun⟩ := hperm
  obtain ⟨rfl, rfl⟩ | ⟨-, hsame⟩ := Table.lookup_insert_eq_some hfound
  · exact ⟨entry, hlook, hagent.symm.trans howner, htoken hfoun⟩
  · exact ⟨found, hsame, howner, hfoun⟩

variable {now' : DateTime} {canonicalize' : Text → Option Text}

theorem permits_of_used {used : OwnedEntry}
    {agentId' : AgentId} {requested' : Capability} (hlook : registry.table.lookup k = some entry)
    (hok : entry.authorizeAndRecord canonicalize' now' agentId' requested' = .ok used)
    (hperm : permits canonicalize
      { registry with table := registry.table.insert k used } now h agentId requested = true) :
  registry.permits canonicalize now h agentId requested = true
  := by
  obtain ⟨-, hused, rfl⟩ := OwnedEntry.authorizeAndRecord_eq_ok hok
  apply permits_of_replaced hlook _ _ hperm
  · rfl
  · apply permits_of_recordUse
    apply not_isExhausted_of_permits hused

/-- A handle permits only what it permitted before a use was checked. -/
theorem permits_of_authorizeAndRecord {agentId' : AgentId}
    {requested' : Capability}
    (hperm : (registry.authorizeAndRecord canonicalize' now' k agentId' requested').1.permits
      canonicalize now h agentId requested = true) :
  registry.permits canonicalize now h agentId requested = true
  := by
  unfold authorizeAndRecord at hperm
  cases hlook : registry.table.lookup k with
  | none =>
    rw [hlook] at hperm
    apply hperm
  | some entry =>
    rw [hlook] at hperm
    dsimp only at hperm
    split at hperm
    · apply hperm
    case h_2 used hok => apply permits_of_used hlook hok hperm

theorem permits_of_le (hle : now ≤ now')
    (hperm : registry.permits canonicalize now' h agentId requested = true) :
  registry.permits canonicalize now h agentId requested = true
  := by
  rw [permits_eq_true_iff] at hperm ⊢
  obtain ⟨entry, hlook, howner, hperm⟩ := hperm
  exact ⟨entry, hlook, howner, CapabilityToken.permits_of_le hle hperm⟩

theorem authorizeAndRecord_eq_ok
    (hperm : registry.permits canonicalize now h agentId requested = true) :
  (registry.authorizeAndRecord canonicalize now h agentId requested).2 = .ok ()
  := by
  obtain ⟨entry, hlook, howner, hperm⟩ := (permits_eq_true_iff registry).mp hperm
  unfold authorizeAndRecord OwnedEntry.authorizeAndRecord
  rw [hlook]
  simp [howner, hperm]

end Permits

theorem narrowWithCapability_cases (canonicalize : Text → Option Text) (id : Uuid)
    (parentHandle : CapabilityHandle) (parentAgent childAgent : AgentId)
    (capability : Capability) (additional : Constraints) :
  (registry.narrowWithCapability canonicalize id parentHandle parentAgent childAgent capability
      additional).1 = registry
    ∨ ∃ token : CapabilityToken, token.capability = capability
      ∧ (registry.narrowWithCapability canonicalize id parentHandle parentAgent childAgent
        capability additional).1 = (registry.insert childAgent token).1
  := by
  unfold narrowWithCapability
  cases hnar : (registry.table.lookup parentHandle).bind (fun entry =>
      entry.narrowWithCapability canonicalize id parentAgent childAgent capability additional) with
  | none =>
    left
    rfl
  | some narrowed =>
    right
    refine ⟨narrowed, ?_, rfl⟩
    obtain ⟨entry, -, hentry⟩ := Option.bind_eq_some_iff.mp hnar
    unfold OwnedEntry.narrowWithCapability CapabilityToken.narrowWithCapability at hentry
    split_ifs at hentry
    cases hentry
    rfl

@[simp]
theorem lookup_publish (tokenIds : List Uuid) (h : CapabilityHandle) :
  (registry.publish tokenIds).table.lookup h = registry.table.lookup h
  := rfl

theorem lookup_revokeLoop (selected : OwnedEntry → Bool) (clock : CapabilityHandle → DateTime)
    (h : CapabilityHandle) :
  (registry.revokeLoop selected clock).1.table.lookup h
    = (registry.table.lookup h).map (OwnedEntry.swept selected (clock h))
  := by
  simp [revokeLoop]

theorem lookup_revoke (clock : CapabilityHandle → DateTime) (tokenId : Uuid)
    (h : CapabilityHandle) :
  (registry.revoke clock tokenId).1.table.lookup h
    = (registry.table.lookup h).map (OwnedEntry.swept (OwnedEntry.hasTokenId tokenId) (clock h))
  := by
  rw [← lookup_revokeLoop]
  simp only [revoke]
  split_ifs
  · rfl
  · apply lookup_publish

end Table

end CapabilityRegistry
