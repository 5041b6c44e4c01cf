import AaOS.Core.Glob
import AaOS.Core.Json

/-!
# Capability tokens

`aaos-core/src/capability.rs`: capabilities, the constraints a token carries and the tokens,
with the checks a token makes on a request and the ways a token is narrowed.  The clock, the
canonicalisation of paths and the identifiers that `Uuid::new_v4` draws are arguments.
-/

/-- The identifier of a token. -/
abbrev Uuid : Type := Nat

/-- A moment of `Utc::now`. -/
abbrev DateTime : Type := Int

/-- The identifier of an agent. -/
structure AgentId where
  uuid : Uuid
deriving DecidableEq, Repr

/-- An opaque handle to a token held by a capability registry. -/
structure CapabilityHandle where
  raw : UInt64
deriving DecidableEq, Repr

inductive CapabilityDenied where
  | unknownHandle
  | wrongAgent
  | notPermitted
  | exhausted
  | revoked
deriving DecidableEq, Repr

inductive FileAccess where
  | read
  | write
deriving DecidableEq, Repr

/-- A permission that can be granted to an agent. -/
inductive Capability where
  | fileRead (pathGlob : Text)
  | fileWrite (pathGlob : Text)
  | webSearch
  | networkAccess (hosts : List Text)
  | spawnChild (allowedAgents : List Text)
  | toolInvoke (toolName : Text)
  | messageSend (targetAgents : List Text)
  | cargoRun (workspace : Text)
  | gitCommit (workspace : Text)
  | custom (name : Text) (params : Json)

structure RateLimit where
  maxPerMinute : UInt32
deriving DecidableEq, Repr

/-- The constraints of a token. -/
structure Constraints where
  maxInvocations : Option UInt64 := none
  rateLimit : Option RateLimit := none
deriving DecidableEq, Repr

/-- A token granting a capability to an agent. -/
structure CapabilityToken where
  id : Uuid
  agentId : AgentId
  capability : Capability
  constraints : Constraints
  issuedAt : DateTime
  expiresAt : Option DateTime
  revokedAt : Option DateTime
  invocationCount : UInt64

namespace CapabilityToken

/-- A new token for an agent. -/
def issue (id : Uuid) (now : DateTime) (agentId : AgentId) (capability : Capability)
    (constraints : Constraints) : CapabilityToken where
  id := id
  agentId := agentId
  capability := capability
  constraints := constraints
  issuedAt := now
  expiresAt := none
  revokedAt := none
  invocationCount := 0

def isExpired (token : CapabilityToken) (now : DateTime) : Bool :=
  token.expiresAt.any (fun exp => now > exp)

/-- The token has been revoked. -/
def isRevoked (token : CapabilityToken) : Bool := token.revokedAt.isSome

def isExhausted (token : CapabilityToken) : Bool :=
  token.constraints.maxInvocations.any (fun max => token.invocationCount ≥ max)

section Matching

variable (canonicalize : Text → Option Text)

def capabilityMatches (token : CapabilityToken) (requested : Capability) : Bool :=
  match token.capability, requested with
  | .fileRead granted, .fileRead req => globMatches canonicalize granted req
  | .fileWrite granted, .fileWrite req => globMatches canonicalize granted req
  | .webSearch, .webSearch => true
  | .networkAccess granted, .networkAccess req =>
    if granted.any (· == ['*']) then true else req.all (fun h => granted.contains h)
  | .spawnChild granted, .spawnChild req =>
    if granted.any (· == ['*']) then true else req.all (fun a => granted.contains a)
  | .toolInvoke granted, .toolInvoke req => granted == req || granted == ['*']
  | .messageSend granted, .messageSend req =>
    req.all (fun a => granted.any (fun g => g == ['*'] || g == a))
  | .cargoRun granted, .cargoRun req => globMatches canonicalize granted req
  | .gitCommit granted, .gitCommit req => globMatches canonicalize granted req
  | .custom gn _, .custom rn _ => gn == rn
  | _, _ => false

def permits (token : CapabilityToken) (now : DateTime) (requested : Capability) : Bool :=
  if token.isExpired now || token.isRevoked then false
  else if token.isExhausted then false
  else token.capabilityMatches canonicalize requested

variable {canonicalize} {token : CapabilityToken} {now : DateTime} {requested : Capability}

theorem permits_eq_true_iff :
  token.permits canonicalize now requested = true
    ↔ token.isExpired now = false ∧ token.isRevoked = false ∧ token.isExhausted = false
      ∧ token.capabilityMatches canonicalize requested = true
  := by
  unfold permits
  cases token.isExpired now <;> cases token.isRevoked <;> cases token.isExhausted <;> simp

theorem not_isRevoked_of_permits (hperm : token.permits canonicalize now requested = true) :
  token.isRevoked = false
  := (permits_eq_true_iff.mp hperm).2.1

theorem not_isExhausted_of_permits (hperm : token.permits canonicalize now requested = true) :
  token.isExhausted = false
  := (permits_eq_true_iff.mp hperm).2.2.1

theorem capabilityMatches_of_permits (hperm : token.permits canonicalize now requested = true) :
  token.capabilityMatches canonicalize requested = true
  := (permits_eq_true_iff.mp hperm).2.2.2

theorem permits_of_le {now' : DateTime} (hle : now ≤ now')
    (hperm : token.permits canonicalize now' requested = true) :
  token.permits canonicalize now requested = true
  := by
  rw [permits_eq_true_iff] at hperm ⊢
  refine ⟨?_, hperm.2⟩
  have hlive := hperm.1
  unfold isExpired at hlive ⊢
  cases hexp : token.expiresAt with
  | none => rfl
  | some expiry =>
    simp only [hexp, Option.any_some, decide_eq_false_iff_not, gt_iff_lt] at hlive ⊢
    intro hlate
    apply hlive (Int.lt_of_lt_of_le hlate hle)

end Matching

def canonicalFileMatches (token : CapabilityToken) (kind : FileAccess) (canonical : Text) :
    Bool :=
  match kind, token.capability with
  | .read, .fileRead pathGlob => globMatchesCanonical pathGlob canonical
  | .write, .fileWrite pathGlob => globMatchesCanonical pathGlob canonical
  | _, _ => false

def permitsCanonicalFile (token : CapabilityToken) (now : DateTime) (kind : FileAccess)
    (canonical : Text) : Bool :=
  if token.isExpired now || token.isRevoked then false
  else if token.isExhausted then false
  else token.canonicalFileMatches kind canonical

def recordUse (token : CapabilityToken) : CapabilityToken × Bool :=
  let used := { token with invocationCount := token.invocationCount + 1 }
  (used, used.constraints.maxInvocations.all (fun max => used.invocationCount ≤ max))

theorem permits_of_recordUse {canonicalize : Text → Option Text} {token : CapabilityToken}
    {now : DateTime} {requested : Capability} (hexh : token.isExhausted = false)
    (hperm : token.recordUse.1.permits canonicalize now requested = true) :
  token.permits canonicalize now requested = true
  := by
  obtain ⟨hexp, hrev, -, hmatch⟩ := permits_eq_true_iff.mp hperm
  exact permits_eq_true_iff.mpr ⟨hexp, hrev, hexh, hmatch⟩

def tighten (constraints additional : Constraints) : Constraints where
  maxInvocations :=
    match additional.maxInvocations with
    | some max => some (constraints.maxInvocations.elim max (fun existing => min existing max))
    | none => constraints.maxInvocations
  rateLimit :=
    match additional.rateLimit with
    | some rate =>
      some (constraints.rateLimit.elim rate
        (fun existing => ⟨min existing.maxPerMinute rate.maxPerMinute⟩))
    | none => constraints.rateLimit

def narrowWithCapability (canonicalize : Text → Option Text) (token : CapabilityToken)
    (id : Uuid) (childAgent : AgentId) (childCapability : Capability)
    (additional : Constraints) : Option CapabilityToken :=
  if token.capabilityMatches canonicalize childCapability then
    some { token with
      id := id
      agentId := childAgent
      capability := childCapability
      invocationCount := 0
      constraints := tighten token.constraints additional }
  else none

def narrow (token : CapabilityToken) (id : Uuid) (additional : Constraints) :
    CapabilityToken :=
  { token with id := id, constraints := tighten token.constraints additional }

end CapabilityToken
