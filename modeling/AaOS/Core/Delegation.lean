import AaOS.Core.Capability
import AaOS.Core.GlobCover

/-!
# Delegation of capabilities

When a token is narrowed, the more specific capability is tested as if it were a request.  This is
right for hosts, agents and tools, and for path globs exactly when the granted glob covers the
requested one.  The constraints and the expiry are always at least as strict.
-/

open Path

/-- A limit is at least as strict as another one, where the absence of a limit is the
weakest limit. -/
def StricterLimit {α : Type} [LE α] (child parent : Option α) : Prop :=
  ∀ p ∈ parent, ∃ c ∈ child, c ≤ p

section StricterLimit

variable {α : Type} [LE α] [Std.Refl (α := α) (· ≤ ·)]

theorem StricterLimit.refl (limit : Option α) :
  StricterLimit limit limit
  := by
  intro p hp
  use p, hp
  apply Std.le_refl

theorem StricterLimit.elim_min [Min α] [Std.LawfulOrderInf α] (limit : Option α) (additional : α) :
  StricterLimit (some (limit.elim additional (fun existing => min existing additional))) limit
  := by
  rintro existing rfl
  use min existing additional, rfl
  apply Std.min_le_left

end StricterLimit

namespace CapabilityToken

section NeverWidens

variable (fs : Canonicalizer) (parent : CapabilityToken) (id : Uuid) (childAgent : AgentId)
  (childCapability : Capability) (additional : Constraints)

structure MatchesLess (child : CapabilityToken) : Prop where
  request : ∀ requested, child.capabilityMatches fs.run requested = true →
    parent.capabilityMatches fs.run requested = true
  canonicalFile : ∀ kind path canonical, fs.run path = some canonical →
    child.canonicalFileMatches kind canonical = true →
    parent.canonicalFileMatches kind canonical = true

/-- The limits and the expiry of `child` are at least as strict as those of `parent`. -/
structure LimitedMore (child : CapabilityToken) : Prop where
  maxInvocations : StricterLimit child.constraints.maxInvocations
    parent.constraints.maxInvocations
  rateLimit : StricterLimit (child.constraints.rateLimit.map RateLimit.maxPerMinute)
    (parent.constraints.rateLimit.map RateLimit.maxPerMinute)
  expiresAt : StricterLimit child.expiresAt parent.expiresAt

/-- Narrowing the token with a capability and additional constraints does not widen
it. -/
def NeverWidens : Prop :=
  ∀ child ∈ parent.narrowWithCapability fs.run id childAgent childCapability additional,
    MatchesLess fs parent child ∧ LimitedMore parent child

end NeverWidens

/-! ### Constraints -/

theorem tighten_maxInvocations (constraints additional : Constraints) :
  StricterLimit (tighten constraints additional).maxInvocations constraints.maxInvocations
  := by
  cases ha : additional.maxInvocations with
  | none =>
    simp only [tighten, ha]
    apply StricterLimit.refl
  | some max =>
    simp only [tighten, ha]
    apply StricterLimit.elim_min

theorem tighten_rateLimit (constraints additional : Constraints) :
  StricterLimit ((tighten constraints additional).rateLimit.map RateLimit.maxPerMinute)
    (constraints.rateLimit.map RateLimit.maxPerMinute)
  := by
  cases ha : additional.rateLimit with
  | none =>
    simp only [tighten, ha]
    apply StricterLimit.refl
  | some rate =>
    simp only [tighten, ha]
    have h := StricterLimit.elim_min (constraints.rateLimit.map RateLimit.maxPerMinute)
      rate.maxPerMinute
    cases hlimit : constraints.rateLimit with
    | none | some limit => simpa [hlimit] using h

/-! ### Capabilities without a glob -/

section Lists

variable {granted req names : List Text}

theorem contains_trans
    (hreq : (if granted.any (· == ['*']) then true
      else req.all (fun h => granted.contains h)) = true)
    (hnames : (if req.any (· == ['*']) then true
      else names.all (fun h => req.contains h)) = true) :
  (if granted.any (· == ['*']) then true
    else names.all (fun h => granted.contains h)) = true
  := by
  simp only [List.any_beq', Bool.if_true_left, Bool.or_eq_true, List.contains_iff_mem,
    List.all_eq_true, decide_eq_true_eq] at hreq hnames ⊢
  obtain hstar | hreq := hreq
  · left
    exact hstar
  · obtain hstar | hnames := hnames
    · left
      exact hreq _ hstar
    · right
      intro name hname
      exact hreq name (hnames name hname)

theorem any_trans (hreq : req.all (fun a => granted.any (fun g => g == ['*'] || g == a)) = true)
    (hnames : names.all (fun a => req.any (fun g => g == ['*'] || g == a)) = true) :
  names.all (fun a => granted.any (fun g => g == ['*'] || g == a)) = true
  := by
  simp only [List.all_eq_true, List.any_eq_true, Bool.or_eq_true, beq_iff_eq] at hreq hnames ⊢
  intro a ha
  obtain ⟨g, hg, rfl | rfl⟩ := hnames a ha
  · obtain ⟨g', hg', h | h⟩ := hreq _ hg
    all_goals exact ⟨g', hg', .inl h⟩
  · exact hreq g hg

end Lists

/-! ### Delegation -/

/-- The globs of two capabilities of one kind cover each other; nothing is asked of others. -/
def Covers : Capability → Capability → Prop
  | .fileRead granted, .fileRead requested => GlobCovers granted requested
  | .fileWrite granted, .fileWrite requested => GlobCovers granted requested
  | .cargoRun granted, .cargoRun requested => GlobCovers granted requested
  | .gitCommit granted, .gitCommit requested => GlobCovers granted requested
  | _, _ => True

section Delegation

variable (fs : Canonicalizer)

theorem globMatches_of_covers {granted req s : Text} (hcover : GlobCovers granted req)
    (hnarr : globMatches fs.run granted req = true) (h : globMatches fs.run req s = true) :
  globMatches fs.run granted s = true
  := globNarrows_of_globCovers fs hcover hnarr s h

theorem capabilityMatches_of_covers {parent child : CapabilityToken}
    (hcover : Covers parent.capability child.capability)
    (hnarr : parent.capabilityMatches fs.run child.capability = true) {requested : Capability}
    (h : child.capabilityMatches fs.run requested = true) :
  parent.capabilityMatches fs.run requested = true
  := by
  unfold capabilityMatches at hnarr h ⊢
  cases hpar : parent.capability <;> cases hchild : child.capability <;>
    simp only [hpar, hchild, Bool.false_eq_true] at hnarr h <;>
    cases requested <;> simp only [Bool.false_eq_true] at h
  case fileRead.fileRead.fileRead =>
    rw [hpar, hchild] at hcover
    exact globMatches_of_covers fs hcover hnarr h
  case fileWrite.fileWrite.fileWrite =>
    rw [hpar, hchild] at hcover
    exact globMatches_of_covers fs hcover hnarr h
  case webSearch.webSearch.webSearch => rfl
  case networkAccess.networkAccess.networkAccess => exact contains_trans hnarr h
  case spawnChild.spawnChild.spawnChild => exact contains_trans hnarr h
  case toolInvoke.toolInvoke.toolInvoke =>
    simp only [Bool.or_eq_true, beq_iff_eq] at hnarr h ⊢
    grind
  case messageSend.messageSend.messageSend => exact any_trans hnarr h
  case cargoRun.cargoRun.cargoRun =>
    rw [hpar, hchild] at hcover
    exact globMatches_of_covers fs hcover hnarr h
  case gitCommit.gitCommit.gitCommit =>
    rw [hpar, hchild] at hcover
    exact globMatches_of_covers fs hcover hnarr h
  case custom.custom.custom =>
    rw [beq_iff_eq] at hnarr h ⊢
    rw [hnarr, h]

def fileRequest (kind : FileAccess) (path : Text) : Capability :=
  match kind with
  | .read => .fileRead path
  | .write => .fileWrite path

theorem canonicalFileMatches_eq {path canonical : Text} (h : fs.run path = some canonical)
    (token : CapabilityToken) (kind : FileAccess) :
  token.canonicalFileMatches kind canonical
    = token.capabilityMatches fs.run (fileRequest kind canonical)
  := by
  have hform : canonicalForMatch fs.run canonical = canonical := by
    obtain ⟨y, -, rfl⟩ := fs.canonical h
    apply canonicalForMatch_of_some
    rw [resolve_text]
    exact fs.idempotent h
  unfold canonicalFileMatches capabilityMatches
  cases kind with
  | read | write => cases token.capability <;> simp [fileRequest, globMatches, hform]

theorem matchesLess_of_covers {parent child : CapabilityToken}
    (hcover : Covers parent.capability child.capability)
    (hnarr : parent.capabilityMatches fs.run child.capability = true) :
  MatchesLess fs parent child
  := by
  constructor
  · intro requested h
    exact capabilityMatches_of_covers fs hcover hnarr h
  · intro kind path canonical hcan h
    rw [canonicalFileMatches_eq fs hcan] at h ⊢
    exact capabilityMatches_of_covers fs hcover hnarr h

variable (parent : CapabilityToken) (id : Uuid) (childAgent : AgentId)
  (childCapability : Capability) (additional : Constraints)

theorem neverWidens_of_covers (h : Covers parent.capability childCapability) :
  NeverWidens fs parent id childAgent childCapability additional
  := by
  intro child hchild
  rw [narrowWithCapability, Option.mem_def, Option.ite_none_right_eq_some] at hchild
  obtain ⟨hnarr, hchild⟩ := hchild
  obtain rfl := Option.some.inj hchild
  constructor
  · exact matchesLess_of_covers fs h hnarr
  · constructor
    · apply tighten_maxInvocations
    · apply tighten_rateLimit
    · apply StricterLimit.refl

theorem globCovers_of_neverWidens (request : Text → Capability) {granted req : Text}
    (hpar : ∀ fs : Canonicalizer, ∀ s,
      parent.capabilityMatches fs.run (request s) = globMatches fs.run granted s)
    (hchild : ∀ fs : Canonicalizer, ∀ (child : CapabilityToken) s, child.capability = request req →
      child.capabilityMatches fs.run (request s) = globMatches fs.run req s)
    (h : ∀ fs, NeverWidens fs parent id childAgent (request req) additional) :
  GlobCovers granted req
  := by
  rw [← globNarrows_iff_globCovers]
  intro fs hnarr s hs
  obtain ⟨hless, -⟩ := h fs _ (by
    rw [narrowWithCapability, hpar, if_pos hnarr]
    rfl)
  rw [← hpar]
  apply hless.request
  rw [hchild]
  · exact hs
  · rfl

/-- On every file system, narrowing a token does not widen it exactly when its own capability covers
the new one. -/
theorem neverWidens_iff_covers :
  (∀ fs, NeverWidens fs parent id childAgent childCapability additional)
    ↔ Covers parent.capability childCapability
  := by
  constructor
  · intro h
    unfold Covers
    split
    case h_1 granted requested hpar =>
      apply globCovers_of_neverWidens parent id childAgent additional .fileRead _ _ h
      · simp [capabilityMatches, hpar]
      · simp +contextual [capabilityMatches]
    case h_2 granted requested hpar =>
      apply globCovers_of_neverWidens parent id childAgent additional .fileWrite _ _ h
      · simp [capabilityMatches, hpar]
      · simp +contextual [capabilityMatches]
    case h_3 granted requested hpar =>
      apply globCovers_of_neverWidens parent id childAgent additional .cargoRun _ _ h
      · simp [capabilityMatches, hpar]
      · simp +contextual [capabilityMatches]
    case h_4 granted requested hpar =>
      apply globCovers_of_neverWidens parent id childAgent additional .gitCommit _ _ h
      · simp [capabilityMatches, hpar]
      · simp +contextual [capabilityMatches]
    case h_5 => trivial
  · intro h fs
    exact neverWidens_of_covers fs parent id childAgent childCapability additional h

end Delegation

/-- A token for `/data/sub/*` is widened by narrowing it to `/data/sub/..*`, which accepts
`/data/secret`. -/
theorem widens_dotdot :
  ¬ NeverWidens Canonicalizer.empty
      (issue 1 0 ⟨1⟩ (.fileRead "/data/sub/*".toList) {}) 2 ⟨2⟩
      (.fileRead "/data/sub/..*".toList) {}
  := by
  intro h
  obtain ⟨hless, -⟩ := h _ rfl
  have hsec := hless.request (.fileRead "/data/secret") (by decide)
  exact absurd hsec (by decide)

end CapabilityToken
