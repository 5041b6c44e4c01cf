import AaOS.Worker.AgentLoop

/-!
# Revocation in a worker session

A revocation is final for the tokens that were forwarded before it.  A token that is first
forwarded after its revocation is put into the registry unmarked, because the revocation of a token
that is not there leaves no trace.
-/

open CapabilityToken OwnedEntry

def InvocationContext.Honors (ctx : InvocationContext) (tokenId : Uuid) : Prop :=
  ∃ h ∈ ctx.tokens, ctx.capabilityRegistry.tokenIdOf h = some tokenId
    ∧ ((∃ canonicalize now requested,
        ctx.capabilityRegistry.permits canonicalize now h ctx.agentId requested = true)
      ∨ ∃ now kind canonical,
        ctx.capabilityRegistry.permitsCanonicalFile now h ctx.agentId kind canonical = true)

/-- The line forwards a token with the given identifier to a tool the worker runs. -/
def Forwards (tokenId : Uuid) (line : Line) : Prop :=
  ∃ id toolName input tokens, line.2 = some ⟨id, .invokeTool toolName input tokens⟩
    ∧ toolName ∈ workerSideTools ∧ ∃ token ∈ tokens, token.id = tokenId

/-- After the lines `pre` and a revocation of the token, no tool runs in a context that honors the
token. -/
def RevocationFinal (agentId : AgentId) (pre : List Line) (tokenId : Uuid) : Prop :=
  ∀ session, sessionAfter agentId Session.new pre = some session →
    ∀ env id post reaction,
      reaction ∈ agentLoop agentId session ((env, some ⟨id, .revokeToken tokenId⟩) :: post) →
      ∀ ctx ∈ reaction.context, ¬ ctx.Honors tokenId

section Revocation

variable (agentId : AgentId) (tokenId : Uuid)

/-! ### The tokens of a session -/

theorem mem_mergeToken (session : Session) (token : CapabilityToken) :
  tokenId ∈ (mergeToken agentId session token).1.tokenHandleMap
    ↔ tokenId ∈ session.tokenHandleMap ∨ token.id = tokenId
  := by
  unfold mergeToken
  split
  · rename_i h hlook
    have hmem : token.id ∈ session.tokenHandleMap := by
      rw [← AList.lookup_isSome, hlook]
      rfl
    constructor
    · exact .inl
    · rintro (hold | rfl)
      · exact hold
      · exact hmem
  · rw [AList.mem_insert, or_comm, eq_comm]

theorem mem_mergeTokens (session : Session) (tokens : List CapabilityToken) :
  tokenId ∈ (mergeTokens agentId session tokens).1.tokenHandleMap
    ↔ tokenId ∈ session.tokenHandleMap ∨ ∃ token ∈ tokens, token.id = tokenId
  := by
  induction tokens generalizing session with
  | nil => simp [mergeTokens]
  | cons token tokens ih =>
    simp only [mergeTokens, ih, mem_mergeToken, List.exists_mem_cons_iff, or_assoc]

/-! ### What a request does -/

variable {session : Session}

theorem dispatch_cases {env : Environment} {req : WireRequest} {reaction : Reaction}
    (h : dispatch agentId env session req = some reaction) :
  (reaction.session = session ∧ reaction.context = none ∧ ∀ t, ¬ Forwards t (env, some req))
    ∨ (∃ t, req.request = .revokeToken t
      ∧ reaction.session = { session with registry := (session.registry.revoke env.clock t).1 }
      ∧ reaction.context = none)
    ∨ ∃ toolName input tokens, req.request = .invokeTool toolName input tokens
      ∧ toolName ∈ workerSideTools
      ∧ reaction.session = (mergeTokens agentId session tokens).1
      ∧ reaction.context = some ⟨agentId, (mergeTokens agentId session tokens).2,
          (mergeTokens agentId session tokens).1.registry⟩
  := by
  obtain ⟨id, request⟩ := req
  cases request with
  | ping nonce | other =>
    left
    cases h
    simp [Forwards]
  | poke op =>
    left
    obtain ⟨response, -, rfl⟩ := Option.map_eq_some_iff.mp h
    simp [Forwards]
  | invokeTool toolName input tokens =>
    simp only [dispatch] at h
    split_ifs at h with havail
    · right
      right
      cases h
      exact ⟨toolName, input, tokens, rfl, havail, rfl, rfl⟩
    · left
      cases h
      simp [Forwards, havail]
  | revokeToken t =>
    right
    left
    cases h
    exact ⟨t, rfl, rfl, rfl⟩

theorem mem_dispatch {env : Environment} {req : WireRequest} {reaction : Reaction}
    (h : dispatch agentId env session req = some reaction) :
  tokenId ∈ reaction.session.tokenHandleMap
    ↔ tokenId ∈ session.tokenHandleMap ∨ Forwards tokenId (env, some req)
  := by
  obtain ⟨id, request⟩ := req
  obtain ⟨hsess, -, hfor⟩ | ⟨t, rfl, hsess, -⟩
    | ⟨toolName, input, tokens, rfl, havail, hsess, -⟩ := dispatch_cases agentId h
  · simp [hsess, hfor]
  · simp [hsess, Forwards]
  · rw [hsess, mem_mergeTokens]
    simp [Forwards, havail]

theorem mem_sessionAfter {session' : Session} {lines : List Line}
    (h : sessionAfter agentId session lines = some session') :
  tokenId ∈ session'.tokenHandleMap
    ↔ tokenId ∈ session.tokenHandleMap ∨ ∃ line ∈ lines, Forwards tokenId line
  := by
  induction lines generalizing session with
  | nil =>
    cases h
    simp
  | cons line lines ih =>
    obtain ⟨env, _ | req⟩ := line
    · rw [ih h]
      simp [Forwards]
    · rw [sessionAfter] at h
      split at h
      · cases h
      · rename_i reaction hreact
        rw [ih h, mem_dispatch agentId tokenId hreact, List.exists_mem_cons_iff, or_assoc]

/-! ### Revoked tokens -/

structure Finalized (session : Session) : Prop where
  known : tokenId ∈ session.tokenHandleMap
  revoked : ∀ h entry, session.registry.table.lookup h = some entry →
    entry.token.id = tokenId → entry.token.isRevoked = true

theorem finalized_revoke (hknown : tokenId ∈ session.tokenHandleMap)
    (clock : CapabilityHandle → DateTime) :
  Finalized tokenId { session with registry := (session.registry.revoke clock tokenId).1 }
  := by
  use hknown
  intro h entry hentry hid
  rw [CapabilityRegistry.lookup_revoke, Option.map_eq_some_iff] at hentry
  obtain ⟨old, -, rfl⟩ := hentry
  rw [swept_id] at hid
  simp [isRevoked_swept, hasTokenId, hid]

section Preserved

variable {tokenId} {session : Session}

variable (hfinal : Finalized tokenId session)

include hfinal

theorem Finalized.of_revoke (clock : CapabilityHandle → DateTime) (t : Uuid) :
  Finalized tokenId { session with registry := (session.registry.revoke clock t).1 }
  := by
  use hfinal.known
  intro h entry hentry hid
  rw [CapabilityRegistry.lookup_revoke, Option.map_eq_some_iff] at hentry
  obtain ⟨old, hold, rfl⟩ := hentry
  rw [swept_id] at hid
  simp [isRevoked_swept, hfinal.revoked h old hold hid]

theorem Finalized.of_mergeToken (token : CapabilityToken) :
  Finalized tokenId (mergeToken agentId session token).1
  := by
  constructor
  · rw [mem_mergeToken]
    exact .inl hfinal.known
  · unfold mergeToken
    split
    · exact hfinal.revoked
    · rename_i hnone
      intro h entry hentry hid
      rw [CapabilityRegistry.lookup_insert] at hentry
      split_ifs at hentry
      · cases hentry
        rw [AList.lookup_eq_none, hid] at hnone
        exact (hnone hfinal.known).elim
      · exact hfinal.revoked h entry hentry hid

theorem Finalized.of_mergeTokens (tokens : List CapabilityToken) :
  Finalized tokenId (mergeTokens agentId session tokens).1
  := by
  induction tokens generalizing session with
  | nil => exact hfinal
  | cons token tokens ih => exact ih (hfinal.of_mergeToken agentId token)

theorem Finalized.of_dispatch {env : Environment} {req : WireRequest} {reaction : Reaction}
    (h : dispatch agentId env session req = some reaction) :
  Finalized tokenId reaction.session
  := by
  obtain ⟨hsess, -⟩ | ⟨t, -, hsess, -⟩ | ⟨_, _, tokens, -, -, hsess, -⟩ := dispatch_cases agentId h
  · rwa [hsess]
  · rw [hsess]
    exact hfinal.of_revoke env.clock t
  · rw [hsess]
    exact hfinal.of_mergeTokens agentId tokens

theorem Finalized.not_honors (handles : List CapabilityHandle) :
  ¬ InvocationContext.Honors ⟨agentId, handles, session.registry⟩ tokenId
  := by
  rintro ⟨h, -, hid, hperm⟩
  obtain ⟨entry, hentry, hid⟩ := Option.map_eq_some_iff.mp hid
  have hrev := hfinal.revoked h entry hentry hid
  obtain ⟨canonicalize, now, requested, hperm⟩ | ⟨now, kind, canonical, hperm⟩ := hperm
  · simp [CapabilityRegistry.permits, hentry, permits, hrev] at hperm
  · simp [CapabilityRegistry.permitsCanonicalFile, hentry, permitsCanonicalFile, hrev] at hperm

theorem Finalized.of_agentLoop {lines : List Line} {reaction : Reaction}
    (h : reaction ∈ agentLoop agentId session lines) :
  ∀ ctx ∈ reaction.context, ¬ ctx.Honors tokenId
  := by
  induction lines generalizing session with
  | nil => cases h
  | cons line lines ih =>
    obtain ⟨env, _ | req⟩ := line
    · exact ih hfinal h
    · rw [agentLoop] at h
      split at h
      · cases h
      · rename_i first hfirst
        have hnext := hfinal.of_dispatch agentId hfirst
        obtain rfl | hlater := List.mem_cons.mp h
        · intro ctx hctx
          obtain ⟨-, hnone, -⟩ | ⟨t, -, -, hnone⟩ | ⟨_, _, tokens, -, -, hsess, hsome⟩ :=
            dispatch_cases agentId hfirst
          · simp [hnone] at hctx
          · simp [hnone] at hctx
          · rw [hsome, Option.mem_some_iff] at hctx
            rw [← hctx, ← hsess]
            exact hnext.not_honors agentId _
        · exact ih hnext hlater

end Preserved

/-! ### Unknown tokens -/

theorem honors_of_unknown (session : Session) (hunkn : tokenId ∉ session.tokenHandleMap) :
  InvocationContext.Honors
    ⟨agentId,
      (mergeTokens agentId session [issue tokenId 0 agentId .webSearch {}]).2,
      (mergeTokens agentId session
        [issue tokenId 0 agentId .webSearch {}]).1.registry⟩ tokenId
  := by
  have hnone : session.tokenHandleMap.lookup tokenId = none := by
    rwa [AList.lookup_eq_none]
  have hmerge : mergeToken agentId session (issue tokenId 0 agentId .webSearch {})
      = (⟨(session.registry.insert agentId (issue tokenId 0 agentId .webSearch {})).1,
          session.tokenHandleMap.insert tokenId ⟨session.registry.nextId⟩⟩,
        ⟨session.registry.nextId⟩) := by
    simp only [mergeToken, issue, hnone]
    rfl
  have hlook := session.registry.lookup_insert agentId
    (issue tokenId 0 agentId .webSearch {}) ⟨session.registry.nextId⟩
  rw [if_pos rfl] at hlook
  simp only [mergeTokens, hmerge]
  use ⟨session.registry.nextId⟩, .head _
  constructor
  · simp only [CapabilityRegistry.tokenIdOf, hlook]
    rfl
  · left
    use fun _ => none, 0, .webSearch
    simp only [CapabilityRegistry.permits, hlook]
    simp [permits, isExpired, isRevoked, isExhausted, capabilityMatches, issue]

theorem not_revocationFinal_of_unknown {pre : List Line}
    (hsess : sessionAfter agentId Session.new pre = some session)
    (hunkn : tokenId ∉ session.tokenHandleMap) :
  ¬ RevocationFinal agentId pre tokenId
  := by
  intro hfinal
  have env : Environment := ⟨fun _ => 0, .timedOut, true, .error []⟩
  have hhonor := honors_of_unknown agentId tokenId
    { session with registry := (session.registry.revoke env.clock tokenId).1 } hunkn
  exact hfinal session hsess env 0
    [(env, some ⟨1, .invokeTool "echo" .null
      [issue tokenId 0 agentId .webSearch {}]⟩)]
    _ (.tail _ (.head _)) _ rfl hhonor

/-- The revocation of a token is final exactly when the worker was killed before it, or the token
was forwarded before it. -/
theorem revocationFinal_iff (pre : List Line) :
  RevocationFinal agentId pre tokenId
    ↔ sessionAfter agentId Session.new pre = none ∨ ∃ line ∈ pre, Forwards tokenId line
  := by
  constructor
  · intro hfinal
    by_contra! h
    obtain ⟨halive, hfor⟩ := h
    obtain ⟨session, hsess⟩ := Option.ne_none_iff_exists'.mp halive
    have hunkn : tokenId ∉ session.tokenHandleMap := by
      rw [mem_sessionAfter agentId tokenId hsess]
      rintro (hnew | ⟨line, hline, hfor'⟩)
      · exact AList.notMem_empty _ hnew
      · exact hfor line hline hfor'
    exact not_revocationFinal_of_unknown agentId tokenId hsess hunkn hfinal
  · rintro h session hsess env id post reaction hreact
    have hknown : tokenId ∈ session.tokenHandleMap := by
      rw [mem_sessionAfter agentId tokenId hsess]
      obtain hkill | hfor := h
      · rw [hsess] at hkill
        cases hkill
      · exact .inr hfor
    have hfinal := finalized_revoke tokenId hknown env.clock
    obtain rfl | hlater := List.mem_cons.mp hreact
    · simp
    · exact hfinal.of_agentLoop agentId hlater

end Revocation

/-- A token whose first forwarding comes after its revocation is honored. -/
theorem not_revocationFinal_nil :
  ¬ RevocationFinal ⟨1⟩ [] 7
  := by
  apply not_revocationFinal_of_unknown
  · rfl
  · apply AList.notMem_empty
