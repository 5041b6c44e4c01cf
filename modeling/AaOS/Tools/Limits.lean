import AaOS.Registry.Invariant
import AaOS.Tools.Invocation

/-!
# Limits on the use of tokens

The limit of a token counts the calls it was charged for.  The own checks record nothing, so the
limit is shown to bound the allowed operations of the tokens that no own check can be passed with,
which are neither those for files, hosts and workspaces nor those that can be delegated to a child.
-/

open List CapabilityRegistry WebFetchTool ToolInvocation Table Except

open Eff

/-- A token with a limit. -/
structure LimitedToken where
  token : CapabilityToken
  max : UInt64
  limited : token.constraints.maxInvocations = some max

/-- The token is held at the handle, no other handle holds its identifier, and no worker has a
token. -/
structure InvocationState.Holds (state : InvocationState) (h : CapabilityHandle)
    (agentId : AgentId) (token : CapabilityToken) : Prop where
  lookup : state.capabilityRegistry.table.lookup h = some ⟨agentId, token⟩
  unique : ∀ h' entry, state.capabilityRegistry.table.lookup h' = some entry →
    entry.token.id = token.id → h' = h
  fresh : ∀ a session, state.sessions a = some session → session = Session.new

/-- In every run of calls, the token allows at most as many operations as its limit says. -/
def LimitBinds (lowercase : Lowercase) (limited : LimitedToken) : Prop :=
  ∀ (config : ToolInvocation) (state : InvocationState) (h : CapabilityHandle)
    (agentId : AgentId) (calls : List Invocation),
    (∀ call ∈ calls, call.env.lowercase = lowercase) →
    state.Holds h agentId limited.token →
    config.allowedBy limited.token.id state calls ≤ limited.max.toNat

/-- The own check of some tool can be passed with the token. -/
def OwnCheckable (lowercase : Lowercase) (token : CapabilityToken) : Prop :=
  ∃ (canonicalizer : Canonicalizer) (now : DateTime) (asked : Demand),
    Raised lowercase asked ∧ token.meets canonicalizer.run now asked = true

/-! ### Copies of a token -/

/-- The token differs from another one in its count only, which is no smaller. -/
structure CopyOf (token current : CapabilityToken) : Prop where
  capability_eq : current.capability = token.capability
  constraints_eq : current.constraints = token.constraints
  expiresAt_eq : current.expiresAt = token.expiresAt
  revokedAt_eq : current.revokedAt = token.revokedAt
  count_le : token.invocationCount ≤ current.invocationCount

namespace CopyOf

variable {token current : CapabilityToken}

theorem refl (token : CapabilityToken) :
  CopyOf token token
  := ⟨rfl, rfl, rfl, rfl, UInt64.le_refl _⟩

theorem isExhausted (hcopy : CopyOf token current) (hleft : current.isExhausted = false) :
  token.isExhausted = false
  := by
  unfold CapabilityToken.isExhausted at hleft ⊢
  rw [hcopy.constraints_eq] at hleft
  cases hmax : token.constraints.maxInvocations with
  | none => rfl
  | some max =>
    simp only [hmax, Option.any_some, ge_iff_le, decide_eq_false_iff_not] at hleft ⊢
    intro hle
    apply hleft
    apply UInt64.le_trans hle hcopy.count_le

theorem meets (hcopy : CopyOf token current) {canonicalize : Text → Option Text} {now : DateTime}
    {asked : Demand} (hmeets : current.meets canonicalize now asked = true) :
  token.meets canonicalize now asked = true
  := by
  have hexp : current.isExpired now = token.isExpired now := by
    unfold CapabilityToken.isExpired
    rw [hcopy.expiresAt_eq]
  have hrev : current.isRevoked = token.isRevoked := by
    unfold CapabilityToken.isRevoked
    rw [hcopy.revokedAt_eq]
  cases asked
  all_goals
    simp only [CapabilityToken.meets, CapabilityToken.permitsCanonicalFile,
      CapabilityToken.canonicalFileMatches, CapabilityToken.permits,
      CapabilityToken.capabilityMatches, hcopy.capability_eq, hexp, hrev] at hmeets ⊢
    split_ifs at hmeets ⊢ with hdead hout hleft
    · rw [hcopy.isExhausted (Bool.eq_false_iff.mpr hleft)] at hout
      cases hout
    · apply hmeets

end CopyOf

variable {registry : CapabilityRegistry}

theorem exists_of_meets {canonicalize : Text → Option Text} {now : DateTime} {agentId : AgentId}
    {asked : Demand} {h : CapabilityHandle}
    (hmeets : registry.meets canonicalize now agentId asked h = true) :
  ∃ entry, registry.table.lookup h = some entry
    ∧ entry.token.meets canonicalize now asked = true
  := by
  cases hlook : registry.table.lookup h with
  | none =>
    cases asked <;> simp [meets, permitsCanonicalFile,
      permits, hlook] at hmeets
  | some entry =>
    use entry, rfl
    cases asked
    all_goals
      simp only [meets, permitsCanonicalFile, permits, hlook, ite_not] at hmeets
      split_ifs at hmeets
      exact hmeets

/-! ### The two checks -/

theorem ToolInvocation.charge_eq_ok {registry' : CapabilityRegistry} {call : Invocation}
    {g : CapabilityHandle} (hok : ToolInvocation.charge registry call = .ok (registry', g)) :
  ∃ entry, registry.table.lookup g = some entry ∧ entry.token.isExhausted = false
    ∧ registry' = { registry with
        table := registry.table.insert g { entry with token := entry.token.recordUse.1 } }
  := by
  simp only [ToolInvocation.charge] at hok
  split at hok
  · cases hok
  · rename_i handle hfind
    simp only [authorizeAndRecord] at hok
    cases hlook : registry.table.lookup handle with
    | none => simp [hlook] at hok
    | some entry =>
      simp only [hlook] at hok
      cases hused : entry.authorizeAndRecord call.env.canonicalizer.run call.env.now
          call.agentId (.toolInvoke call.toolName) with
      | error e => simp [hused] at hok
      | ok used =>
        obtain ⟨-, hperm, rfl⟩ := OwnedEntry.authorizeAndRecord_eq_ok hused
        simp only [hused, Except.ok.injEq, Prod.mk.injEq] at hok
        obtain ⟨rfl, rfl⟩ := hok
        exact ⟨entry, hlook, CapabilityToken.not_isExhausted_of_permits hperm, rfl⟩

theorem exists_of_mem_resolveTokens {now : DateTime} {handles : List CapabilityHandle}
    {agentId : AgentId} {token : CapabilityToken}
    (hmem : token ∈ registry.resolveTokens now handles agentId) :
  ∃ h entry, registry.table.lookup h = some entry ∧ entry.token = token
  := by
  obtain ⟨h, -, hsome⟩ := mem_filterMap.mp hmem
  cases hlook : registry.table.lookup h with
  | none => simp [hlook] at hsome
  | some entry =>
    simp only [hlook] at hsome
    split_ifs at hsome
    exact ⟨h, entry, hlook, Option.some.inj hsome⟩

section Tracking

variable {token : CapabilityToken}

def Copies (token : CapabilityToken) (registry : CapabilityRegistry) : Prop :=
  ∀ h entry, registry.table.lookup h = some entry → entry.token.id = token.id →
    CopyOf token entry.token

theorem Copies.of_mergeToken {session : Session} (hcopy : Copies token session.registry)
    (agentId : AgentId) {forwarded : CapabilityToken}
    (hfor : forwarded.id = token.id → CopyOf token forwarded) :
  Copies token (mergeToken agentId session forwarded).1.registry
  := by
  unfold mergeToken
  split
  · apply hcopy
  · intro h entry hlook hid
    obtain ⟨-, rfl⟩ | ⟨-, hlook⟩ := lookup_insert_eq_some hlook
    · apply hfor hid
    · apply hcopy h entry hlook hid

theorem Copies.of_mergeTokens {session : Session} (hcopy : Copies token session.registry)
    (agentId : AgentId) {tokens : List CapabilityToken}
    (htoken : ∀ forwarded ∈ tokens, forwarded.id = token.id → CopyOf token forwarded) :
  Copies token (mergeTokens agentId session tokens).1.registry
  := by
  induction tokens generalizing session with
  | nil => apply hcopy
  | cons forwarded tokens ih =>
    apply ih
    · apply hcopy.of_mergeToken
      apply htoken forwarded mem_cons_self
    · intro other hother
      apply htoken other (mem_cons_of_mem _ hother)

theorem Copies.countP_ownOperations
    {call : Invocation} {ctx : InvocationContext}
    (hcopy : Copies token ctx.capabilityRegistry)
    (hnot : ¬ OwnCheckable call.env.lowercase token) :
  (runIn call ctx).2.countP
    (fun grant => grant.any fun h => ctx.capabilityRegistry.tokenIdOf h = some token.id) = 0
  := by
  rw [countP_eq_zero]
  intro grant hgrant hany
  obtain ⟨h, hmem, hid⟩ := any_eq_true.mp hany
  obtain ⟨asked, hraise, hmeets⟩ := sound_of_mem_ownOperations hgrant h hmem
  obtain ⟨entry, hlook, hentry⟩ := exists_of_meets hmeets
  have hid' : entry.token.id = token.id := by
    simpa [tokenIdOf, hlook] using hid
  apply hnot
  exact ⟨call.env.canonicalizer, call.env.now, asked, hraise,
    (hcopy h entry hlook hid').meets hentry⟩

/-! ### Runs of calls -/

/-- The token has been charged `n` times, and the registry and the workers hold copies of it only.
-/
structure Tracked (limited : LimitedToken) (h : CapabilityHandle) (n : Nat)
    (state : InvocationState) : Prop where
  counted : ∃ entry, state.capabilityRegistry.table.lookup h = some entry
    ∧ Interleaving.Counted n limited.token entry.token
  copies : Copies limited.token state.capabilityRegistry
  unique : ∀ h' entry, state.capabilityRegistry.table.lookup h' = some entry →
    entry.token.id = limited.token.id → h' = h
  sessions : ∀ a session, state.sessions a = some session →
    Copies limited.token session.registry

namespace Tracked

variable {limited : LimitedToken} {h : CapabilityHandle} {n : Nat} {state : InvocationState}

theorem init {agentId : AgentId} (hholds : state.Holds h agentId limited.token) :
  Tracked limited h 0 state
  := by
  constructor
  · exact ⟨_, hholds.lookup, Interleaving.Counted.refl limited.token⟩
  · intro h' entry hlook hid
    obtain rfl := hholds.unique h' entry hlook hid
    rw [hholds.lookup, Option.some.injEq] at hlook
    subst hlook
    apply CopyOf.refl
  · apply hholds.unique
  · intro a session hsess h' entry hlook
    rw [hholds.fresh a session hsess] at hlook
    cases hlook

theorem le_max (htrack : Tracked limited h n state) :
  n ≤ limited.max.toNat
  := by
  obtain ⟨entry, -, hcount⟩ := htrack.counted
  apply hcount.le_max limited.limited

variable {call : Invocation}

theorem charge (htrack : Tracked limited h n state) {registry : CapabilityRegistry}
    {g : CapabilityHandle}
    (hok : ToolInvocation.charge state.capabilityRegistry call = .ok (registry, g)) :
  Tracked limited h
    (n + if registry.tokenIdOf g = some limited.token.id then 1 else 0)
    ⟨registry, state.sessions⟩
  := by
  obtain ⟨entry, hlook, hleft, rfl⟩ := charge_eq_ok hok
  obtain ⟨current, hcur, hcount⟩ := htrack.counted
  have hid : tokenIdOf { state.capabilityRegistry with
      table := state.capabilityRegistry.table.insert g
        { entry with token := entry.token.recordUse.1 } } g = some entry.token.id := by
    simp [tokenIdOf, CapabilityToken.recordUse]
  rw [hid]
  by_cases hsame : entry.token.id = limited.token.id
  · obtain rfl := htrack.unique g entry hlook hsame
    rw [hcur, Option.some.injEq] at hlook
    subst hlook
    rw [if_pos (by rw [hsame])]
    have hcount' := hcount.recordUse hleft
    have hcopy := htrack.copies g current hcur hsame
    constructor
    · exact ⟨_, AList.lookup_insert _, hcount'⟩
    · intro h' entry' hlook' hid'
      obtain ⟨-, rfl⟩ | ⟨-, hlook'⟩ := lookup_insert_eq_some hlook'
      · refine ⟨hcopy.capability_eq, hcopy.constraints_eq, hcopy.expiresAt_eq,
          hcopy.revokedAt_eq, ?_⟩
        rw [UInt64.le_iff_toNat_le, hcount'.toNat_eq limited.max limited.limited]
        omega
      · apply htrack.copies h' entry' hlook' hid'
    · intro h' entry' hlook' hid'
      obtain ⟨rfl, -⟩ | ⟨-, hlook'⟩ := lookup_insert_eq_some hlook'
      · rfl
      · apply htrack.unique h' entry' hlook' hid'
    · apply htrack.sessions
  · have hne : h ≠ g := by
      rintro rfl
      rw [hcur, Option.some.injEq] at hlook
      subst hlook
      apply hsame hcount.id_eq
    rw [if_neg (by simpa using hsame)]
    constructor
    · refine ⟨current, ?_, hcount⟩
      rw [AList.lookup_insert_ne hne]
      apply hcur
    · intro h' entry' hlook' hid'
      obtain ⟨-, rfl⟩ | ⟨-, hlook'⟩ := lookup_insert_eq_some hlook'
      · cases hsame hid'
      · apply htrack.copies h' entry' hlook' hid'
    · intro h' entry' hlook' hid'
      obtain ⟨-, rfl⟩ | ⟨-, hlook'⟩ := lookup_insert_eq_some hlook'
      · cases hsame hid'
      · apply htrack.unique h' entry' hlook' hid'
    · apply htrack.sessions

theorem copies_runInWorker {registry : CapabilityRegistry} {session : Session}
    (hreg : Copies token registry) (hsess : Copies token session.registry) (call : Invocation) :
  Copies token (runInWorker registry call session).1.registry
    ∧ ∀ ran, (runInWorker registry call session).2 = .ok ran →
        Copies token ran.1.capabilityRegistry ∧ ran = runIn call ran.1
  := by
  have htoken : ∀ forwarded
      ∈ registry.resolveTokens call.env.now call.tokenHandles call.agentId,
      forwarded.id = token.id → CopyOf token forwarded := by
    intro forwarded hmem hid
    obtain ⟨h', entry, hlook, rfl⟩ := exists_of_mem_resolveTokens hmem
    apply hreg h' entry hlook hid
  have hmer := hsess.of_mergeTokens call.agentId htoken
  unfold runInWorker
  cases call.connection with
  | some e =>
    refine ⟨hsess, ?_⟩
    rintro ran ⟨⟩
  | none =>
    simp only [dispatch]
    split_ifs with havail
    · refine ⟨hmer, ?_⟩
      rintro ran ⟨⟩
      exact ⟨hmer, rfl⟩
    · refine ⟨hsess, ?_⟩
      rintro ran ⟨⟩

theorem allowedBy_eq (hnot : ¬ OwnCheckable call.env.lowercase token) (charged : InvocationState)
    (g : CapabilityHandle) {result : Except CoreError (InvocationContext × List Grant)}
    (hres : ∀ ran, result = .ok ran →
      Copies token ran.1.capabilityRegistry ∧ ran = runIn call ran.1) :
  Invoked.allowedBy token.id ⟨charged, some g, result⟩
    = if charged.capabilityRegistry.tokenIdOf g = some token.id then 1 else 0
  := by
  cases result with
  | error e => simp [Invoked.allowedBy]
  | ok ran =>
    obtain ⟨hcopy, hran⟩ := hres ran rfl
    have hzero := hcopy.countP_ownOperations hnot
    rw [← hran] at hzero
    simp [Invoked.allowedBy, hzero]

/-- A call charges the token at most once and allows nothing else on its strength. -/
theorem invoke (htrack : Tracked limited h n state) (config : ToolInvocation)
    (hnot : ¬ OwnCheckable call.env.lowercase limited.token) :
  Tracked limited h (n + (config.invoke state call).allowedBy limited.token.id)
    (config.invoke state call).state
  := by
  unfold ToolInvocation.invoke
  cases hcharg : ToolInvocation.charge state.capabilityRegistry call with
  | error e => simpa [Invoked.allowedBy] using htrack
  | ok charged =>
    obtain ⟨registry, g⟩ := charged
    have hchar := htrack.charge hcharg
    simp only
    split
    · rename_i session hsur hsess
      obtain ⟨hcopy, hran⟩ := copies_runInWorker hchar.copies
        (htrack.sessions call.agentId session hsess) call
      rw [allowedBy_eq hnot _ g hran]
      refine ⟨hchar.counted, hchar.copies, hchar.unique, ?_⟩
      intro a session' hsess'
      simp only [Function.update_apply] at hsess'
      split_ifs at hsess' with heq
      · cases hsess'
        apply hcopy
      · apply htrack.sessions a session' hsess'
    · rw [allowedBy_eq hnot]
      · apply hchar
      · intro ran hran
        unfold ToolInvocation.runInDaemon at hran
        split_ifs at hran
        cases hran
        exact ⟨hchar.copies, rfl⟩

theorem add_allowedBy_le (config : ToolInvocation) {lowercase : Lowercase}
    (hnot : ¬ OwnCheckable lowercase limited.token) {calls : List Invocation}
    (hcalls : ∀ call ∈ calls, call.env.lowercase = lowercase) (htrack : Tracked limited h n state) :
  n + config.allowedBy limited.token.id state calls ≤ limited.max.toNat
  := by
  induction calls generalizing n state with
  | nil => apply htrack.le_max
  | cons call calls ih =>
    rw [allowedBy, ← Nat.add_assoc]
    apply ih
    · intro other hother
      apply hcalls other (mem_cons_of_mem _ hother)
    · apply htrack.invoke config
      rw [hcalls call mem_cons_self]
      apply hnot

end Tracked

end Tracking

/-! ### When a limit binds -/

/-- The limit of a token bounds the operations it allows if no own check of a tool can be passed
with it. -/
theorem limitBinds_of_not_ownCheckable (lowercase : Lowercase) (limited : LimitedToken)
    (hnot : ¬ OwnCheckable lowercase limited.token) :
  LimitBinds lowercase limited
  := by
  intro config state h agentId calls hcalls hholds
  have hle := (Tracked.init hholds).add_allowedBy_le config hnot hcalls
  omega

/-- A parser that finds the same host in every URL, and a network without redirections. -/
def Web.serving (host : Text) : Web where
  parse _ := .ok ⟨"http", some host⟩
  respond _ := .final
  follow _ location := .ok location

/-- No text is a manifest, and no agents are there. -/
def Spawning.empty : Spawning where
  tool :=
    { parse := fun _ => .error "missing field: name"
      canonicalize := fun _ => none
      debug := fun _ => []
      spawn := ⟨id, ⟨fun _ => [], fun _ => []⟩, fun _ => 0, fun _ => 0, 0⟩
      spawnedAt := []
      spawnClock := fun _ => 0
      first := ⟨⟨1⟩, fun _ => 0, fun _ _ => 0, 0, fun _ => 0⟩
      second := ⟨⟨2⟩, fun _ => 0, fun _ _ => 0, 0, fun _ => 0⟩
      execute := fun _ _ _ registry => (⟨[], {}, 0, .complete⟩, registry) }
  agents := AgentRegistry.newWithLimit 100
  batchCap := 8
  fails _ := false

/-- The surroundings in which every path leads to one file. -/
def Surroundings.oneFile (canonical : Text) : Surroundings where
  now := 0
  canonicalizer := Canonicalizer.empty
  kernel := Kernel.single 0 canonical
  files := ⟨fun _ => some (.regular []), false⟩
  lowercase := Lowercase.onlyAscii
  web := Web.serving ['a']
  spawning := Spawning.empty

/-- A token for one tool. -/
def toolToken (id : Uuid) (toolName : Text) : CapabilityToken :=
  CapabilityToken.issue id 0 ⟨0⟩ (.toolInvoke toolName) {}

/-- The token, and one to invoke the tool. -/
def besideTool (token : CapabilityToken) (toolName : Text) : InvocationState where
  capabilityRegistry :=
    ((CapabilityRegistry.new.insert ⟨0⟩ token).1.insert ⟨0⟩ (toolToken (token.id + 1) toolName)).1
  sessions := fun _ => none

theorem holds_besideTool (token : CapabilityToken) (toolName : Text) :
  (besideTool token toolName).Holds ⟨0⟩ ⟨0⟩ token
  := by
  constructor
  · rfl
  · intro h entry hlook hid
    obtain ⟨-, rfl⟩ | ⟨-, hlook⟩ := lookup_insert_eq_some hlook
    · simp [toolToken, CapabilityToken.issue] at hid
    · obtain ⟨rfl, -⟩ | ⟨-, hlook⟩ := lookup_insert_eq_some hlook
      · rfl
      · cases hlook
  · rintro a session ⟨⟩

/-- A daemon without workers. -/
def withoutWorkers : ToolInvocation where
  registry := "memory_store" :: CheckingTool.all.map CheckingTool.name
  workerHandle := none

/-- A call that presents the handles of both tokens. -/
def callOf (toolName : Text) (input : Json) : Invocation where
  agentId := ⟨0⟩
  toolName := toolName
  input := input
  tokenHandles := [⟨0⟩, ⟨1⟩]
  env := Surroundings.oneFile "/data/a"
  worker := ⟨fun _ => 0, .timedOut, false, .error []⟩
  connection := none

/-- A token to store memories once. -/
def storeOnce : LimitedToken where
  token := CapabilityToken.issue 0 0 ⟨0⟩ (.toolInvoke "memory_store") { maxInvocations := some 1 }
  max := 1
  limited := rfl

/-- A token for one tool meets no other demand than to invoke it. -/
theorem eq_of_meets {token : CapabilityToken} {toolName : Text}
    (hcap : token.capability = .toolInvoke toolName) (hname : toolName ≠ ['*'])
    {canonicalize : Text → Option Text} {now : DateTime} {asked : Demand}
    (hmeets : token.meets canonicalize now asked = true) :
  asked = .capability (.toolInvoke toolName)
  := by
  cases asked with
  | file kind canonical =>
    cases kind <;> simp [CapabilityToken.meets, CapabilityToken.permitsCanonicalFile,
      CapabilityToken.canonicalFileMatches, hcap] at hmeets
  | capability requested =>
    obtain ⟨-, -, -, hmatch⟩ := CapabilityToken.permits_eq_true_iff.mp hmeets
    cases requested <;> simp [CapabilityToken.capabilityMatches, hcap, hname] at hmatch
    rw [hmatch]

theorem not_ownCheckable_storeOnce (lowercase : Lowercase) :
  ¬ OwnCheckable lowercase storeOnce.token
  := by
  rintro ⟨canonicalizer, now, asked, hraise, hmeets⟩
  obtain rfl := eq_of_meets rfl (by decide) hmeets
  cases hraise with
  | delegated declaration capability hparse hmem => apply hmem rfl

/-- Of three calls to store a memory, the token allows the first. -/
theorem limitBinds_of_not_ownCheckable_storeOnce :
  LimitBinds Lowercase.onlyAscii storeOnce
    ∧ (besideTool storeOnce.token "file_read").Holds ⟨0⟩ ⟨0⟩ storeOnce.token
    ∧ withoutWorkers.allowedBy storeOnce.token.id (besideTool storeOnce.token "file_read")
      (replicate 3 (callOf "memory_store" (.obj []))) = 1
  := by
  refine ⟨?_, holds_besideTool _ _, by decide +kernel⟩
  apply limitBinds_of_not_ownCheckable
  apply not_ownCheckable_storeOnce

/-- A token to read files below a directory once. -/
def readOnce : LimitedToken where
  token := CapabilityToken.issue 0 0 ⟨0⟩ (.fileRead "/data/*") { maxInvocations := some 1 }
  max := 1
  limited := rfl

/-- The limit on the capability to read files does not bound the files read. -/
theorem not_limitBinds_readOnce :
  ¬ LimitBinds Lowercase.onlyAscii readOnce
  := by
  intro hbinds
  have hle := hbinds withoutWorkers (besideTool readOnce.token "file_read") ⟨0⟩ ⟨0⟩
    (replicate 2 (callOf "file_read" (.obj [("path", .str "/data/a")])))
    (fun call hmem => by rw [eq_of_mem_replicate hmem]; rfl)
    (holds_besideTool readOnce.token "file_read")
  revert hle
  decide +kernel
