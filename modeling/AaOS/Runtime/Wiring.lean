import AaOS.Runtime.Frame

/-!
# The wiring of agents

An agent in the table should have the tokens that were issued at its spawn and the channel that was
registered for it.  Both know an agent by its identifier only.  When no spawn overlaps another
operation on its identifier, nor begins while it is in use, the agents are wired whenever no
operation is in progress.
-/

open AgentRegistry Multiset Table

namespace Lifecycle

open Interleaving (visitOrder_keys)

/-- An operation that does not overlap another one on its identifier begins. -/
def Begins (s : State) (others : Multiset Operation) : Operation → Prop
  | .spawn call =>
    call.given = [] ∧ s.registry.agents.lookup call.id = none
      ∧ ∀ other ∈ others, other.target ≠ some call.id
  | .stopSync id => ∀ other ∈ others, other.spawns = true → other.target ≠ some id
  | _ => True

/-- The number of handles does not overflow. -/
def Draws (s : State) : Operation → Prop
  | .issuing _ (_ :: _) _ => s.registry.capabilityRegistry.nextId.toNat + 1 < 2 ^ 64
  | _ => True

/-- The interleavings in which no spawn overlaps another operation on its identifier. -/
def orderly (env : SpawnEnv) : PoolSystem State Operation where
  Start s others op := op.isRequest = true ∧ Begins s others op
  Move s _ op s' op' := Move env s op s' op' ∧ Draws s op

/-! ### What holds between the steps -/

/-- The handles in use have been drawn, and the agents are stopped or wired. -/
structure Settled (s : State) : Prop where
  drawn : ∀ h entry, s.registry.capabilityRegistry.table.lookup h = some entry →
    h.raw < s.registry.capabilityRegistry.nextId
  agents : ∀ id process, s.registry.agents.lookup id = some process →
    process.state = .stopped ∨ Wired s id process

/-- The agent of a spawn is not in the table, and has the tokens at the given handles. -/
structure Equipped (s : State) (id : AgentId) (handles : List CapabilityHandle) : Prop where
  absent : s.registry.agents.lookup id = none
  resolves : ∀ h ∈ handles, Resolves s id h

def Each (s : State) : Operation → Prop
  | .spawn call | .reserving (some call) _ =>
    s.registry.agents.lookup call.id = none ∧ call.given = []
  | .issuing call _ handles | .registering call handles => Equipped s call.id handles
  | .storing call _ handles token h =>
    Equipped s call.id handles ∧ token.isRevoked = false
      ∧ s.registry.capabilityRegistry.table.lookup h = none
      ∧ h.raw < s.registry.capabilityRegistry.nextId
  | .inserting id process =>
    s.registry.agents.lookup id = none ∧ process.state = .running ∧ Wired s id process
  | .unregistering id | .removing id => Halted s id
  | .clearing id loop =>
    s.registry.agents.lookup id = none ∧ loop.Revokes (.revokeAllForAgent id)
  | .forgetting id loop => s.registry.agents.lookup id = none ∧ loop.Removes id
  | .revoking loop => ∃ revocation ∈ s.explicit, loop.Revokes revocation
  | _ => True

/-- A spawn is not about the agent of another operation, and no two operations drew the same handle.
-/
structure Apart (op other : Operation) : Prop where
  left : op.spawns = true → ∀ id, op.target = some id → other.target ≠ some id
  right : other.spawns = true → ∀ id, other.target = some id → op.target ≠ some id
  pending : ∀ h, op.pending = some h → other.pending ≠ some h

section Steps

variable {env : SpawnEnv} {s s' : State} {op : Operation} {op' : Option Operation} {id : AgentId}

theorem Each.regular (heach : Each s op) :
  op.Regular s
  := by
  cases op with
  | storing call rest handles token h => apply heach.2.2.1
  | clearing id loop => apply heach.2
  | forgetting id loop => apply heach.2
  | revoking loop => apply heach
  | _ => trivial

theorem Equipped.frames {handles : List CapabilityHandle} (hequip : Equipped s id handles)
    (hframe : Frames id s s') :
  Equipped s' id handles
  := by
  constructor
  case absent => rw [hframe.agents, hequip.absent]
  case resolves =>
    intro h hmem
    apply hframe.resolves h (hequip.resolves h hmem)

theorem lt_add_one_of_draws {n : UInt64} (hdraws : n.toNat + 1 < 2 ^ 64) :
  n < n + 1
  := by
  have hnext : (n + 1).toNat = n.toNat + 1 := by
    rw [UInt64.toNat_add]
    apply Nat.mod_eq_of_lt hdraws
  rw [UInt64.lt_iff_toNat_lt, hnext]
  apply Nat.lt_succ_self

theorem Move.nextId_le (hmove : Move env s op s' op') (hreg : op.Regular s) (hdraws : Draws s op) :
  s.registry.capabilityRegistry.nextId ≤ s'.registry.capabilityRegistry.nextId
  := by
  obtain hsame | ⟨call, capability, rest, handles, rfl, hnext⟩ := hmove.nextId_cases hreg
  · rw [hsame]
    apply UInt64.le_refl
  · have hlt : s.registry.capabilityRegistry.nextId < s.registry.capabilityRegistry.nextId + 1 :=
      lt_add_one_of_draws hdraws
    rw [hnext]
    apply UInt64.le_of_lt hlt

theorem Move.settled_drawn (hmove : Move env s op s' op') (hdraws : Draws s op)
    (hset : Settled s) (heach : Each s op) {h : CapabilityHandle} {entry : OwnedEntry}
    (hlook : s'.registry.capabilityRegistry.table.lookup h = some entry) :
  h.raw < s'.registry.capabilityRegistry.nextId
  := by
  apply UInt64.lt_of_lt_of_le _ (hmove.nextId_le heach.regular hdraws)
  by_cases hpend : op.pending = some h
  · cases op with
    | storing call rest handles token h' =>
      cases hpend
      apply heach.2.2.2
    | _ => cases hpend
  · cases hfound : s.registry.capabilityRegistry.table.lookup h with
    | none =>
      rw [hmove.lookup_handle heach.regular hpend hfound] at hlook
      cases hlook
    | some entry' => apply hset.drawn h entry' hfound

theorem Move.settled (hmove : Move env s op s' op') (hdraws : Draws s op)
    (hset : Settled s) (heach : Each s op) :
  Settled s'
  := by
  constructor
  case drawn =>
    intro h entry hlook
    apply hmove.settled_drawn hdraws hset heach hlook
  case agents =>
    intro id process hlook
    by_cases htar : op.target = some id
    · cases hmove with
      | exchange | dropSlot | release | decrement =>
        obtain hstopp | hwired := hset.agents id process hlook
        · left
          apply hstopp
        · right
          exact ⟨hwired.resolves, hwired.channel⟩
      | fetchAdd uuid time htoken hstep =>
        cases htar
        cases heach.absent.symm.trans hlook
      | store hstep =>
        cases htar
        cases heach.1.absent.symm.trans hlook
      | register now hstart =>
        cases htar
        simp only [State.withRegistry, wireChannels_agents] at hlook
        cases heach.absent.symm.trans hlook
      | insert hins =>
        cases htar
        right
        obtain ⟨-, rfl⟩ := insertAtomic_eq_ok.mp hins
        obtain ⟨-, rfl⟩ | ⟨hne, -⟩ := lookup_insert_eq_some hlook
        · obtain ⟨-, -, hres, hchan⟩ := heach
          exact ⟨hres, hchan⟩
        · apply absurd rfl hne
      | stop hfound hstop =>
        cases htar
        left
        obtain ⟨-, rfl⟩ | ⟨hne, -⟩ := lookup_insert_eq_some hlook
        · rw [stopProcess_eq_ok hstop]
        · apply absurd rfl hne
      | unregister other =>
        cases htar
        left
        apply heach process hlook
      | remove hfound =>
        cases htar
        cases (AList.lookup_erase id s.registry.agents).symm.trans hlook
      | clear hstep | endClearing hstep | forget hstep | endForgetting hstep =>
        cases htar
        cases heach.1.symm.trans hlook
      | request | revoke | endRevoking => cases htar
      | _ => apply hset.agents id process hlook
    · have hframe := hmove.frames heach.regular htar
      rw [hframe.agents] at hlook
      obtain hstopp | hwired := hset.agents id process hlook
      · left
        apply hstopp
      · right
        apply hwired.frames hframe

theorem wired_wireChannels {process : AgentProcess}
    (hres : ∀ h ∈ process.capabilities, Resolves s id h) :
  Wired (s.withRegistry (s.registry.wireChannels id process).1) id
    (s.registry.wireChannels id process).2
  := by
  constructor
  case resolves =>
    unfold Resolves State.withRegistry
    rw [wireChannels_capabilities, wireChannels_capabilityRegistry]
    apply hres
  case channel =>
    unfold State.withRegistry wireChannels
    cases hroute : s.registry.router with
    | none => simp [hroute]
    | some router =>
      rintro router' ⟨⟩
      exact ⟨router.nextChannel, AList.lookup_insert _, rfl⟩

variable {next : Operation}

theorem Move.each (hmove : Move env s op s' (some next)) (hdraws : Draws s op)
    (hset : Settled s) (heach : Each s op) :
  Each s' next
  := by
  cases hmove with
  | load hdepth | endIssuing call handles | unregister id => apply heach
  | @exchangeFails call current hlimit =>
    cases call with
    | none => trivial
    | some call => apply heach
  | @exchange call hlimit =>
    cases call with
    | none => trivial
    | some call =>
      obtain ⟨habs, hgiven⟩ := heach
      refine ⟨habs, ?_⟩
      simp [hgiven]
  | @fetchAdd call capability rest handles token h capabilities e uuid time htoken hstep =>
    cases hstep
    refine ⟨⟨heach.absent, heach.resolves⟩, ?_, ?_, ?_⟩
    · rw [htoken]
      rfl
    · rcases hfound : s.registry.capabilityRegistry.table.lookup
        ⟨s.registry.capabilityRegistry.nextId⟩ with - | entry
      · apply hfound
      · apply absurd (hset.drawn _ _ hfound) (UInt64.lt_irrefl _)
    · apply lt_add_one_of_draws hdraws
  | @store call rest handles token h capabilities e hstep =>
    cases hstep
    obtain ⟨⟨habs, hres⟩, hrev, hnone, -⟩ := heach
    refine ⟨habs, ?_⟩
    intro h' hmem
    obtain hmem | hmem := List.mem_append.mp hmem
    · apply resolves_store hnone rfl (hres h' hmem)
    · cases List.mem_singleton.mp hmem
      exact ⟨_, AList.lookup_insert _, rfl, .inl hrev⟩
  | @register call handles process now hstart =>
    obtain ⟨-, rfl⟩ := AgentProcess.transitionTo_eq_ok.mp hstart
    refine ⟨?_, ?_, wired_wireChannels ?_⟩
    · simp only [State.withRegistry, wireChannels_agents, heach.absent]
    · apply wireChannels_state
    · simp only [SpawnCall.process_capabilities]
      apply heach.resolves
  | stop hfound hstop =>
    intro process hlook
    obtain ⟨-, rfl⟩ | ⟨hne, -⟩ := lookup_insert_eq_some hlook
    · rw [stopProcess_eq_ok hstop]
    · apply absurd rfl hne
  | remove hfound => exact ⟨AList.lookup_erase _ _, rfl⟩
  | clear hstep => exact ⟨heach.1, (hstep.of_revokes heach.2).2.1 _ rfl⟩
  | endClearing hstep => exact ⟨heach.1, rfl⟩
  | forget hstep => exact ⟨heach.1, (hstep.of_removes heach.2).2.1 _ rfl⟩
  | request revocation => exact ⟨revocation, List.mem_cons_self, rfl⟩
  | revoke hstep =>
    obtain ⟨revocation, hmem, hloop⟩ := heach
    exact ⟨revocation, hmem, (hstep.of_revokes hloop).2.1 _ rfl⟩
  | _ => trivial

variable {other : Operation}

theorem Move.others (hmove : Move env s op s' op') (hdraws : Draws s op) (heach : Each s op)
    (hother : Each s other) (hapart : Apart op other) :
  Each s' other
  := by
  have hspawn : ∀ id, other.target = some id → op.spawns = true → op.target ≠ some id := by
    intro id htar hspawn hsame
    apply hapart.left hspawn id hsame htar
  have hframes : ∀ id, other.spawns = true → other.target = some id → Frames id s s' := by
    intro id hother htar
    apply hmove.frames heach.regular (hapart.right hother id htar)
  cases other with
  | spawn call => exact ⟨hmove.absent (hspawn call.id rfl) hother.1, hother.2⟩
  | reserving call current =>
    cases call with
    | none => trivial
    | some call => exact ⟨hmove.absent (hspawn call.id rfl) hother.1, hother.2⟩
  | issuing call rest handles
  | registering call handles => apply hother.frames (hframes call.id rfl rfl)
  | storing call rest handles token h =>
    obtain ⟨hequip, hrev, hnone, hlt⟩ := hother
    have hpend : op.pending ≠ some h := by
      intro hpend
      apply hapart.pending h hpend rfl
    refine ⟨hequip.frames (hframes call.id rfl rfl), hrev, ?_, ?_⟩
    · apply hmove.lookup_handle heach.regular hpend hnone
    · apply UInt64.lt_of_lt_of_le hlt (hmove.nextId_le heach.regular hdraws)
  | inserting id process =>
    obtain ⟨habs, hstate, hwired⟩ := hother
    have hframe := hframes id rfl rfl
    exact ⟨hframe.agents.trans habs, hstate, hwired.frames hframe⟩
  | unregistering id | removing id => apply hmove.halted (hspawn id rfl) hother
  | clearing id loop
  | forgetting id loop => exact ⟨hmove.absent (hspawn id rfl) hother.1, hother.2⟩
  | revoking loop =>
    obtain ⟨revocation, hmem, hloop⟩ := hother
    exact ⟨revocation, hmove.explicit hmem, hloop⟩
  | _ => trivial

theorem Move.target (hmove : Move env s op s' (some next)) :
  (next.target = none ∨ next.target = op.target) ∧ (next.spawns = true → op.spawns = true)
  := by
  cases hmove with
  | @exchange call hlimit =>
    cases call with
    | none => exact ⟨.inl rfl, by simp [Operation.reserved, Operation.spawns]⟩
    | some call => exact ⟨.inr rfl, fun _ => rfl⟩
  | startFails | insertFails => exact ⟨.inl rfl, by simp [Operation.spawns]⟩
  | _ => exact ⟨.inr rfl, by simp [Operation.spawns]⟩

theorem Move.pending (hmove : Move env s op s' (some next)) {h : CapabilityHandle}
    (hpend : next.pending = some h) :
  h = ⟨s.registry.capabilityRegistry.nextId⟩
  := by
  cases hmove with
  | fetchAdd uuid time htoken hstep =>
    cases hpend
    cases hstep
    rfl
  | @exchange call hlimit => cases call <;> cases hpend
  | _ => cases hpend

theorem Move.apart (hmove : Move env s op s' (some next)) (hother : Each s other)
    (hapart : Apart op other) :
  Apart next other
  := by
  obtain ⟨htar, hspawn⟩ := hmove.target
  constructor
  case left =>
    intro hnext id hid
    obtain hnone | hsame := htar
    · rw [hnone] at hid
      cases hid
    · apply hapart.left (hspawn hnext) id (hsame.symm.trans hid)
  case right =>
    intro hother' id hid
    obtain hnone | hsame := htar
    · rw [hnone]
      simp
    · rw [hsame]
      apply hapart.right hother' id hid
  case pending =>
    intro h hpend hsame
    cases hmove.pending hpend
    cases other with
    | storing call rest handles token h =>
      cases hsame
      apply UInt64.lt_irrefl _ hother.2.2.2
    | _ => cases hsame

variable {others : Multiset Operation}

theorem Begins.each (hbegin : Begins s others op) (hreq : op.isRequest = true) :
  Each s op
  := by
  cases op with
  | spawn call => exact ⟨hbegin.2.1, hbegin.1⟩
  | reserveSlot | stopSync | revoke => trivial
  | _ => cases hreq

theorem Begins.apart (hbegin : Begins s others op) (hreq : op.isRequest = true)
    (hother : other ∈ others) :
  Apart op other
  := by
  cases op with
  | spawn call =>
    have hfree := hbegin.2.2 other hother
    constructor
    case left =>
      rintro - id ⟨⟩
      apply hfree
    case right =>
      rintro - id hid ⟨⟩
      apply hfree hid
    case pending => rintro h ⟨⟩
  | stopSync id =>
    constructor
    case left => rintro ⟨⟩
    case right =>
      rintro hspawn id hid ⟨⟩
      apply hbegin other hother hspawn hid
    case pending => rintro h ⟨⟩
  | reserveSlot | revoke =>
    constructor
    case left => rintro ⟨⟩
    case right => rintro - id - ⟨⟩
    case pending => rintro h ⟨⟩
  | _ => cases hreq

theorem orderly_keeps :
  (orderly env).Keeps Settled Each Apart
  := by
  constructor
  case symm =>
    intro op other hapart
    constructor
    case left => apply hapart.right
    case right => apply hapart.left
    case pending =>
      intro h hother hpend
      apply hapart.pending h hpend hother
  case start =>
    rintro s others op ⟨hreq, hbegin⟩ - -
    refine ⟨hbegin.each hreq, ?_⟩
    intro other hother
    apply hbegin.apart hreq hother
  case shared =>
    rintro s others op s' op' ⟨hmove, hdraws⟩ hset heach -
    apply hmove.settled hdraws hset heach
  case each =>
    rintro s others op s' next ⟨hmove, hdraws⟩ hset heach -
    apply hmove.each hdraws hset heach
  case others =>
    rintro s others op s' op' ⟨hmove, hdraws⟩ - heach other - hother hapart
    apply hmove.others hdraws heach hother hapart
  case apart =>
    rintro s others op s' next ⟨hmove, hdraws⟩ - - other - hother hapart
    apply hmove.apart hother hapart

/-! ### Agents that are stopped -/

def Attended (pool : Pool State Operation) : Prop :=
  ∀ id process, pool.shared.registry.agents.lookup id = some process →
    process.state = .stopped →
      .unregistering id ∈ pool.running ∨ .removing id ∈ pool.running

theorem Move.attended (hmove : Move env s op s' op') (heach : Each s op)
    (hatt : Attended ⟨s, op ::ₘ others⟩) :
  Attended ⟨s', Pool.rejoin others op'⟩
  := by
  have hkept : ∀ id process, s.registry.agents.lookup id = some process →
      process.state = .stopped → op ≠ .removing id →
      .unregistering id ∈ Pool.rejoin others op' ∨ .removing id ∈ Pool.rejoin others op' := by
    intro id process hlook hstop hne
    obtain hmem | hmem := hatt id process hlook hstop
    · obtain rfl | hmem := mem_cons.mp hmem
      · right
        cases hmove
        apply mem_cons_self
      · left
        apply Pool.mem_rejoin.mpr (.inr hmem)
    · obtain rfl | hmem := mem_cons.mp hmem
      · apply absurd rfl hne
      · right
        apply Pool.mem_rejoin.mpr (.inr hmem)
  intro id process hlook hstop
  by_cases hrem : op = .removing id
  · subst hrem
    cases hmove with
    | removeUnknown hnone => cases hnone.symm.trans hlook
    | remove hfound => cases (AList.lookup_erase id s.registry.agents).symm.trans hlook
  · obtain hsame | ⟨other, inserted, rfl, -, hagent⟩ | ⟨other, found, rfl, hfound, hagent, rfl⟩
      | ⟨other, rfl, hagent⟩ := hmove.agents_cases
    · apply hkept id process (hsame ▸ hlook) hstop hrem
    · change s'.registry.agents.lookup id = some process at hlook
      rw [hagent] at hlook
      obtain ⟨-, rfl⟩ | ⟨-, hlook⟩ := lookup_insert_eq_some hlook
      · cases heach.2.1.symm.trans hstop
      · apply hkept id process hlook hstop hrem
    · change s'.registry.agents.lookup id = some process at hlook
      rw [hagent] at hlook
      obtain ⟨rfl, -⟩ | ⟨-, hlook⟩ := lookup_insert_eq_some hlook
      · left
        apply mem_cons_self
      · apply hkept id process hlook hstop hrem
    · change s'.registry.agents.lookup id = some process at hlook
      rw [hagent] at hlook
      apply hkept id process (lookup_of_lookup_erase hlook) hstop hrem

theorem attended_of_reaches {pool pool' : Pool State Operation}
    (hreach : (orderly env).Reaches pool pool')
    (hholds : PoolSystem.Holds Settled Each Apart pool) (hatt : Attended pool) :
  PoolSystem.Holds Settled Each Apart pool' ∧ Attended pool'
  := by
  have hinv : PoolSystem.Holds Settled Each Apart pool ∧ Attended pool := ⟨hholds, hatt⟩
  apply PoolSystem.invariant _ _ hreach hinv
  · rintro s others op hstart ⟨hholds, hatt⟩
    refine ⟨orderly_keeps.holds_start hstart hholds, ?_⟩
    intro id process hlook hstop
    apply (hatt id process hlook hstop).imp
    all_goals apply mem_cons_of_mem
  · rintro s others op s' op' hmove ⟨hholds, hatt⟩
    refine ⟨orderly_keeps.holds_move hmove hholds, ?_⟩
    apply hmove.1.attended (hholds.each op (mem_cons_self op others)) hatt

end Steps

/-! ### Agents when no operation is in progress -/

def WiredWhenIdle (pool : Pool State Operation) : Prop :=
  pool.running = 0 → ∀ id process, pool.shared.registry.agents.lookup id = some process →
    Wired pool.shared id process

/-- In every run in which no spawn begins while its identifier is in use or overlaps another
operation on it, and handles do not overflow, the agents are wired whenever no operation is in
progress. -/
theorem wiredWhenIdle_of_reaches {env : SpawnEnv} {maxAgents : UInt64}
    {router : Option MessageRouter} {pool : Pool State Operation}
    (hreaches : (orderly env).Reaches (initial maxAgents router) pool) :
  WiredWhenIdle pool
  := by
  have hholds : PoolSystem.Holds Settled Each Apart (initial maxAgents router) := by
    constructor
    case shared =>
      constructor
      case drawn => rintro h entry ⟨⟩
      case agents => rintro id process ⟨⟩
    case each => simp [initial]
    case apart =>
      intro op others hrun
      cases Multiset.zero_ne_cons hrun
  have hatt : Attended (initial maxAgents router) := by
    rintro id process ⟨⟩
  obtain ⟨hholds, hatt⟩ := attended_of_reaches hreaches hholds hatt
  intro hidle id process hlook
  obtain hstop | hwired := hholds.shared.agents id process hlook
  · have hbusy := hatt id process hlook hstop
    simp [hidle] at hbusy
  · apply hwired

section Runs

open Relation.ReflTransGen

def spawned : State :=
  (initial 100 (some .new)).shared.withRegistry
    ((SpawnCall.spawnWithId searchManifest ⟨0⟩).run (plainSpawnEnv 0)
      (initial 100 (some .new)).shared.registry).2

def removed : State :=
  spawned.withRegistry
    { spawned.registry with
      agents := ∅
      router := spawned.registry.router.map (·.unregister ⟨0⟩) }

def released : State :=
  removed.withRegistry
    { removed.registry with
      capabilityRegistry := { removed.registry.capabilityRegistry with table := ∅ }
      activeCount := 0 }

/-- The agent is stopped, and its tokens are revoked and removed. -/
theorem orderly_released :
  (orderly (plainSpawnEnv 0)).Reaches ⟨spawned, 0⟩ ⟨released, 0⟩
  := by
  have hstart : (Operation.stopSync ⟨0⟩).isRequest = true ∧ Begins spawned 0 (.stopSync ⟨0⟩) :=
    ⟨rfl, by simp [Begins]⟩
  apply head (.start hstart)
  apply head (.goesOn ⟨.stop rfl rfl, trivial⟩)
  apply head (.goesOn ⟨.unregister ⟨0⟩, trivial⟩)
  apply head (.goesOn ⟨.remove rfl, trivial⟩)
  apply head (.goesOn ⟨.clear (.beginRevoking (visitOrder_keys _)), trivial⟩)
  apply head (.goesOn ⟨.clear (.mark 0 rfl rfl), trivial⟩)
  apply head (.goesOn ⟨.clear (.endRevoking _ _), trivial⟩)
  apply head (.goesOn ⟨.clear (.notify _ _), trivial⟩)
  apply head (.goesOn ⟨.endClearing .endNotifying, trivial⟩)
  apply head (.goesOn ⟨.forget (.beginRemoving (visitOrder_keys _)), trivial⟩)
  apply head (.goesOn ⟨.forget (.remove rfl rfl), trivial⟩)
  apply head (.goesOn ⟨.endForgetting (.endRemoving _), trivial⟩)
  apply single (.ends ⟨.decrement _, trivial⟩)

theorem orderly_spawned {s : State} (hs : s = (initial 100 (some .new)).shared ∨ s = released) :
  (orderly (plainSpawnEnv 0)).Reaches ⟨s, 0⟩
    ⟨s.withRegistry ((SpawnCall.spawnWithId searchManifest ⟨0⟩).run (plainSpawnEnv 0)
      s.registry).2, 0⟩
  := by
  have hstart : (Operation.spawn (.spawnWithId searchManifest ⟨0⟩)).isRequest = true
      ∧ Begins s 0 (.spawn (.spawnWithId searchManifest ⟨0⟩)) := by
    refine ⟨rfl, rfl, ?_, by simp⟩
    obtain rfl | rfl := hs <;> rfl
  apply head (.start hstart)
  obtain rfl | rfl := hs
  all_goals
    apply head (.goesOn ⟨.load (by decide), trivial⟩)
    apply head (.goesOn ⟨.exchange (by decide), trivial⟩)
    apply head
      (.goesOn ⟨.fetchAdd 0 0 rfl (.fetchAdd _ _), (by decide : UInt64.toNat _ + 1 < 2 ^ 64)⟩)
    apply head (.goesOn ⟨.store (.store _ _ _), trivial⟩)
    apply head (.goesOn ⟨.endIssuing _ _, trivial⟩)
    apply head (.goesOn ⟨.register 0 rfl, trivial⟩)
    apply head (.goesOn ⟨.insert rfl, trivial⟩)
    apply single (.ends ⟨.commit _, trivial⟩)

/-- An agent is spawned and stopped, and then its identifier is used again. -/
theorem wiredWhenIdle_respawned :
  ∃ pool, (orderly (plainSpawnEnv 0)).Reaches (initial 100 (some .new)) pool
    ∧ pool.running = 0 ∧ pool.shared.registry.capabilityRegistry.nextId = 2
    ∧ (pool.shared.registry.agents.lookup ⟨0⟩).isSome = true ∧ WiredWhenIdle pool
  := by
  have hreach := ((orderly_spawned (.inl rfl)).trans orderly_released).trans
    (orderly_spawned (.inr rfl))
  exact ⟨_, hreach, rfl, rfl, rfl, wiredWhenIdle_of_reaches hreach⟩

theorem reaches_spawned :
  (interleaved (plainSpawnEnv 0)).Reaches (initial 100 (some .new)) ⟨spawned, 0⟩
  := by
  have hstart : (Operation.spawn (.spawnWithId searchManifest ⟨0⟩)).isRequest = true := rfl
  apply head (.start hstart)
  apply reaches_spawn

def respawned : State :=
  removed.withRegistry
    ((SpawnCall.spawnWithId searchManifest ⟨0⟩).run (plainSpawnEnv 1) removed.registry).2

theorem reaches_removed :
  (interleaved (plainSpawnEnv 0)).Reaches (initial 100 (some .new))
    ⟨removed, {.clearing ⟨0⟩ (.revoke (.revokeAllForAgent ⟨0⟩))}⟩
  := by
  have hstart : (Operation.stopSync ⟨0⟩).isRequest = true := rfl
  apply (((reaches_spawned.tail (.start hstart)).tail (.goesOn (.stop rfl rfl))).tail
    (.goesOn (.unregister ⟨0⟩))).tail (.goesOn (.remove rfl))

theorem reaches_respawned :
  (interleaved (plainSpawnEnv 0)).Reaches (initial 100 (some .new))
    ⟨respawned, {.clearing ⟨0⟩ (.revoke (.revokeAllForAgent ⟨0⟩))}⟩
  := by
  have hstart : (Operation.spawn (.spawnWithId searchManifest ⟨0⟩)).isRequest = true := rfl
  have href : ¬ (SpawnCall.spawnWithId searchManifest ⟨0⟩).Refused removed.registry := by
    decide
  have hins := reaches_inserting (plainSpawnEnv 0) (plainSpawnEnv 1) href
    {.clearing ⟨0⟩ (.revoke (.revokeAllForAgent ⟨0⟩))}
  apply (((reaches_removed.tail (.start hstart)).trans hins).tail
    (.goesOn (.insert rfl))).tail (.ends (.commit ⟨0⟩))

/-- A stop goes on beside the next spawn of its identifier: the tokens of the new agent are revoked
and removed. -/
theorem exists_not_wiredWhenIdle :
  ∃ pool, (interleaved (plainSpawnEnv 0)).Reaches (initial 100 (some .new)) pool
    ∧ ¬ WiredWhenIdle pool
  := by
  have hmark := ((reaches_respawned.tail
    (.goesOn (.clear (.beginRevoking (visitOrder_keys _))))).tail
    (.goesOn (.clear (.mark 0 rfl rfl)))).tail (.goesOn (.clear (.mark 0 rfl rfl)))
  have hnot := (((hmark.tail (.goesOn (.clear (.endRevoking _ _)))).tail
    (.goesOn (.clear (.notify _ _)))).tail (.goesOn (.clear (.notify _ _)))).tail
    (.goesOn (.endClearing .endNotifying))
  have hfor := ((hnot.tail
    (.goesOn (.forget (.beginRemoving (visitOrder_keys _))))).tail
    (.goesOn (.forget (.remove rfl rfl)))).tail (.goesOn (.forget (.remove rfl rfl)))
  have hreach := (hfor.tail (.goesOn (.endForgetting (.endRemoving _)))).tail
    (.ends (.decrement _))
  refine ⟨_, hreach, ?_⟩
  intro hwired
  obtain ⟨entry, hlook, -⟩ := (hwired rfl ⟨0⟩ _ rfl).resolves ⟨1⟩ (List.mem_singleton.mpr rfl)
  cases hlook

end Runs

end Lifecycle
