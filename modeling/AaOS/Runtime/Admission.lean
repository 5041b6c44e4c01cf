import AaOS.Runtime.Lifecycle

/-!
# Admission control

The number of active agents counts the agents in the table, the slots reserved for agents that are
not there yet, and the removals that have not given their slot back.  It stays between zero and the
limit in every interleaving.
-/

open AgentRegistry Table

namespace Lifecycle

namespace Operation

/-- The operation has reserved a slot that is neither committed nor dropped. -/
def hasSlot : Operation → Bool
  | issuing .. | storing .. | registering .. | inserting .. | committing .. | holding
  | releasing => true
  | _ => false

/-- The slot of the operation is for an agent in the table. -/
def hasInserted : Operation → Bool
  | committing .. => true
  | _ => false

/-- The operation has reserved a slot, not dropped, for an agent that is not in the table. -/
def hasFreeSlot (op : Operation) : Bool := op.hasSlot && !op.hasInserted

/-- The operation has removed an agent and has not decremented the number of agents. -/
def hasRemoved : Operation → Bool
  | clearing .. | forgetting .. | decrementing .. => true
  | _ => false

/-- The next step of the operation decrements the number of agents. -/
def decrements : Operation → Bool
  | holding | releasing | decrementing .. => true
  | _ => false

def share (op : Operation) : Nat := op.hasFreeSlot.toNat + op.hasRemoved.toNat

end Operation

/-- The number of agents is what the agents in the table and the operations account for. -/
structure Counted (pool : Pool State Operation) : Prop where
  count : pool.shared.registry.activeCount.toNat
    = pool.shared.registry.agents.keys.length + pool.count Operation.hasFreeSlot
      + pool.count Operation.hasRemoved
  le_max : pool.shared.registry.activeCount ≤ pool.shared.registry.maxAgents

/-- The number of active agents is controlled. -/
structure Controlled (pool : Pool State Operation) : Prop extends Counted pool where
  positive : ∀ op ∈ pool.running, op.decrements = true → 0 < pool.shared.registry.activeCount
  depth : ∀ id process, pool.shared.registry.agents.lookup id = some process →
    process.depth ≤ maxSpawnDepth

section Steps

variable {env : SpawnEnv} {s s' : State} {op : Operation} {op' : Option Operation}

/-! ### The number of agents -/

theorem toNat_sub_one {n : UInt64} (hpos : 0 < n.toNat) :
  (n - 1).toNat + 1 = n.toNat
  := by
  have hle : (1 : UInt64) ≤ n := UInt64.le_iff_toNat_le.mpr hpos
  rw [UInt64.toNat_sub_of_le _ _ hle]
  apply Nat.sub_add_cancel hpos

theorem toNat_add_one {n m : UInt64} (hlt : ¬ m ≤ n) :
  (n + 1).toNat = n.toNat + 1
  := by
  have hlt' : n.toNat < m.toNat := by
    rw [UInt64.le_iff_toNat_le] at hlt
    apply Nat.lt_of_not_le hlt
  have hbound := m.toNat_lt
  rw [UInt64.toNat_add]
  apply Nat.mod_eq_of_lt
  change n.toNat + 1 < 2 ^ 64
  omega

theorem Move.balance (hmove : Move env s op s' op')
    (hshare : op.share ≤ s.registry.activeCount.toNat) :
  s'.registry.activeCount.toNat + s.registry.agents.keys.length + op.share
    = s.registry.activeCount.toNat + s'.registry.agents.keys.length
      + op'.elim 0 Operation.share
  := by
  cases hmove with
  | @exchange call hlimit =>
    have hcount := toNat_add_one hlimit
    have hres : (Operation.reserved env call).share = 1 := by cases call <;> rfl
    simp only [State.withRegistry, Option.elim_some, hres, hcount]
    change _ + 0 = _
    omega
  | dropSlot | release | decrement =>
    have hcount := toNat_sub_one hshare
    change (s.registry.activeCount - 1).toNat + s.registry.agents.keys.length + 1
      = s.registry.activeCount.toNat + s.registry.agents.keys.length + 0
    omega
  | register now hstart =>
    simp only [State.withRegistry, wireChannels_agents, wireChannels_activeCount]
    rfl
  | insert hins =>
    obtain ⟨hlook, rfl⟩ := insertAtomic_eq_ok.mp hins
    have hlen := length_keys_insert_of_none hlook
    simp only [State.withRegistry, hlen]
    change _ + 1 = _ + 0
    omega
  | stop hlook hstop =>
    have hlen := length_keys_insert_of_some hlook
    simp only [State.withRegistry, State.withAgents, hlen]
    rfl
  | remove hlook =>
    have hlen := length_keys_erase hlook
    simp only [State.withRegistry, State.withAgents]
    change _ + 0 = _ + 1
    omega
  | _ => rfl

theorem Move.le_max (hmove : Move env s op s' op')
    (hshare : op.share ≤ s.registry.activeCount.toNat)
    (hle : s.registry.activeCount ≤ s.registry.maxAgents) :
  s'.registry.activeCount ≤ s'.registry.maxAgents
  := by
  cases hmove with
  | exchange hlimit =>
    have hcount := toNat_add_one hlimit
    rw [UInt64.le_iff_toNat_le] at hlimit
    change s.registry.activeCount + 1 ≤ s.registry.maxAgents
    rw [UInt64.le_iff_toNat_le]
    omega
  | dropSlot | release | decrement =>
    have hcount := toNat_sub_one hshare
    rw [UInt64.le_iff_toNat_le] at hle
    change s.registry.activeCount - 1 ≤ s.registry.maxAgents
    rw [UInt64.le_iff_toNat_le]
    omega
  | register now hstart =>
    simp only [State.withRegistry, wireChannels_maxAgents, wireChannels_activeCount]
    apply hle
  | insert hins =>
    obtain ⟨-, rfl⟩ := insertAtomic_eq_ok.mp hins
    apply hle
  | _ => apply hle

theorem counted_of_reaches {pool pool' : Pool State Operation}
    (hreach : (interleaved env).Reaches pool pool') (hcoun : Counted pool) :
  Counted pool'
  := by
  apply PoolSystem.invariant _ _ hreach hcoun
  · rintro s m op hstart ⟨hcount, hle⟩
    refine ⟨?_, hle⟩
    have hshare : op.hasFreeSlot = false ∧ op.hasRemoved = false := by
      cases op with
      | spawn | reserveSlot | stopSync | revoke => exact ⟨rfl, rfl⟩
      | _ => cases hstart
    simp only [Pool.count_cons, hshare.1, hshare.2, Bool.toNat_false, Nat.zero_add]
    apply hcount
  · rintro s m op s' op' hmove ⟨hcount, hle⟩
    simp only [Pool.count_cons] at hcount
    have hshare : op.share ≤ s.registry.activeCount.toNat := by
      unfold Operation.share
      omega
    refine ⟨?_, hmove.le_max hshare hle⟩
    have hbal := hmove.balance hshare
    simp only [Pool.count_rejoin]
    rw [Pool.count_shared _ s' s, Pool.count_shared _ s' s]
    unfold Operation.share at hbal
    cases op' with
    | none =>
      simp only [Option.elim_none] at hbal ⊢
      omega
    | some next =>
      simp only [Option.elim_some] at hbal ⊢
      omega

/-! ### The depth of agents -/

/-- The agents in the table are not too deep. -/
def Shallow (s : State) : Prop :=
  ∀ id process, s.registry.agents.lookup id = some process → process.depth ≤ maxSpawnDepth

/-- The agent of a spawn that has passed the check is not too deep. -/
def Operation.Shallow : Operation → Prop
  | reserving call _ => ∀ c ∈ call, c.depth ≤ maxSpawnDepth
  | issuing call .. | storing call .. | registering call .. => call.depth ≤ maxSpawnDepth
  | inserting _ process => process.depth ≤ maxSpawnDepth
  | _ => True

theorem Move.shallow (hmove : Move env s op s' op') (hshal : Shallow s) (hop : op.Shallow) :
  Shallow s'
  := by
  cases hmove with
  | register now hstart =>
    intro id process hlook
    simp only [State.withRegistry, wireChannels_agents] at hlook
    apply hshal id process hlook
  | insert hins =>
    obtain ⟨-, rfl⟩ := insertAtomic_eq_ok.mp hins
    intro id process hlook
    obtain ⟨-, rfl⟩ | ⟨-, hlook⟩ := lookup_insert_eq_some hlook
    · apply hop
    · apply hshal id process hlook
  | stop hfound hstop =>
    intro id process hlook
    obtain ⟨-, rfl⟩ | ⟨-, hlook⟩ := lookup_insert_eq_some hlook
    · rw [stopProcess_eq_ok hstop]
      apply hshal _ _ hfound
    · apply hshal id process hlook
  | remove hfound =>
    intro id process hlook
    apply hshal id process (lookup_of_lookup_erase hlook)
  | _ => apply hshal

theorem Move.operation_shallow {next : Operation} (hmove : Move env s op s' (some next))
    (hop : op.Shallow) :
  next.Shallow
  := by
  cases hmove with
  | load hdepth =>
    intro call hcall
    cases hcall
    apply UInt32.not_lt.mp hdepth
  | loadForSlot =>
    intro call hcall
    cases hcall
  | @exchange call hlimit =>
    cases call with
    | none => trivial
    | some call => apply hop call rfl
  | @register call handles process now hstart =>
    obtain ⟨-, rfl⟩ := AgentProcess.transitionTo_eq_ok.mp hstart
    simp only [Operation.Shallow, wireChannels_depth, SpawnCall.process_depth]
    apply hop
  | exchangeFails | fetchAdd | store | endIssuing => apply hop
  | _ => trivial

theorem shallow_keeps :
  (interleaved env).Keeps Shallow (fun _ => Operation.Shallow) (fun _ _ => True)
  := by
  constructor
  case symm => simp
  case start =>
    intro s m op hstart _ _
    cases op with
    | spawn | reserveSlot | stopSync | revoke => exact ⟨trivial, by simp⟩
    | _ => cases hstart
  case shared =>
    intro s m op s' op' hmove hshal hop _
    apply hmove.shallow hshal hop
  case each =>
    intro s m op s' next hmove _ hop _
    apply hmove.operation_shallow hop
  case others => simp +contextual
  case apart => simp

end Steps

/-! ### The registry -/

/-- In every interleaving the number of active agents counts the agents in the table, the slots
reserved for others, and the removals that have not decremented it; it is at most the limit and
never decremented below zero; and no agent is too deep. -/
theorem controlled_of_reaches {env : SpawnEnv} {maxAgents : UInt64} {router : Option MessageRouter}
    {pool : Pool State Operation}
    (hreaches : (interleaved env).Reaches (initial maxAgents router) pool) :
  Controlled pool
  := by
  have hinit : Counted (initial maxAgents router) := by
    constructor
    case count => rfl
    case le_max => simp [initial, AgentRegistry.newWithLimit, UInt64.le_iff_toNat_le]
  have hcount := counted_of_reaches hreaches hinit
  have hshal : PoolSystem.Holds Shallow (fun _ => Operation.Shallow) (fun _ _ => True) pool := by
    apply shallow_keeps.holds_of_reaches hreaches
    constructor
    case shared =>
      intro id process hlook
      cases hlook
    case each => simp [initial]
    case apart => simp
  constructor
  case toCounted => apply hcount
  case positive =>
    intro op hmem hdec
    rw [UInt64.lt_iff_toNat_lt, hcount.count]
    cases op with
    | holding | releasing =>
      have hpos : 0 < pool.count Operation.hasFreeSlot := Pool.count_pos hmem rfl
      change 0 < _
      omega
    | decrementing id =>
      have hpos : 0 < pool.count Operation.hasRemoved := Pool.count_pos hmem rfl
      change 0 < _
      omega
    | _ => cases hdec
  case depth => apply hshal.shared

/-- A registry of one agent, which a spawn has put into the table without committing its
slot. -/
def oneInserted : Pool State Operation where
  shared := (initial 1 none).shared.withRegistry
    ((SpawnCall.spawnWithId searchManifest ⟨0⟩).run (plainSpawnEnv 0)
      (initial 1 none).shared.registry).2
  running := {.committing ⟨0⟩}

theorem reaches_oneInserted :
  (interleaved (plainSpawnEnv 0)).Reaches (initial 1 none) oneInserted
  := by
  have hstart : (Operation.spawn (.spawnWithId searchManifest ⟨0⟩)).isRequest = true := rfl
  apply Relation.ReflTransGen.head (.start hstart)
  apply reaches_committing
  · decide
  · rfl

theorem controlled_oneInserted :
  (interleaved (plainSpawnEnv 0)).Reaches (initial 1 none) oneInserted ∧ Controlled oneInserted
  := ⟨reaches_oneInserted, controlled_of_reaches reaches_oneInserted⟩

/-- Between the insertion of its agent and its commit, a slot would be counted twice. -/
theorem exists_count_ne :
  ∃ pool, (interleaved (plainSpawnEnv 0)).Reaches (initial 1 none) pool
    ∧ pool.shared.registry.activeCount.toNat
      ≠ pool.shared.registry.agents.keys.length + pool.count Operation.hasSlot
        + pool.count Operation.hasRemoved
  := by
  use oneInserted, reaches_oneInserted
  decide

end Lifecycle
