import AaOS.Runtime.Lifecycle

/-!
# What the steps of an operation leave alone

Each operation on agents has the identifier of one agent as its target.  Its steps change
the process, the channel and the tokens of that agent only; the one exception is a
revocation that was requested by itself, which revokes the tokens it selects.
-/

open AgentRegistry AList

namespace Interleaving

def Call.Revokes (revocation : Revocation) : Call → Prop
  | revoke revocation' | revoking revocation' _ _ => revocation' = revocation
  | notifying _ => True
  | _ => False

def Call.Removes (agentId : AgentId) : Call → Prop
  | removeAgent agentId' | removing agentId' _ => agentId' = agentId
  | _ => False

section Loops

variable {registry registry' : CapabilityRegistry} {call : Call} {call' : Option Call} {e : Event}

variable (hstep : CallStep registry call e registry' call')

include hstep

theorem CallStep.of_revokes {revocation : Revocation} (hcall : call.Revokes revocation) :
  registry'.nextId = registry.nextId ∧ (∀ next ∈ call', next.Revokes revocation)
    ∧ (registry'.table = registry.table
      ∨ ∃ h entry now, registry.table.lookup h = some entry ∧ revocation.selected entry = true
        ∧ registry'.table
          = registry.table.insert h
            { entry with token := { entry.token with revokedAt := some now } })
  := by
  cases hstep with
  | mark now hlook hrev =>
    cases hcall
    obtain ⟨hsel, -, rfl⟩ := OwnedEntry.revokeIf_eq_some hrev
    refine ⟨rfl, ?_, .inr ⟨_, _, now, hlook, hsel, rfl⟩⟩
    rintro next ⟨⟩
    rfl
  | beginRevoking horder | passOver now hnone =>
    cases hcall
    refine ⟨rfl, ?_, .inl rfl⟩
    rintro next ⟨⟩
    rfl
  | endRevoking revocation marked | notify tokenId tokenIds =>
    refine ⟨rfl, ?_, .inl rfl⟩
    rintro next ⟨⟩
    trivial
  | endNotifying =>
    refine ⟨rfl, ?_, .inl rfl⟩
    rintro next ⟨⟩
  | _ => cases hcall

theorem CallStep.of_removes {agentId : AgentId} (hcall : call.Removes agentId) :
  registry'.nextId = registry.nextId ∧ (∀ next ∈ call', next.Removes agentId)
    ∧ (registry'.table = registry.table
      ∨ ∃ h entry, registry.table.lookup h = some entry ∧ entry.agentId = agentId
        ∧ registry'.table = registry.table.erase h)
  := by
  cases hstep with
  | remove hlook howned =>
    cases hcall
    refine ⟨rfl, ?_, .inr ⟨_, _, hlook, of_decide_eq_true howned, rfl⟩⟩
    rintro next ⟨⟩
    rfl
  | beginRemoving horder | keep hkeep =>
    cases hcall
    refine ⟨rfl, ?_, .inl rfl⟩
    rintro next ⟨⟩
    rfl
  | endRemoving agentId =>
    refine ⟨rfl, ?_, .inl rfl⟩
    rintro next ⟨⟩
  | _ => cases hcall

theorem CallStep.lookup_of_revokes {revocation : Revocation} {h : CapabilityHandle}
    (hcall : call.Revokes revocation) (hnone : registry.table.lookup h = none) :
  registry'.table.lookup h = none
  := by
  obtain ⟨-, -, hsame | ⟨h', entry, now, hentry, -, htable⟩⟩ := hstep.of_revokes hcall
  · rw [hsame, hnone]
  · have hne : h ≠ h' := by
      rintro rfl
      rw [hnone] at hentry
      cases hentry
    rw [htable, lookup_insert_ne hne, hnone]

theorem CallStep.lookup_of_removes {agentId : AgentId} {h : CapabilityHandle}
    (hcall : call.Removes agentId) (hnone : registry.table.lookup h = none) :
  registry'.table.lookup h = none
  := by
  obtain ⟨-, -, hsame | ⟨h', entry, hentry, -, htable⟩⟩ := hstep.of_removes hcall
  · rw [hsame, hnone]
  · have hne : h ≠ h' := by
      rintro rfl
      rw [hnone] at hentry
      cases hentry
    rw [htable, lookup_erase_ne hne, hnone]

end Loops

end Interleaving

namespace Lifecycle

open Interleaving (CallStep Revocation)

namespace Operation

def target : Operation → Option AgentId
  | spawn call | issuing call .. | storing call .. | registering call .. => some call.id
  | reserving call _ => call.map (·.id)
  | stopSync id | inserting id _ | committing id | unregistering id | removing id | clearing id _
  | forgetting id _ | decrementing id => some id
  | reserveSlot | revoke _ | holding | releasing | revoking _ => none

def spawns : Operation → Bool
  | spawn _ | issuing .. | storing .. | registering .. | inserting .. | committing .. => true
  | reserving call _ => call.isSome
  | _ => false

/-- The handle that the operation has drawn and not stored. -/
def pending : Operation → Option CapabilityHandle
  | storing _ _ _ _ h => some h
  | _ => none

/-- The loops of the operation are those it has begun, and the handle it has drawn is not in
use. -/
def Regular (s : State) : Operation → Prop
  | storing _ _ _ _ h => s.registry.capabilityRegistry.table.lookup h = none
  | clearing id loop => loop.Revokes (.revokeAllForAgent id)
  | forgetting id loop => loop.Removes id
  | revoking loop => ∃ revocation ∈ s.explicit, loop.Revokes revocation
  | _ => True

end Operation

def Resolves (s : State) (id : AgentId) (h : CapabilityHandle) : Prop :=
  ∃ entry, s.registry.capabilityRegistry.table.lookup h = some entry ∧ entry.agentId = id
    ∧ (entry.token.isRevoked = false ∨ ∃ revocation ∈ s.explicit, revocation.selected entry = true)

structure Wired (s : State) (id : AgentId) (process : AgentProcess) : Prop where
  resolves : ∀ h ∈ process.capabilities, Resolves s id h
  channel : ∀ router ∈ s.registry.router, ∃ channel, router.channels.lookup id = some channel
    ∧ process.messageRx = some channel

/-- What belongs to an agent is as it was. -/
structure Frames (id : AgentId) (s s' : State) : Prop where
  agents : s'.registry.agents.lookup id = s.registry.agents.lookup id
  channel : ∀ router' ∈ s'.registry.router, ∃ router ∈ s.registry.router,
    router'.channels.lookup id = router.channels.lookup id
  resolves : ∀ h, Resolves s id h → Resolves s' id h

section Steps

variable {env : SpawnEnv} {s s' : State} {op : Operation} {op' : Option Operation} {id : AgentId}

theorem Frames.refl (id : AgentId) (s : State) :
  Frames id s s
  := by
  constructor
  case agents => rfl
  case channel =>
    intro router hroute
    use router, hroute
  case resolves => simp

theorem Wired.frames {process : AgentProcess} (hwired : Wired s id process)
    (hframe : Frames id s s') :
  Wired s' id process
  := by
  constructor
  case resolves =>
    intro h hmem
    apply hframe.resolves h (hwired.resolves h hmem)
  case channel =>
    intro router' hroute'
    obtain ⟨router, hroute, hsame⟩ := hframe.channel router' hroute'
    rw [hsame]
    apply hwired.channel router hroute

/-! ### Steps on the capabilities -/

variable {capabilities : CapabilityRegistry}

theorem frames_withCapabilities
    (hres : ∀ h, Resolves s id h → Resolves (s.withCapabilities capabilities) id h) :
  Frames id s (s.withCapabilities capabilities)
  := by
  constructor
  case agents => rfl
  case channel =>
    intro router hroute
    use router, hroute
  case resolves => apply hres

variable {h : CapabilityHandle}

theorem resolves_store {h' : CapabilityHandle} {entry : OwnedEntry}
    (hnone : s.registry.capabilityRegistry.table.lookup h' = none)
    (htable : capabilities.table = s.registry.capabilityRegistry.table.insert h' entry)
    (hres : Resolves s id h) :
  Resolves (s.withCapabilities capabilities) id h
  := by
  obtain ⟨found, hlook, howner, hrev⟩ := hres
  refine ⟨found, ?_, howner, hrev⟩
  have hne : h ≠ h' := by
    rintro rfl
    rw [hnone] at hlook
    cases hlook
  change capabilities.table.lookup h = some found
  rw [htable, lookup_insert_ne hne, hlook]

theorem resolves_revoke {revocation : Revocation} {loop : Interleaving.Call}
    {loop' : Option Interleaving.Call} {e : Interleaving.Event}
    (hstep : CallStep s.registry.capabilityRegistry loop e capabilities loop')
    (hloop : loop.Revokes revocation) (hall : revocation ∈ s.explicit
      ∨ ∀ entry, revocation.selected entry = true → entry.agentId ≠ id)
    (hres : Resolves s id h) :
  Resolves (s.withCapabilities capabilities) id h
  := by
  obtain ⟨found, hlook, howner, hrev⟩ := hres
  obtain ⟨-, -, hsame | ⟨h', entry, now, hentry, hsel, htable⟩⟩ := hstep.of_revokes hloop
  · refine ⟨found, ?_, howner, hrev⟩
    change capabilities.table.lookup h = some found
    rw [hsame, hlook]
  · by_cases heq : h = h'
    · subst heq
      rw [hlook] at hentry
      cases hentry
      refine ⟨{ found with token := { found.token with revokedAt := some now } }, ?_, howner, ?_⟩
      · change capabilities.table.lookup h = _
        rw [htable, lookup_insert]
      · right
        obtain hexp | hother := hall
        · use revocation, hexp
          cases revocation <;> apply hsel
        · apply absurd howner (hother found hsel)
    · refine ⟨found, ?_, howner, hrev⟩
      change capabilities.table.lookup h = some found
      rw [htable, lookup_insert_ne heq, hlook]

theorem resolves_remove {other : AgentId} {loop : Interleaving.Call}
    {loop' : Option Interleaving.Call} {e : Interleaving.Event}
    (hstep : CallStep s.registry.capabilityRegistry loop e capabilities loop')
    (hloop : loop.Removes other) (hne : other ≠ id) (hres : Resolves s id h) :
  Resolves (s.withCapabilities capabilities) id h
  := by
  obtain ⟨found, hlook, howner, hrev⟩ := hres
  refine ⟨found, ?_, howner, hrev⟩
  change capabilities.table.lookup h = some found
  obtain ⟨-, -, hsame | ⟨h', entry, hentry, hrem, htable⟩⟩ := hstep.of_removes hloop
  · rw [hsame, hlook]
  · have hne' : h ≠ h' := by
      rintro rfl
      rw [hlook] at hentry
      cases hentry
      apply hne (hrem.symm.trans howner)
    rw [htable, lookup_erase_ne hne', hlook]

/-! ### The steps of an operation -/

theorem frames_wireChannels {other : AgentId} (hne : other ≠ id) (process : AgentProcess) :
  Frames id s (s.withRegistry (s.registry.wireChannels other process).1)
  := by
  constructor
  case agents => simp [State.withRegistry]
  case channel =>
    unfold State.withRegistry wireChannels
    cases hroute : s.registry.router with
    | none => simp [hroute]
    | some router =>
      rintro router' ⟨⟩
      use router, rfl
      apply lookup_insert_ne hne.symm
  case resolves =>
    intro h hres
    unfold Resolves State.withRegistry
    rw [wireChannels_capabilityRegistry]
    apply hres

variable (hmove : Move env s op s' op')

include hmove

theorem Move.frames (hreg : op.Regular s) (htar : op.target ≠ some id) :
  Frames id s s'
  := by
  have hself := Frames.refl id s
  cases hmove with
  | exchange | dropSlot | release | decrement =>
    exact ⟨hself.agents, hself.channel, hself.resolves⟩
  | fetchAdd uuid time htoken hstep =>
    cases hstep
    apply frames_withCapabilities
    intro h hres
    apply hres
  | store hstep =>
    cases hstep
    apply frames_withCapabilities
    intro h hres
    apply resolves_store hreg rfl hres
  | register now hstart =>
    apply frames_wireChannels
    rintro rfl
    apply htar rfl
  | @insert other process registry hins =>
    have hne : id ≠ other := by
      rintro rfl
      apply htar rfl
    obtain ⟨-, rfl⟩ := insertAtomic_eq_ok.mp hins
    exact ⟨lookup_insert_ne hne, hself.channel, hself.resolves⟩
  | @stop other process stopped hlook hstop =>
    have hne : id ≠ other := by
      rintro rfl
      apply htar rfl
    exact ⟨lookup_insert_ne hne, hself.channel, hself.resolves⟩
  | unregister other =>
    refine ⟨rfl, ?_, hself.resolves⟩
    intro router' hroute'
    obtain ⟨router, hroute, rfl⟩ := Option.map_eq_some_iff.mp hroute'
    use router, hroute
    apply lookup_erase_ne
    rintro rfl
    apply htar rfl
  | @remove other process hlook =>
    have hne : id ≠ other := by
      rintro rfl
      apply htar rfl
    exact ⟨lookup_erase_ne hne, hself.channel, hself.resolves⟩
  | @clear other loop loop' capabilities e hstep
  | @endClearing other loop capabilities e hstep =>
    apply frames_withCapabilities
    intro h hres
    apply resolves_revoke hstep hreg _ hres
    right
    intro entry hsel howner
    apply htar
    rw [← howner]
    apply congrArg some (of_decide_eq_true hsel).symm
  | @forget other loop loop' capabilities e hstep
  | @endForgetting other loop capabilities e hstep =>
    apply frames_withCapabilities
    intro h hres
    apply resolves_remove hstep hreg _ hres
    rintro rfl
    apply htar rfl
  | request revocation =>
    refine ⟨hself.agents, hself.channel, ?_⟩
    rintro h ⟨entry, hlook, howner, hrev⟩
    refine ⟨entry, hlook, howner, ?_⟩
    obtain hrev | ⟨revocation', hmem, hsel⟩ := hrev
    · left
      apply hrev
    · right
      use revocation', List.mem_cons_of_mem _ hmem
  | revoke hstep | endRevoking hstep =>
    obtain ⟨revocation, hmem, hloop⟩ := hreg
    apply frames_withCapabilities
    intro h hres
    apply resolves_revoke hstep hloop (.inl hmem) hres
  | _ => apply hself

/-- What a step does to the table of agents. -/
theorem Move.agents_cases :
  s'.registry.agents = s.registry.agents
    ∨ (∃ id process, op = .inserting id process ∧ s.registry.agents.lookup id = none
      ∧ s'.registry.agents = s.registry.agents.insert id process)
    ∨ (∃ id process, op = .stopSync id ∧ s.registry.agents.lookup id = some process
      ∧ s'.registry.agents = s.registry.agents.insert id { process with state := .stopped }
      ∧ op' = some (.unregistering id))
    ∨ (∃ id, op = .removing id ∧ s'.registry.agents = s.registry.agents.erase id)
  := by
  cases hmove with
  | register now hstart =>
    left
    apply wireChannels_agents
  | insert hins =>
    right
    left
    obtain ⟨hlook, rfl⟩ := insertAtomic_eq_ok.mp hins
    exact ⟨_, _, rfl, hlook, rfl⟩
  | stop hlook hstop =>
    right
    right
    left
    rw [stopProcess_eq_ok hstop]
    exact ⟨_, _, rfl, hlook, rfl, rfl⟩
  | remove hlook =>
    right
    right
    right
    exact ⟨_, rfl, rfl⟩
  | _ =>
    left
    rfl

theorem Move.absent (hspawn : op.spawns = true → op.target ≠ some id)
    (hnone : s.registry.agents.lookup id = none) :
  s'.registry.agents.lookup id = none
  := by
  obtain hsame | ⟨other, process, rfl, -, hagent⟩ | ⟨other, process, rfl, hlook, hagent, -⟩
    | ⟨other, rfl, hagent⟩ := hmove.agents_cases
  · rw [hsame, hnone]
  · have hne : id ≠ other := by
      rintro rfl
      apply hspawn rfl rfl
    rw [hagent, lookup_insert_ne hne, hnone]
  · have hne : id ≠ other := by
      rintro rfl
      rw [hnone] at hlook
      cases hlook
    rw [hagent, lookup_insert_ne hne, hnone]
  · rw [hagent]
    rcases hlook : (s.registry.agents.erase other).lookup id with - | process
    · rfl
    · have hfound := Table.lookup_of_lookup_erase hlook
      rw [hnone] at hfound
      cases hfound

/-- The agent is stopped, if it is in the table. -/
def Halted (s : State) (id : AgentId) : Prop :=
  ∀ process, s.registry.agents.lookup id = some process → process.state = .stopped

theorem Move.halted (hspawn : op.spawns = true → op.target ≠ some id) (hhalt : Halted s id) :
  Halted s' id
  := by
  intro process' hproc'
  obtain hsame | ⟨other, process, rfl, -, hagent⟩ | ⟨other, process, rfl, hlook, hagent, -⟩
    | ⟨other, rfl, hagent⟩ := hmove.agents_cases
  · rw [hsame] at hproc'
    apply hhalt process' hproc'
  · rw [hagent] at hproc'
    obtain ⟨rfl, -⟩ | ⟨-, hfound⟩ := Table.lookup_insert_eq_some hproc'
    · apply absurd rfl (hspawn rfl)
    · apply hhalt process' hfound
  · rw [hagent] at hproc'
    obtain ⟨-, rfl⟩ | ⟨-, hfound⟩ := Table.lookup_insert_eq_some hproc'
    · rfl
    · apply hhalt process' hfound
  · rw [hagent] at hproc'
    apply hhalt process' (Table.lookup_of_lookup_erase hproc')

/-- A handle comes into use when the operation that has drawn it stores its token. -/
theorem Move.lookup_handle (hreg : op.Regular s) (hpend : op.pending ≠ some h)
    (hnone : s.registry.capabilityRegistry.table.lookup h = none) :
  s'.registry.capabilityRegistry.table.lookup h = none
  := by
  cases hmove with
  | fetchAdd uuid time htoken hstep =>
    cases hstep
    apply hnone
  | store hstep =>
    cases hstep
    apply Eq.trans (lookup_insert_ne _) hnone
    rintro rfl
    apply hpend rfl
  | register now hstart =>
    simp only [State.withRegistry, wireChannels_capabilityRegistry]
    apply hnone
  | insert hins =>
    obtain ⟨-, rfl⟩ := insertAtomic_eq_ok.mp hins
    apply hnone
  | clear hstep | endClearing hstep => apply hstep.lookup_of_revokes hreg hnone
  | forget hstep | endForgetting hstep => apply hstep.lookup_of_removes hreg hnone
  | revoke hstep | endRevoking hstep =>
    obtain ⟨revocation, -, hloop⟩ := hreg
    apply hstep.lookup_of_revokes hloop hnone
  | _ => apply hnone

theorem Move.nextId_cases (hreg : op.Regular s) :
  s'.registry.capabilityRegistry.nextId = s.registry.capabilityRegistry.nextId
    ∨ ∃ call capability rest handles, op = .issuing call (capability :: rest) handles
      ∧ s'.registry.capabilityRegistry.nextId = s.registry.capabilityRegistry.nextId + 1
  := by
  cases hmove with
  | fetchAdd uuid time htoken hstep =>
    right
    cases hstep
    exact ⟨_, _, _, _, rfl, rfl⟩
  | store hstep =>
    left
    cases hstep
    rfl
  | register now hstart =>
    left
    simp only [State.withRegistry, wireChannels_capabilityRegistry]
  | insert hins =>
    left
    obtain ⟨-, rfl⟩ := insertAtomic_eq_ok.mp hins
    rfl
  | clear hstep | endClearing hstep =>
    left
    apply (hstep.of_revokes hreg).1
  | forget hstep | endForgetting hstep =>
    left
    apply (hstep.of_removes hreg).1
  | revoke hstep | endRevoking hstep =>
    left
    obtain ⟨revocation, -, hloop⟩ := hreg
    apply (hstep.of_revokes hloop).1
  | _ =>
    left
    rfl

theorem Move.explicit {revocation : Revocation} (hmem : revocation ∈ s.explicit) :
  revocation ∈ s'.explicit
  := by
  cases hmove with
  | request revocation' => apply List.mem_cons_of_mem _ hmem
  | _ => apply hmem

end Steps

end Lifecycle
