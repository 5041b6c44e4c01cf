import AaOS.Registry.Concurrent

/-!
# The inventory of a registry

An inventory has the table, the next handle, and the tokens and handles that are under way to the
table.  A token is drawn, a handle is allocated, and the two leave for the table together.  Every
step of the interleaved operations is a step of the inventory.
-/

namespace Interleaving

def Call.handle : Call → Option CapabilityHandle
  | storing _ _ h => some h
  | _ => none

/-- The table, the next handle, and the tokens and handles under way to the table. -/
structure Inventory where
  table : Table CapabilityHandle OwnedEntry
  nextId : UInt64
  tokens : Multiset CapabilityToken
  handles : Multiset CapabilityHandle

def State.inventory (s : State) : Inventory where
  table := s.registry.table
  nextId := s.registry.nextId
  tokens := s.calls.filterMap Call.token
  handles := s.calls.filterMap Call.handle

theorem inventory_cons (registry : CapabilityRegistry) (calls : Multiset Call) (call : Call) :
  State.inventory ⟨registry, call ::ₘ calls⟩
    = ⟨registry.table, registry.nextId,
        call.token.elim (calls.filterMap Call.token) (· ::ₘ calls.filterMap Call.token),
        call.handle.elim (calls.filterMap Call.handle) (· ::ₘ calls.filterMap Call.handle)⟩
  := by
  cases htoken : call.token <;> cases hhand : call.handle <;>
    simp [State.inventory, Multiset.filterMap_cons_none, Multiset.filterMap_cons_some, htoken,
      hhand]

/-- The event concerns neither the inventory nor the history. -/
def Event.isQuiet : Event → Bool
  | started call => call.token.isNone
  | refused | denied _ | notified _ | passed => true
  | allocated _ | inserted .. | narrowed .. | authorized .. | marked _ | removed _ => false

variable {e : Event}

theorem record_of_isQuiet (hquiet : e.isQuiet = true) (past : History) :
  past.record e = past
  := by
  cases e with
  | started call => simp [History.record, Option.isNone_iff_eq_none.mp hquiet]
  | refused | denied | notified | passed => rfl
  | allocated | inserted | narrowed | authorized | marked | removed => cases hquiet

/-- One step of the inventory. -/
inductive Inventory.Step (v : Inventory) : Event → Inventory → Prop
  | quiet {e : Event} (hquiet : e.isQuiet = true) : Step v e v
  | draw (agentId : AgentId) (token : CapabilityToken) :
      Step v (.started (.insert agentId token)) { v with tokens := token ::ₘ v.tokens }
  | narrow {h} {entry : OwnedEntry} {child : CapabilityToken}
      (hlookup : v.table.lookup h = some entry)
      (hrevoked : child.revokedAt = entry.token.revokedAt) :
      Step v (.narrowed entry.token child) { v with tokens := child ::ₘ v.tokens }
  | allocate :
      Step v (.allocated ⟨v.nextId⟩)
        { v with nextId := v.nextId + 1, handles := ⟨v.nextId⟩ ::ₘ v.handles }
  | store {h token tokens handles} (agentId : AgentId) (htokens : v.tokens = token ::ₘ tokens)
      (hhandles : v.handles = h ::ₘ handles) :
      Step v (.inserted h agentId token)
        { v with
          table := v.table.insert h ⟨agentId, token⟩
          tokens := tokens
          handles := handles }
  | authorize {h agentId requested} {entry : OwnedEntry} {used canonicalize now}
      (hlookup : v.table.lookup h = some entry)
      (hok : entry.authorizeAndRecord canonicalize now agentId requested = .ok used) :
      Step v (.authorized h entry.token.id agentId) { v with table := v.table.insert h used }
  | mark {h selected now} {entry : OwnedEntry} {revoked} (hlookup : v.table.lookup h = some entry)
      (hrevoked : entry.revokeIf selected now = some revoked) :
      Step v (.marked entry.token.id) { v with table := v.table.insert h revoked }
  | remove (h : CapabilityHandle) : Step v (.removed h) { v with table := v.table.erase h }

theorem Inventory.Step.of_authorized {v v' : Inventory} {h : CapabilityHandle} {id : Uuid}
    {agentId : AgentId} (hstep : v.Step (.authorized h id agentId) v') :
  ∃ entry, v.table.lookup h = some entry ∧ entry.token.id = id
    ∧ entry.token.isRevoked = false
  := by
  cases hstep with
  | quiet hquiet => cases hquiet
  | authorize hlook hok =>
    obtain ⟨-, hperm, -⟩ := OwnedEntry.authorizeAndRecord_eq_ok hok
    exact ⟨_, hlook, rfl, CapabilityToken.not_isRevoked_of_permits hperm⟩

theorem Inventory.Step.of_narrowed {v v' : Inventory} {parent child : CapabilityToken}
    (hstep : v.Step (.narrowed parent child) v') :
  child.revokedAt = parent.revokedAt
    ∧ ∃ h entry, v.table.lookup h = some entry ∧ entry.token = parent
  := by
  cases hstep with
  | quiet hquiet => cases hquiet
  | narrow hlook hrev => exact ⟨hrev, _, _, hlook, rfl⟩

theorem revokedAt_narrowed
    {canonicalize : Text → Option Text} {id : Uuid} {parentAgent childAgent : AgentId}
    {additional : Constraints} {entry : OwnedEntry} {child : CapabilityToken}
    {narrowing : Narrowing}
    (hchild : narrowing.narrowed canonicalize id parentAgent childAgent additional entry
      = some child) :
  child.revokedAt = entry.token.revokedAt
  := by
  obtain _ | requested := narrowing
  · simp only [Narrowing.narrowed, OwnedEntry.narrow, ite_not] at hchild
    split_ifs at hchild
    cases hchild
    rfl
  · simp only [Narrowing.narrowed, OwnedEntry.narrowWithCapability,
      CapabilityToken.narrowWithCapability, ite_not] at hchild
    split_ifs at hchild
    cases hchild
    rfl

/-- A call that begins draws the token that it is to insert, if any. -/
theorem inventory_start {registry : CapabilityRegistry} {calls : Multiset Call} {call : Call}
    (hreq : call.isRequest = true) :
  Inventory.Step (State.inventory ⟨registry, calls⟩) (.started call)
    (State.inventory ⟨registry, call ::ₘ calls⟩)
  := by
  rw [inventory_cons]
  cases call with
  | insert agentId token => apply Inventory.Step.draw
  | storing | revoking | notifying | removing => cases hreq
  | narrow | authorizeAndRecord | revoke | removeAgent =>
    apply Inventory.Step.quiet
    rfl

theorem inventory_advance {registry registry' : CapabilityRegistry} {calls : Multiset Call}
    {call : Call} {call' : Option Call} (hcall : CallStep registry call e registry' call') :
  Inventory.Step (State.inventory ⟨registry, call ::ₘ calls⟩) e
    (State.inventory ⟨registry', call'.elim calls (· ::ₘ calls)⟩)
  := by
  cases hcall with
  | fetchAdd agentId token =>
    simp only [Option.elim, inventory_cons]
    apply Inventory.Step.allocate
  | store agentId token h =>
    simp only [Option.elim, inventory_cons]
    apply Inventory.Step.store agentId <;> rfl
  | readParent canonicalize id hlook hchild =>
    simp only [Option.elim, inventory_cons]
    apply Inventory.Step.narrow hlook (revokedAt_narrowed hchild)
  | authorize canonicalize now hlook hok =>
    simp only [Option.elim, inventory_cons]
    apply Inventory.Step.authorize hlook hok
  | mark now hlook hrev =>
    simp only [Option.elim, inventory_cons]
    apply Inventory.Step.mark hlook hrev
  | remove hlook howned =>
    simp only [Option.elim, inventory_cons]
    apply Inventory.Step.remove
  | refuseNarrowing | denyUnknown | deny | beginRevoking | passOver | endRevoking | notify
  | endNotifying | beginRemoving | keep | endRemoving =>
    simp only [Option.elim, inventory_cons]
    apply Inventory.Step.quiet
    rfl

theorem Step.inventory {s s' : State} (hstep : Step s e s') :
  Inventory.Step s.inventory e s'.inventory
  := by
  obtain hreq | hcall := hstep
  · apply inventory_start hreq
  · apply inventory_advance hcall

end Interleaving
