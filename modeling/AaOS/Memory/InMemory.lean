import Mathlib.Data.List.MinMax
import AaOS.Core.Capability
import AaOS.Lib.Machine
import AaOS.Lib.Table

/-!
# The memory store

`store` and `delete` of `InMemoryMemoryStore`, in `aaos-memory/src/in_memory.rs`.  A store drops the
record that is replaced, then the oldest records until there is room, and adds the new record.
-/

/-- A memory of an agent. -/
structure MemoryRecord where
  id : Uuid
  agentId : AgentId
  content : Text
  createdAt : Nat
  replaces : Option Uuid
  deriving DecidableEq

inductive MemoryError where
  | notFound (id : Uuid)

/-- The memories of each agent, and how many it may have. -/
structure InMemoryMemoryStore where
  records : Table AgentId (List MemoryRecord) := ∅
  maxRecords : Nat

/-- The first record among the oldest ones. -/
def oldestIdx (entries : List MemoryRecord) : Option Nat :=
  (entries.zipIdx.argmin fun e => e.1.createdAt).map (·.2)

theorem oldestIdx_lt {entries : List MemoryRecord} {idx : Nat}
    (hidx : oldestIdx entries = some idx) :
  idx < entries.length
  := by
  obtain ⟨e, harg, rfl⟩ := Option.map_eq_some_iff.mp hidx
  apply List.snd_lt_of_mem_zipIdx (List.argmin_mem harg)

/-- The loop that removes the oldest records until there is room for one more. -/
def evictOldest (maxRecords : Nat) (entries : List MemoryRecord) : List MemoryRecord :=
  if maxRecords ≤ entries.length then
    match _hidx : oldestIdx entries with
    | some idx => evictOldest maxRecords (entries.eraseIdx idx)
    | none => entries
  else entries
termination_by entries.length
decreasing_by
  have hlt := oldestIdx_lt _hidx
  rw [List.length_eraseIdx_of_lt hlt]
  omega

namespace InMemoryMemoryStore

variable (memory : InMemoryMemoryStore)

def entriesOf (agentId : AgentId) : List MemoryRecord := (memory.records.lookup agentId).getD []

def storedEntries (record : MemoryRecord) : List MemoryRecord :=
  let entries := memory.entriesOf record.agentId
  let entries :=
    match record.replaces with
    | some oldId => entries.filter (·.id ≠ oldId)
    | none => entries
  evictOldest memory.maxRecords entries ++ [record]

/-- Store a memory, in the place of the one it replaces. -/
def store (record : MemoryRecord) : InMemoryMemoryStore × Except MemoryError Uuid :=
  let entries := memory.storedEntries record
  ({ memory with records := memory.records.insert record.agentId entries }, .ok record.id)

/-- Delete a memory of an agent. -/
def delete (agentId : AgentId) (memoryId : Uuid) : InMemoryMemoryStore × Except MemoryError Unit :=
  match memory.records.lookup agentId with
  | none => (memory, .error (.notFound memoryId))
  | some entries =>
    let remaining := entries.filter (·.id ≠ memoryId)
    ({ memory with records := memory.records.insert agentId remaining },
      if remaining.length = entries.length then .error (.notFound memoryId) else .ok ())

end InMemoryMemoryStore

/-- The operations that change the store. -/
inductive MemoryOperation where
  | store (record : MemoryRecord)
  | delete (agentId : AgentId) (memoryId : Uuid)

namespace InMemoryMemoryStore

/-- The store after an operation. -/
def step (memory : InMemoryMemoryStore) : MemoryOperation → InMemoryMemoryStore
  | .store record => (memory.store record).1
  | .delete agentId memoryId => (memory.delete agentId memoryId).1

/-- The records that are stored have identifiers that no record before had. -/
def FreshIds (operations : List MemoryOperation) : Prop :=
  EachAfter (fun before operation => ∀ record, operation = .store record →
    ∀ earlier, .store earlier ∈ before → earlier.id ≠ record.id) operations

/-- After a store, the new record is there, the records are within the limit, and a record that
replaces one of them takes its place. -/
structure StoresWell (memory memory' : InMemoryMemoryStore) (record : MemoryRecord) : Prop where
  present : record ∈ memory'.entriesOf record.agentId
  bounded : (memory'.entriesOf record.agentId).length ≤ max 1 memory.maxRecords
  replaced : ∀ old ∈ memory.entriesOf record.agentId, record.replaces = some old.id →
    memory'.entriesOf record.agentId = (memory.entriesOf record.agentId).erase old ++ [record]
  others : ∀ agentId ≠ record.agentId, memory'.entriesOf agentId = memory.entriesOf agentId

/-- The records of an agent after a delete: only the one with the identifier is gone. -/
structure DeletesWell (memory memory' : InMemoryMemoryStore) (agentId : AgentId)
    (memoryId : Uuid) : Prop where
  removed : ∀ record ∈ memory.entriesOf agentId, record.id = memoryId →
    memory'.entriesOf agentId = (memory.entriesOf agentId).erase record
  missing : (∀ record ∈ memory.entriesOf agentId, record.id ≠ memoryId) →
    memory'.entriesOf agentId = memory.entriesOf agentId
  others : ∀ agentId' ≠ agentId, memory'.entriesOf agentId' = memory.entriesOf agentId'

def Disciplined (memory : InMemoryMemoryStore) : MemoryOperation → Prop
  | .store record => StoresWell memory (memory.store record).1 record
  | .delete agentId memoryId =>
    DeletesWell memory (memory.delete agentId memoryId).1 agentId memoryId

/-! ### Eviction -/

section Entries

variable {maxRecords : Nat} {entries : List MemoryRecord}

theorem evictOldest_of_lt (hlt : entries.length < maxRecords) :
  evictOldest maxRecords entries = entries
  := by
  rw [evictOldest, if_neg (Nat.not_le.mpr hlt)]

theorem evictOldest_nil :
  evictOldest maxRecords [] = []
  := by
  rw [evictOldest]
  split_ifs <;> rfl

variable (maxRecords entries)

theorem evictOldest_sublist :
  (evictOldest maxRecords entries).Sublist entries
  := by
  fun_induction evictOldest maxRecords entries with
  | case1 entries hfull idx hidx ih => apply ih.trans (List.eraseIdx_sublist ..)
  | case2 entries hfull hidx => rfl
  | case3 entries hroom => rfl

theorem length_evictOldest :
  (evictOldest maxRecords entries).length + 1 ≤ max 1 maxRecords
  := by
  fun_induction evictOldest maxRecords entries with
  | case1 entries hfull idx hidx ih => apply ih
  | case2 entries hfull hidx =>
    have hnil : entries = [] := by
      rw [oldestIdx, Option.map_eq_none_iff, List.argmin_eq_none] at hidx
      apply List.zipIdx_eq_nil_iff.mp hidx
    subst hnil
    apply Nat.le_max_left
  | case3 entries hroom =>
    apply le_max_of_le_right (Nat.not_le.mp hroom)

variable {entries}

/-- When identifiers are distinct, erasing an identifier erases its record. -/
theorem filter_ne_id_eq_erase (hnodup : (entries.map (·.id)).Nodup) {old : MemoryRecord}
    (hold : old ∈ entries) :
  entries.filter (·.id ≠ old.id) = entries.erase old
  := by
  rw [(List.Nodup.of_map _ hnodup).erase_eq_filter]
  apply List.filter_congr
  intro record hrec
  have hid : record.id = old.id ↔ record = old :=
    ⟨fun heq => List.inj_on_of_nodup_map hnodup hrec hold heq, congrArg _⟩
  rw [bne, beq_eq_decide, ← decide_not]
  simp [hid]

end Entries

/-! ### Runs -/

variable {memory : InMemoryMemoryStore} {record : MemoryRecord} {agentId : AgentId}
  {memoryId : Uuid}

theorem entriesOf_store (agentId : AgentId) :
  (memory.store record).1.entriesOf agentId
    = if agentId = record.agentId then memory.storedEntries record else memory.entriesOf agentId
  := by
  unfold entriesOf store
  rw [Table.lookup_insert']
  split_ifs <;> rfl

theorem entriesOf_delete (agentId' : AgentId) :
  (memory.delete agentId memoryId).1.entriesOf agentId'
    = if agentId' = agentId then (memory.entriesOf agentId).filter (·.id ≠ memoryId)
      else memory.entriesOf agentId'
  := by
  unfold delete
  split
  case h_1 hlook =>
    split_ifs with heq
    · subst heq
      simp [entriesOf, hlook]
    · rfl
  case h_2 entries hlook =>
    unfold entriesOf
    rw [Table.lookup_insert', hlook]
    split_ifs <;> rfl

/-- A store keeps some of the records of the agent. -/
theorem exists_storedEntries_eq (memory : InMemoryMemoryStore) (record : MemoryRecord) :
  ∃ remaining : List MemoryRecord, remaining.Sublist (memory.entriesOf record.agentId)
    ∧ memory.storedEntries record = remaining ++ [record]
    ∧ remaining.length + 1 ≤ max 1 memory.maxRecords
  := by
  unfold storedEntries
  refine ⟨_, (evictOldest_sublist ..).trans ?_, rfl, length_evictOldest ..⟩
  split
  · apply List.filter_sublist
  · rfl

/-- The records of an agent were stored, have different identifiers, and are within the limit. -/
structure Kept (past : List MemoryOperation) (memory : InMemoryMemoryStore) : Prop where
  stored : ∀ agentId, ∀ record ∈ memory.entriesOf agentId, .store record ∈ past
  nodup : ∀ agentId, ((memory.entriesOf agentId).map (·.id)).Nodup
  bounded : ∀ agentId, (memory.entriesOf agentId).length ≤ max 1 memory.maxRecords

variable {past : List MemoryOperation}

theorem Kept.store (hkept : Kept past memory)
    (hfresh : ∀ earlier, .store earlier ∈ past → earlier.id ≠ record.id) :
  Kept (past ++ [.store record]) (memory.store record).1
  := by
  obtain ⟨remaining, hsub, hstore, hlen⟩ := exists_storedEntries_eq memory record
  constructor
  case stored =>
    intro agentId record' hmem
    rw [entriesOf_store, hstore] at hmem
    rw [List.mem_append, List.mem_singleton]
    split_ifs at hmem
    · obtain hmem | hmem := List.mem_append.mp hmem
      · exact .inl (hkept.stored _ _ (hsub.mem hmem))
      · exact .inr (congrArg _ (List.mem_singleton.mp hmem))
    · exact .inl (hkept.stored _ _ hmem)
  case nodup =>
    intro agentId
    rw [entriesOf_store, hstore]
    split_ifs
    · rw [List.map_append, List.nodup_append_comm, List.map_singleton, List.singleton_append,
        List.nodup_cons]
      refine ⟨?_, (hkept.nodup _).sublist (hsub.map _)⟩
      intro hmem
      obtain ⟨earlier, hear, hid⟩ := List.mem_map.mp hmem
      apply hfresh earlier (hkept.stored _ _ (hsub.mem hear)) hid
    · apply hkept.nodup
  case bounded =>
    intro agentId
    rw [entriesOf_store, hstore]
    split_ifs
    · rw [List.length_append]
      apply hlen
    · apply hkept.bounded

theorem Kept.delete (hkept : Kept past memory) (agentId : AgentId) (memoryId : Uuid) :
  Kept (past ++ [.delete agentId memoryId]) (memory.delete agentId memoryId).1
  := by
  have hlimit : (memory.delete agentId memoryId).1.maxRecords = memory.maxRecords := by
    unfold InMemoryMemoryStore.delete
    split <;> rfl
  have hsub : ∀ agentId', ((memory.delete agentId memoryId).1.entriesOf agentId').Sublist
      (memory.entriesOf agentId') := by
    intro agentId'
    rw [entriesOf_delete]
    split_ifs with heq
    · subst heq
      apply List.filter_sublist
    · rfl
  constructor
  case stored =>
    intro agentId' record hmem
    apply List.mem_append_left _ (hkept.stored _ _ ((hsub agentId').mem hmem))
  case nodup =>
    intro agentId'
    apply (hkept.nodup agentId').sublist ((hsub agentId').map _)
  case bounded =>
    intro agentId'
    rw [hlimit]
    apply (hsub agentId').length_le.trans (hkept.bounded agentId')

theorem kept_after (maxRecords : Nat) {operations : List MemoryOperation}
    (hfresh : FreshIds operations) :
  Kept operations (Machine.after step { maxRecords } operations)
  := by
  induction operations using List.reverseRecOn with
  | nil => exact ⟨fun _ _ hmem => (by cases hmem), fun _ => List.nodup_nil, fun _ => Nat.zero_le _⟩
  | append_singleton operations operation ih =>
    have hkept := ih hfresh.of_append
    rw [Machine.after_concat]
    cases operation with
    | store record => exact hkept.store (hfresh.next record rfl)
    | delete agentId memoryId => exact hkept.delete agentId memoryId

/-- A record that replaces another one of the agent leaves room for itself. -/
theorem Kept.storedEntries_of_replaces (hkept : Kept past memory) {old : MemoryRecord}
    (hold : old ∈ memory.entriesOf record.agentId) (hrep : record.replaces = some old.id) :
  memory.storedEntries record = (memory.entriesOf record.agentId).erase old ++ [record]
  := by
  have hlen := List.length_erase_of_mem hold
  have hbound := hkept.bounded record.agentId
  simp only [storedEntries, hrep, filter_ne_id_eq_erase (hkept.nodup _) hold]
  rw [List.append_left_inj]
  by_cases hnil : (memory.entriesOf record.agentId).erase old = []
  · rw [hnil, evictOldest_nil]
  · apply evictOldest_of_lt
    have hpos := List.length_pos_iff.mpr hnil
    omega

theorem Kept.disciplined (hkept : Kept past memory) {operation : MemoryOperation}
    (hfresh : ∀ record, operation = .store record →
      ∀ earlier, .store earlier ∈ past → earlier.id ≠ record.id) :
  Disciplined memory operation
  := by
  cases operation with
  | store record =>
    obtain ⟨remaining, -, hstore, hlen⟩ := exists_storedEntries_eq memory record
    have hent : (memory.store record).1.entriesOf record.agentId
        = memory.storedEntries record := by
      rw [entriesOf_store, if_pos rfl]
    constructor
    case present => simp [hent, hstore]
    case bounded =>
      rw [hent, hstore, List.length_append]
      apply hlen
    case replaced =>
      intro old hold hrep
      rw [hent, hkept.storedEntries_of_replaces hold hrep]
    case others =>
      intro agentId hne
      rw [entriesOf_store, if_neg hne]
  | delete agentId memoryId =>
    constructor
    case removed =>
      rintro record hrec rfl
      rw [entriesOf_delete, if_pos rfl, filter_ne_id_eq_erase (hkept.nodup _) hrec]
    case missing =>
      intro hmis
      rw [entriesOf_delete, if_pos rfl, List.filter_eq_self]
      intro record hrec
      simp [hmis record hrec]
    case others =>
      intro agentId' hne
      rw [entriesOf_delete, if_neg hne]

/-- Every operation of a run with fresh identifiers is disciplined, whatever the limit. -/
theorem everyStep_disciplined (maxRecords : Nat) {operations : List MemoryOperation}
    (hfresh : FreshIds operations) :
  Machine.EveryStep step Disciplined { maxRecords } operations
  := by
  rintro before operation rest rfl
  apply (kept_after maxRecords hfresh.of_append).disciplined hfresh.next

def noteOf (id : Uuid) (replaces : Option Uuid) : MemoryRecord := ⟨id, ⟨0⟩, "note", id, replaces⟩

/-- A record is stored, replaced, and the second one is deleted. -/
theorem everyStep_disciplined_notes :
  Machine.EveryStep step Disciplined { maxRecords := 1 }
    [.store (noteOf 1 none), .store (noteOf 2 (some 1)), .delete ⟨0⟩ 2]
  := by
  have hnone : FreshIds [] := EachAfter.nil
  have hfirst : FreshIds [.store (noteOf 1 none)] :=
    hnone.snoc (a := .store (noteOf 1 none)) (by rintro _ - _ ⟨⟩)
  have hsec : FreshIds [.store (noteOf 1 none), .store (noteOf 2 (some 1))] := by
    apply hfirst.snoc (a := .store (noteOf 2 (some 1)))
    rintro _ ⟨⟩ earlier hmem
    cases List.mem_singleton.mp hmem
    decide
  apply everyStep_disciplined
  exact hsec.snoc (a := .delete ⟨0⟩ 2) (by rintro _ ⟨⟩)

end InMemoryMemoryStore
