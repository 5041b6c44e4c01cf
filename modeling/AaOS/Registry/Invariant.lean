import AaOS.Lib.Passage
import AaOS.Registry.Inventory

/-!
# Invariants of the inventory

Every handle is allocated once and every identifier drawn once, and the two settle in the table at
most once, together.  Every entry counts the uses of its token, and a limit on the uses is kept.  A
token that has been marked, or was narrowed from a revoked token, is revoked as long as it is held.
-/

open List Table OwnedEntry

namespace Interleaving

/-! ### Handles and identifiers -/

/-- The handles are numbered in the order of their allocation, and handles and
identifiers settle once. -/
structure Placed (past : History) (v : Inventory) : Prop where
  nextId_eq : v.nextId.toNat = past.allocated.length
  lt_nextId : ∀ h ∈ past.allocated, h.raw < v.nextId
  handles : Passage past.allocated v.handles (past.inserted.map (·.1))
  tokens : Passage past.drawn (v.tokens.map (·.id)) (past.inserted.map (·.2.token.id))

namespace Placed

theorem init (installed : Bool) :
  Placed {} (initial installed).inventory
  := by
  have hinit : (initial installed).inventory = ⟨∅, 0, 0, 0⟩ := by
    cases installed <;> rfl
  rw [hinit]
  constructor
  · rfl
  · simp
  all_goals apply Passage.nil

variable {past : History} {v : Inventory}

variable (hplace : Placed past v)

include hplace

theorem eq_of_id {x y : CapabilityHandle × OwnedEntry} (hx : x ∈ past.inserted)
    (hy : y ∈ past.inserted) (hid : x.2.token.id = y.2.token.id) :
  x = y
  := inj_on_of_nodup_map hplace.tokens.nodup_settled hx hy hid

variable {token : CapabilityToken}

theorem id_ne_of_inserted {x : CapabilityHandle × OwnedEntry} (hx : x ∈ past.inserted)
    (htoken : token ∈ v.tokens) :
  token.id ≠ x.2.token.id
  := by
  intro hid
  apply hplace.tokens.not_mem_underWay (mem_map_of_mem hx)
  rw [← hid]
  apply Multiset.mem_map_of_mem _ htoken

theorem nextId_not_mem :
  (⟨v.nextId⟩ : CapabilityHandle) ∉ past.allocated
  := by
  intro hmem
  apply UInt64.lt_irrefl _ (hplace.lt_nextId _ hmem)

theorem draw (hfresh : token.id ∉ past.drawn) (pairs : List (CapabilityToken × CapabilityToken)) :
  Placed { past with drawn := past.drawn ++ [token.id], narrowed := pairs }
    { v with tokens := token ::ₘ v.tokens }
  := by
  constructor
  · apply hplace.nextId_eq
  · apply hplace.lt_nextId
  · apply hplace.handles
  · rw [Multiset.map_cons]
    apply hplace.tokens.issue hfresh

theorem allocate (hfew : past.allocated.length + 1 < 2 ^ 64) :
  Placed { past with allocated := past.allocated ++ [⟨v.nextId⟩] }
    { v with nextId := v.nextId + 1, handles := ⟨v.nextId⟩ ::ₘ v.handles }
  := by
  have hsucc : (v.nextId + 1).toNat = v.nextId.toNat + 1 := by
    rw [UInt64.toNat_add, hplace.nextId_eq]
    exact Nat.mod_eq_of_lt hfew
  constructor
  · simp [hsucc, hplace.nextId_eq]
  · intro h hmem
    rw [UInt64.lt_iff_toNat_lt, hsucc, Nat.lt_succ_iff]
    rw [mem_append, mem_singleton] at hmem
    obtain hmem | rfl := hmem
    · exact Nat.le_of_lt (UInt64.lt_iff_toNat_lt.mp (hplace.lt_nextId h hmem))
    · rfl
  · apply hplace.handles.issue hplace.nextId_not_mem
  · apply hplace.tokens

theorem store {h : CapabilityHandle} {tokens : Multiset CapabilityToken}
    {handles : Multiset CapabilityHandle} (htoken : v.tokens = token ::ₘ tokens)
    (hhand : v.handles = h ::ₘ handles) (agentId : AgentId)
    (table : Table CapabilityHandle OwnedEntry) :
  Placed { past with inserted := past.inserted ++ [(h, ⟨agentId, token⟩)] }
    ⟨table, v.nextId, tokens, handles⟩
  := by
  constructor
  · apply hplace.nextId_eq
  · apply hplace.lt_nextId
  · rw [map_append]
    apply Passage.settle
    rw [← hhand]
    apply hplace.handles
  · rw [map_append]
    apply Passage.settle
    rw [← Multiset.map_cons, ← htoken]
    apply hplace.tokens

theorem of_table (uses : List Use) (marked : List Uuid)
    (table : Table CapabilityHandle OwnedEntry) :
  Placed { past with uses := uses, marked := marked } { v with table := table }
  := ⟨hplace.nextId_eq, hplace.lt_nextId, hplace.handles, hplace.tokens⟩

theorem step {v' : Inventory} {e : Event} (hstep : v.Step e v')
    (hfresh : ∀ id ∈ (History.record {} e).drawn, id ∉ past.drawn)
    (hfew : (past.record e).allocated.length < 2 ^ 64) :
  Placed (past.record e) v'
  := by
  cases hstep with
  | quiet hquiet =>
    rw [record_of_isQuiet hquiet]
    apply hplace
  | draw agentId token => apply hplace.draw (hfresh _ (by simp [History.record, Call.token]))
  | narrow hlook hrev => apply hplace.draw (hfresh _ (by simp [History.record]))
  | allocate =>
    apply hplace.allocate
    simpa [History.record] using hfew
  | store agentId htoken hhand => apply hplace.store htoken hhand
  | authorize | mark | remove => apply hplace.of_table

end Placed

/-! ### Uses -/

/-- The token `current` is the inserted one after `n` uses; a limited count does not wrap
around. -/
structure Counted (n : Nat) (token current : CapabilityToken) : Prop where
  id_eq : current.id = token.id
  constraints_eq : current.constraints = token.constraints
  count_eq : current.invocationCount = token.invocationCount + UInt64.ofNat n
  toNat_eq : ∀ max ∈ token.constraints.maxInvocations,
    current.invocationCount.toNat = token.invocationCount.toNat + n
  le : ∀ max ∈ token.constraints.maxInvocations, n = 0 ∨ current.invocationCount ≤ max

namespace Counted

variable {n : Nat} {token current : CapabilityToken}

theorem refl (token : CapabilityToken) :
  Counted 0 token token
  where
  id_eq := rfl
  constraints_eq := rfl
  count_eq := by simp
  toNat_eq := by simp
  le := by simp

variable (hcoun : Counted n token current)

include hcoun

theorem le_max {max : UInt64} (hmax : max ∈ token.constraints.maxInvocations) :
  n ≤ max.toNat
  := by
  have hcount := hcoun.toNat_eq max hmax
  obtain hzero | hle := hcoun.le max hmax
  · omega
  · rw [UInt64.le_iff_toNat_le] at hle
    omega

theorem revoke (now : DateTime) :
  Counted n token { current with revokedAt := some now }
  := ⟨hcoun.id_eq, hcoun.constraints_eq, hcoun.count_eq, hcoun.toNat_eq, hcoun.le⟩

theorem recordUse (hleft : current.isExhausted = false) :
  Counted (n + 1) token current.recordUse.1
  := by
  have hlt : ∀ max ∈ token.constraints.maxInvocations, current.invocationCount < max := by
    intro max hmax
    simp only [CapabilityToken.isExhausted, hcoun.constraints_eq, Option.mem_def.mp hmax,
      Option.any_some, ge_iff_le, decide_eq_false_iff_not, UInt64.not_le] at hleft
    apply hleft
  have hsucc : ∀ max ∈ token.constraints.maxInvocations,
      (current.invocationCount + 1).toNat = current.invocationCount.toNat + 1 := by
    intro max hmax
    have hbound := UInt64.lt_iff_toNat_lt.mp (hlt max hmax)
    rw [UInt64.toNat_add]
    exact Nat.mod_eq_of_lt (by have := max.toNat_lt; simp; omega)
  constructor
  · apply hcoun.id_eq
  · apply hcoun.constraints_eq
  · change current.invocationCount + 1 = _
    rw [hcoun.count_eq, UInt64.ofNat_add, UInt64.add_assoc]
    rfl
  · intro max hmax
    change (current.invocationCount + 1).toNat = _
    rw [hsucc max hmax, hcoun.toNat_eq max hmax, Nat.add_assoc]
  · intro max hmax
    right
    change current.invocationCount + 1 ≤ max
    rw [UInt64.le_iff_toNat_le, hsucc max hmax]
    apply UInt64.lt_iff_toNat_lt.mp (hlt max hmax)

end Counted

/-- Entries count the uses of their tokens; uses were granted to the agent of the token; limits are
kept. -/
structure Recorded (past : History) (v : Inventory) : Prop where
  counted : ∀ h entry, v.table.lookup h = some entry →
    ∃ token, (h, ⟨entry.agentId, token⟩) ∈ past.inserted
      ∧ Counted (past.successes token.id) token entry.token
  inserted_of_use : ∀ use ∈ past.uses,
    ∃ token, (use.handle, ⟨use.agentId, token⟩) ∈ past.inserted ∧ token.id = use.tokenId
  limited : ∀ x ∈ past.inserted, ∀ max ∈ x.2.token.constraints.maxInvocations,
    past.successes x.2.token.id ≤ max.toNat

namespace Recorded

theorem init (installed : Bool) :
  Recorded {} (initial installed).inventory
  := by
  constructor
  · intro h entry hlook
    cases installed <;> cases hlook
  · simp
  · simp

variable {past : History} {v : Inventory}

variable (hrec : Recorded past v)

include hrec

theorem successes_eq_zero {id : Uuid} (hnew : ∀ x ∈ past.inserted, x.2.token.id ≠ id) :
  past.successes id = 0
  := by
  rw [History.successes, countP_eq_zero]
  intro use huse
  obtain ⟨token, hmem, hid⟩ := hrec.inserted_of_use use huse
  simp only [decide_eq_true_eq, ← hid]
  apply hnew _ hmem

theorem of_table {past' : History} {v' : Inventory} (hins : past'.inserted = past.inserted)
    (huses : past'.uses = past.uses) (htable : ∀ h entry', v'.table.lookup h = some entry' →
      ∃ entry, v.table.lookup h = some entry ∧ entry'.agentId = entry.agentId
        ∧ ∀ n token, Counted n token entry.token → Counted n token entry'.token) :
  Recorded past' v'
  := by
  constructor
  · intro h entry' hlook'
    obtain ⟨entry, hlook, hagent, hkeep⟩ := htable h entry' hlook'
    obtain ⟨token, hmem, hcoun⟩ := hrec.counted h entry hlook
    use token
    rw [hagent, hins, History.successes, huses]
    exact ⟨hmem, hkeep _ _ hcoun⟩
  · rw [huses, hins]
    apply hrec.inserted_of_use
  · rw [hins]
    unfold History.successes
    rw [huses]
    apply hrec.limited

theorem store (hplace : Placed past v) {h : CapabilityHandle} {token : CapabilityToken}
    {tokens : Multiset CapabilityToken} {handles : Multiset CapabilityHandle}
    (htoken : v.tokens = token ::ₘ tokens) (agentId : AgentId) :
  Recorded { past with inserted := past.inserted ++ [(h, ⟨agentId, token⟩)] }
    ⟨v.table.insert h ⟨agentId, token⟩, v.nextId, tokens, handles⟩
  := by
  have hzero : past.successes token.id = 0 := by
    apply hrec.successes_eq_zero
    intro x hx
    symm
    apply hplace.id_ne_of_inserted hx
    simp [htoken]
  constructor
  · intro h' entry hlook
    obtain ⟨rfl, rfl⟩ | ⟨hne, hlook⟩ := lookup_insert_eq_some hlook
    · use token
      refine ⟨by simp, ?_⟩
      change Counted (past.successes token.id) token token
      rw [hzero]
      apply Counted.refl
    · obtain ⟨token', hmem, hcoun⟩ := hrec.counted h' entry hlook
      use token'
      exact ⟨mem_append_left _ hmem, hcoun⟩
  · intro use huse
    obtain ⟨token', hmem, hid⟩ := hrec.inserted_of_use use huse
    use token'
    exact ⟨mem_append_left _ hmem, hid⟩
  · intro x hx max hmax
    rw [mem_append, mem_singleton] at hx
    obtain hx | rfl := hx
    · apply hrec.limited x hx max hmax
    · change past.successes token.id ≤ _
      omega

theorem authorize (hplace : Placed past v) {h : CapabilityHandle} {entry : OwnedEntry}
    (hlook : v.table.lookup h = some entry) (hleft : entry.token.isExhausted = false) :
  Recorded { past with uses := past.uses ++ [⟨h, entry.agentId, entry.token.id⟩] }
    { v with table := v.table.insert h { entry with token := entry.token.recordUse.1 } }
  := by
  obtain ⟨token, hmem, hcoun⟩ := hrec.counted h entry hlook
  have hsucc : ∀ id, History.successes
      { past with uses := past.uses ++ [⟨h, entry.agentId, entry.token.id⟩] } id
        = past.successes id + if token.id = id then 1 else 0 := by
    intro id
    simp [History.successes, hcoun.id_eq]
  have hcoun' := hcoun.recordUse hleft
  constructor
  · intro h' entry' hlook'
    obtain ⟨rfl, rfl⟩ | ⟨hne, hlook'⟩ := lookup_insert_eq_some hlook'
    · use token
      rw [hsucc, if_pos rfl]
      exact ⟨hmem, hcoun'⟩
    · obtain ⟨token', hmem', hcoun⟩ := hrec.counted h' entry' hlook'
      use token'
      have hid : token.id ≠ token'.id := by
        intro hid
        have heq := hplace.eq_of_id hmem hmem' hid
        simp only [Prod.mk.injEq] at heq
        apply hne heq.1.symm
      rw [hsucc, if_neg hid]
      exact ⟨hmem', hcoun⟩
  · intro use huse
    rw [mem_append, mem_singleton] at huse
    obtain huse | rfl := huse
    · apply hrec.inserted_of_use use huse
    · exact ⟨token, hmem, hcoun.id_eq.symm⟩
  · intro x hx max hmax
    rw [hsucc]
    split_ifs with hid
    · obtain rfl := hplace.eq_of_id hmem hx hid
      apply hcoun'.le_max hmax
    · apply hrec.limited x hx max hmax

theorem step (hplace : Placed past v) {v' : Inventory} {e : Event} (hstep : v.Step e v') :
  Recorded (past.record e) v'
  := by
  cases hstep with
  | quiet hquiet =>
    rw [record_of_isQuiet hquiet]
    apply hrec
  | draw | narrow | allocate =>
    refine Recorded.of_table hrec ?_ ?_ ?_
    · rfl
    · rfl
    intro h entry hlook
    use entry
    exact ⟨hlook, rfl, fun _ _ hcoun => hcoun⟩
  | store agentId htoken hhand => apply hrec.store hplace htoken
  | authorize hlook hok =>
    obtain ⟨rfl, hperm, rfl⟩ := authorizeAndRecord_eq_ok hok
    apply hrec.authorize hplace hlook
    apply CapabilityToken.not_isExhausted_of_permits hperm
  | @mark h selected now entry revoked hlook hrev =>
    obtain ⟨hsel, hnot, rfl⟩ := revokeIf_eq_some hrev
    refine Recorded.of_table hrec ?_ ?_ ?_
    · rfl
    · rfl
    intro h' entry' hlook'
    obtain ⟨rfl, rfl⟩ | ⟨hne, hlook'⟩ := lookup_insert_eq_some hlook'
    · use entry
      exact ⟨hlook, rfl, fun _ _ hcoun => hcoun.revoke now⟩
    · use entry'
      exact ⟨hlook', rfl, fun _ _ hcoun => hcoun⟩
  | remove h =>
    refine Recorded.of_table hrec ?_ ?_ ?_
    · rfl
    · rfl
    intro h' entry hlook
    use entry
    exact ⟨lookup_of_lookup_erase hlook, rfl, fun _ _ hcoun => hcoun⟩

end Recorded

/-! ### Revocation -/

/-- The token is under way to the table, or in it. -/
def Inventory.Holds (v : Inventory) (token : CapabilityToken) : Prop :=
  token ∈ v.tokens ∨ ∃ h entry, v.table.lookup h = some entry ∧ entry.token = token

def History.Withdrawn (past : History) (tokenId : Uuid) : Prop :=
  tokenId ∈ past.marked ∨ ∃ p ∈ past.narrowed, p.2.id = tokenId ∧ p.2.isRevoked = true

structure Finality (past : History) (v : Inventory) : Prop where
  inserted_of_marked : ∀ id ∈ past.marked, ∃ x ∈ past.inserted, x.2.token.id = id
  drawn_of_narrowed : ∀ p ∈ past.narrowed, p.2.id ∈ past.drawn
  nodup_marked : past.marked.Nodup
  revoked : ∀ token, v.Holds token → past.Withdrawn token.id → token.isRevoked = true

namespace Finality

theorem init (installed : Bool) :
  Finality {} (initial installed).inventory
  := by
  constructor
  · simp
  · simp
  · simp
  · rintro token - (hmark | ⟨p, hp, -⟩)
    · cases hmark
    · cases hp

variable {past : History} {v : Inventory}

theorem drawn_of_withdrawn (hfinal : Finality past v) (hplace : Placed past v) {id : Uuid}
    (hwit : past.Withdrawn id) :
  id ∈ past.drawn
  := by
  obtain hmark | ⟨p, hp, rfl, -⟩ := hwit
  · obtain ⟨x, hx, rfl⟩ := hfinal.inserted_of_marked id hmark
    apply hplace.tokens.mem_issued_of_settled (mem_map_of_mem hx)
  · apply hfinal.drawn_of_narrowed p hp

variable {token : CapabilityToken}

theorem drawn_of_holds (hplace : Placed past v) (hrec : Recorded past v) (hholds : v.Holds token) :
  token.id ∈ past.drawn
  := by
  obtain htoken | ⟨h, entry, hlook, rfl⟩ := hholds
  · apply hplace.tokens.mem_issued_of_underWay (Multiset.mem_map_of_mem _ htoken)
  · obtain ⟨token, hmem, hcoun⟩ := hrec.counted h entry hlook
    rw [hcoun.id_eq]
    apply hplace.tokens.mem_issued_of_settled (mem_map_of_mem hmem)

variable (hfinal : Finality past v)

include hfinal

theorem draw (hplace : Placed past v) (hrec : Recorded past v) (hfresh : token.id ∉ past.drawn)
    (pairs : List (CapabilityToken × CapabilityToken)) (hpairs : ∀ p ∈ pairs, p.2 = token) :
  Finality
    { past with drawn := past.drawn ++ [token.id], narrowed := past.narrowed ++ pairs }
    { v with tokens := token ::ₘ v.tokens }
  := by
  constructor
  · apply hfinal.inserted_of_marked
  · intro p hp
    simp only [mem_append, mem_singleton] at hp ⊢
    obtain hp | hp := hp
    · exact .inl (hfinal.drawn_of_narrowed p hp)
    · exact .inr (by rw [hpairs p hp])
  · apply hfinal.nodup_marked
  · intro held hholds hwit
    have hcases : held = token ∨ v.Holds held := by
      simp only [Inventory.Holds, Multiset.mem_cons] at hholds
      obtain (hsame | hmem) | hentry := hholds
      · exact .inl hsame
      · exact .inr (.inl hmem)
      · exact .inr (.inr hentry)
    have hcases' : past.Withdrawn held.id ∨ (held.id = token.id ∧ token.isRevoked = true) := by
      obtain hmark | ⟨p, hp, hid, hrev⟩ := hwit
      · exact .inl (.inl hmark)
      · obtain hp | hp := mem_append.mp hp
        · exact .inl (.inr ⟨p, hp, hid, hrev⟩)
        · rw [hpairs p hp] at hid hrev
          exact .inr ⟨hid.symm, hrev⟩
    obtain rfl | hholds := hcases
    · obtain hold | ⟨-, hrev⟩ := hcases'
      · cases hfresh (hfinal.drawn_of_withdrawn hplace hold)
      · apply hrev
    · obtain hold | ⟨hid, -⟩ := hcases'
      · apply hfinal.revoked held hholds hold
      · cases hfresh (hid ▸ drawn_of_holds hplace hrec hholds)

theorem of_holds {past' : History} {v' : Inventory} (hdrawn : past'.drawn = past.drawn)
    (hnar : past'.narrowed = past.narrowed) (hmark : past'.marked = past.marked)
    (hins : past.inserted ⊆ past'.inserted) (hholds : ∀ token', v'.Holds token' →
      ∃ token, v.Holds token ∧ token'.id = token.id ∧ token'.isRevoked = token.isRevoked) :
  Finality past' v'
  := by
  constructor
  · rw [hmark]
    intro id hid
    obtain ⟨x, hx, rfl⟩ := hfinal.inserted_of_marked id hid
    exact ⟨x, hins hx, rfl⟩
  · rw [hnar, hdrawn]
    apply hfinal.drawn_of_narrowed
  · rw [hmark]
    apply hfinal.nodup_marked
  · intro token' hholds' hwit
    obtain ⟨token, hheld, hid, hsame⟩ := hholds token' hholds'
    rw [History.Withdrawn, hmark, hnar, hid] at hwit
    rw [hsame]
    apply hfinal.revoked token hheld hwit

variable {h : CapabilityHandle}

/-- Storing an entry: its token was under way. -/
theorem store {tokens : Multiset CapabilityToken} {handles : Multiset CapabilityHandle}
    (htoken : v.tokens = token ::ₘ tokens) (agentId : AgentId) :
  Finality { past with inserted := past.inserted ++ [(h, ⟨agentId, token⟩)] }
    ⟨v.table.insert h ⟨agentId, token⟩, v.nextId, tokens, handles⟩
  := by
  refine of_holds hfinal ?_ ?_ ?_ ?_ ?_
  · rfl
  · rfl
  · rfl
  · simp
  rintro held (hmem | ⟨h', entry, hlook, rfl⟩)
  · exact ⟨held, .inl (by simp [htoken, hmem]), rfl, rfl⟩
  · obtain ⟨rfl, rfl⟩ | ⟨hne, hlook⟩ := lookup_insert_eq_some hlook
    · exact ⟨token, .inl (by simp [htoken]), rfl, rfl⟩
    · exact ⟨entry.token, .inr ⟨h', entry, hlook, rfl⟩, rfl, rfl⟩

theorem authorize {entry : OwnedEntry} (hlook : v.table.lookup h = some entry) (uses : List Use) :
  Finality { past with uses := uses }
    { v with table := v.table.insert h { entry with token := entry.token.recordUse.1 } }
  := by
  refine of_holds hfinal ?_ ?_ ?_ ?_ ?_
  · rfl
  · rfl
  · rfl
  · simp
  rintro held (hmem | ⟨h', entry', hlook', rfl⟩)
  · exact ⟨held, .inl hmem, rfl, rfl⟩
  · obtain ⟨rfl, rfl⟩ | ⟨hne, hlook'⟩ := lookup_insert_eq_some hlook'
    · exact ⟨entry.token, .inr ⟨h', entry, hlook, rfl⟩, rfl, rfl⟩
    · exact ⟨entry'.token, .inr ⟨h', entry', hlook', rfl⟩, rfl, rfl⟩

theorem mark (hplace : Placed past v) (hrec : Recorded past v) {entry : OwnedEntry}
    (hlook : v.table.lookup h = some entry) (hnot : entry.token.isRevoked = false)
    (now : DateTime) :
  Finality { past with marked := past.marked ++ [entry.token.id] }
    { v with
      table := v.table.insert h
        { entry with token := { entry.token with revokedAt := some now } } }
  := by
  obtain ⟨token, hmem, hcoun⟩ := hrec.counted h entry hlook
  constructor
  · intro id hid
    rw [mem_append, mem_singleton] at hid
    obtain hid | rfl := hid
    · apply hfinal.inserted_of_marked id hid
    · exact ⟨_, hmem, hcoun.id_eq.symm⟩
  · apply hfinal.drawn_of_narrowed
  · rw [nodup_append]
    refine ⟨hfinal.nodup_marked, nodup_singleton _, ?_⟩
    rintro id hid _ hsame rfl
    rw [mem_singleton] at hsame
    subst hsame
    have hrev := hfinal.revoked entry.token (.inr ⟨h, entry, hlook, rfl⟩) (.inl hid)
    rw [hnot] at hrev
    cases hrev
  · intro held hholds hwit
    have hcases : past.Withdrawn held.id ∨ held.id = entry.token.id := by
      simp only [History.Withdrawn, mem_append, mem_singleton] at hwit
      obtain (hmark | hid) | hnar := hwit
      · exact .inl (.inl hmark)
      · exact .inr hid
      · exact .inl (.inr hnar)
    obtain hheld | ⟨h', entry', hlook', rfl⟩ := hholds
    · obtain hold | hid := hcases
      · apply hfinal.revoked held (.inl hheld) hold
      · cases hplace.id_ne_of_inserted hmem hheld (hid.trans hcoun.id_eq)
    · obtain ⟨rfl, rfl⟩ | ⟨hne, hlook'⟩ := lookup_insert_eq_some hlook'
      · rfl
      · obtain hold | hid := hcases
        · apply hfinal.revoked _ (.inr ⟨h', entry', hlook', rfl⟩) hold
        · obtain ⟨token', hmem', hcoun'⟩ := hrec.counted h' entry' hlook'
          have heq := hplace.eq_of_id hmem' hmem
            (hcoun'.id_eq.symm.trans (hid.trans hcoun.id_eq))
          simp only [Prod.mk.injEq] at heq
          cases hne heq.1

theorem step (hplace : Placed past v) (hrec : Recorded past v) {v' : Inventory} {e : Event}
    (hstep : v.Step e v') (hfresh : ∀ id ∈ (History.record {} e).drawn, id ∉ past.drawn) :
  Finality (past.record e) v'
  := by
  cases hstep with
  | quiet hquiet =>
    rw [record_of_isQuiet hquiet]
    apply hfinal
  | draw agentId token =>
    have hdraw := hfinal.draw hplace hrec
      (hfresh token.id (by simp [History.record, Call.token])) [] (by simp)
    rw [append_nil] at hdraw
    apply hdraw
  | narrow hlook hrev =>
    apply hfinal.draw hplace hrec (hfresh _ (by simp [History.record]))
    simp
  | allocate =>
    refine of_holds hfinal ?_ ?_ ?_ ?_ ?_
    · rfl
    · rfl
    · rfl
    · apply List.Subset.refl
    intro token hholds
    exact ⟨token, hholds, rfl, rfl⟩
  | store agentId htoken hhand => apply hfinal.store htoken
  | authorize hlook hok =>
    obtain ⟨rfl, hperm, rfl⟩ := authorizeAndRecord_eq_ok hok
    apply hfinal.authorize hlook
  | mark hlook hrev =>
    obtain ⟨hsel, hnot, rfl⟩ := revokeIf_eq_some hrev
    apply hfinal.mark hplace hrec hlook hnot
  | remove h =>
    refine of_holds hfinal ?_ ?_ ?_ ?_ ?_
    · rfl
    · rfl
    · rfl
    · apply List.Subset.refl
    rintro token (hmem | ⟨h', entry, hlook, rfl⟩)
    · exact ⟨token, .inl hmem, rfl, rfl⟩
    · exact ⟨entry.token, .inr ⟨h', entry, lookup_of_lookup_erase hlook, rfl⟩, rfl, rfl⟩

end Finality

end Interleaving
