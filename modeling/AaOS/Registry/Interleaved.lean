import Mathlib.Data.Multiset.Bind
import AaOS.Registry.Invariant

/-!
# What every interleaving of registry operations guarantees

The invariants of the inventory hold after every run of the interleaved operations.  With them goes
an invariant of the notifier: the tokens marked as revoked are those the notifier has been called
with and those a call under way has still to publish.  A revocation is followed among the other
calls from its start to its return, when it has marked the tokens that it selects.
-/

open List OwnedEntry Option

namespace Interleaving

/-! ### Histories -/

theorem marked_append (before after : List Event) :
  (history (before ++ after)).marked = (history before).marked ++ (history after).marked
  := by
  induction after using reverseRecOn with
  | nil => simp [history]
  | append_singleton after e ih =>
    rw [← append_assoc, history_snoc, history_snoc]
    cases e <;> simp [History.record, ih]

variable {trace : List Event}

theorem exists_of_mem_uses {use : Use} (huse : use ∈ (history trace).uses) :
  ∃ before after, trace = before ++ .authorized use.handle use.tokenId use.agentId :: after
  := by
  induction trace using reverseRecOn with
  | nil => cases huse
  | append_singleton trace e ih =>
    rw [history_snoc] at huse
    have hcases : use ∈ (history trace).uses
        ∨ e = .authorized use.handle use.tokenId use.agentId := by
      cases e with
      | authorized h tokenId agentId =>
        simp only [History.record, mem_append, mem_singleton] at huse
        obtain huse | rfl := huse
        · exact .inl huse
        · exact .inr rfl
      | _ => exact .inl huse
    obtain huse | rfl := hcases
    · obtain ⟨before, after, rfl⟩ := ih huse
      use before, after ++ [e]
      simp
    · use trace, []

/-! ### Tokens narrowed from revoked tokens -/

def Unused (past : History) : Prop :=
  ∀ p ∈ past.narrowed, p.2.isRevoked = true → ∀ use ∈ past.uses, use.tokenId ≠ p.2.id

theorem Unused.step {past : History} {v v' : Inventory} {e : Event} (hunus : Unused past)
    (hplace : Placed past v) (hrec : Recorded past v) (hfinal : Finality past v)
    (hstep : v.Step e v') (hfresh : ∀ id ∈ (History.record {} e).drawn, id ∉ past.drawn) :
  Unused (past.record e)
  := by
  cases hstep with
  | quiet hquiet =>
    rw [record_of_isQuiet hquiet]
    apply hunus
  | draw | allocate | store | mark | remove => apply hunus
  | @narrow h entry child hlook hrev =>
    intro p hp hborn use huse hid
    simp only [History.record, mem_append, mem_singleton] at hp
    obtain hp | rfl := hp
    · apply hunus p hp hborn use huse hid
    · obtain ⟨token, hmem, htoken⟩ := hrec.inserted_of_use use huse
      apply hfresh child.id (by simp [History.record])
      rw [← hid, ← htoken]
      apply hplace.tokens.mem_issued_of_settled (mem_map_of_mem hmem)
  | @authorize h agentId requested entry used canonicalize now hlook hok =>
    obtain ⟨rfl, hperm, rfl⟩ := authorizeAndRecord_eq_ok hok
    intro p hp hborn use huse hid
    simp only [History.record, mem_append, mem_singleton] at huse
    obtain huse | rfl := huse
    · apply hunus p hp hborn use huse hid
    · have hrev := hfinal.revoked entry.token (.inr ⟨h, entry, hlook, rfl⟩)
        (.inr ⟨p, hp, hid.symm, hborn⟩)
      rw [CapabilityToken.not_isRevoked_of_permits hperm] at hrev
      cases hrev

/-! ### Notifications -/

def Call.owed : Call → List Uuid
  | revoking _ _ marked => marked
  | notifying tokenIds => tokenIds
  | _ => []

/-- The tokens that the calls under way have marked and not published. -/
def owed (calls : Multiset Call) : Multiset Uuid := calls.bind (fun call => call.owed)

@[simp]
theorem owed_cons (calls : Multiset Call) (call : Call) :
  owed (call ::ₘ calls) = (call.owed : Multiset Uuid) + owed calls
  := Multiset.cons_bind ..

def Call.OnTarget : Call → Prop
  | revoking (.revoke tokenId) _ marked => ∀ id ∈ marked, id = tokenId
  | _ => True

/-- The marked tokens are those that the notifier got and those that a call has still to publish. -/
structure Notified (past : History) (s : State) : Prop where
  onTarget : ∀ call ∈ s.calls, call.OnTarget
  marked_eq : ∃ log, s.registry.notifier = some log
    ∧ (past.marked : Multiset Uuid) = log + owed s.calls

namespace Notified

theorem init :
  Notified {} (initial true)
  := by
  constructor
  · intro call hcall
    cases hcall
  · use []
    exact ⟨rfl, rfl⟩

theorem publications_eq
    {revocation : Revocation} {marked : List Uuid} {rest : List CapabilityHandle}
    (htar : (Call.revoking revocation rest marked).OnTarget) (hnodup : marked.Nodup) :
  revocation.publications marked = marked
  := by
  obtain tokenId | agentId := revocation
  · obtain _ | ⟨first, _ | ⟨second, others⟩⟩ := marked
    · rfl
    · simp only [Call.OnTarget, mem_singleton, forall_eq] at htar
      rw [htar]
      rfl
    · have hfirst := htar first (by simp)
      have hsec := htar second (by simp)
      simp [hfirst, hsec] at hnodup
  · rfl

variable {past : History}

theorem of_owed {registry registry' : CapabilityRegistry} {calls : Multiset Call} {call : Call}
    {call' : Option Call} (hnot : Notified past ⟨registry, call ::ₘ calls⟩)
    (hreg : registry'.notifier = registry.notifier) (htar : ∀ next ∈ call', next.OnTarget)
    (howed : (call'.map Call.owed).getD [] = call.owed) {past' : History}
    (hpast : past'.marked = past.marked) :
  Notified past' ⟨registry', call'.elim calls (· ::ₘ calls)⟩
  := by
  obtain ⟨log, hlog, hmark⟩ := hnot.marked_eq
  have hrest : ∀ c ∈ calls, c.OnTarget := fun c hc =>
    hnot.onTarget c (Multiset.mem_cons_of_mem hc)
  cases call' with
  | none =>
    refine ⟨hrest, log, by rw [hreg, hlog], ?_⟩
    rw [hpast, hmark, owed_cons, ← howed]
    simp
  | some next =>
    constructor
    · intro c hc
      obtain rfl | hc := Multiset.mem_cons.mp hc
      · apply htar _ rfl
      · apply hrest c hc
    · refine ⟨log, by rw [hreg, hlog], ?_⟩
      rw [hpast, hmark, owed_cons, ← howed]
      simp

theorem advance {registry registry' : CapabilityRegistry} {calls : Multiset Call} {call : Call}
    {call' : Option Call} {e : Event} (hnotif : Notified past ⟨registry, call ::ₘ calls⟩)
    (hnodup : past.marked.Nodup) (hcall : CallStep registry call e registry' call') :
  Notified (past.record e) ⟨registry', call'.elim calls (· ::ₘ calls)⟩
  := by
  obtain ⟨log, hlog, hmark⟩ := hnotif.marked_eq
  have hself : call.OnTarget := hnotif.onTarget call (Multiset.mem_cons_self ..)
  have hrest : ∀ c ∈ calls, c.OnTarget := fun c hc =>
    hnotif.onTarget c (Multiset.mem_cons_of_mem hc)
  rw [owed_cons] at hmark
  change registry.notifier = some log at hlog
  cases hcall with
  | fetchAdd | store | readParent | refuseNarrowing | authorize | denyUnknown | deny
  | endNotifying | beginRemoving | remove | keep | endRemoving =>
    refine of_owed hnotif ?_ ?_ ?_ ?_
    · rfl
    · simp [Call.OnTarget]
    · rfl
    · rfl
  | @beginRevoking revocation =>
    refine of_owed hnotif rfl ?_ rfl rfl
    cases revocation <;> simp [Call.OnTarget]
  | @passOver revocation =>
    refine of_owed hnotif rfl ?_ rfl rfl
    cases revocation
    · simpa [Call.OnTarget] using hself
    · simp [Call.OnTarget]
  | @mark revocation h rest marked entry revoked now hlook hrev =>
    obtain ⟨hsel, hnot, rfl⟩ := revokeIf_eq_some hrev
    constructor
    · intro c hc
      obtain rfl | hc := Multiset.mem_cons.mp hc
      · obtain tokenId | agentId := revocation
        · intro id hid
          rw [mem_append, mem_singleton] at hid
          obtain hid | rfl := hid
          · apply hself id hid
          · simpa [Revocation.selected, hasTokenId] using hsel
        · trivial
      · apply hrest c hc
    · use log, hlog
      change ((past.marked ++ [entry.token.id] : List Uuid) : Multiset Uuid) = _
      rw [← Multiset.coe_add, hmark]
      simp only [elim_some, owed_cons, Call.owed, ← Multiset.coe_add]
      rw [add_assoc, add_assoc, add_assoc,
        add_comm _ (([entry.token.id] : List Uuid) : Multiset Uuid)]
  | endRevoking revocation marked =>
    have hsub : (marked : Multiset Uuid) ≤ past.marked := by
      rw [hmark]
      exact (Multiset.le_add_right _ _).trans (Multiset.le_add_left _ _)
    have hnodup' : marked.Nodup := Multiset.nodup_of_le hsub hnodup
    refine of_owed hnotif rfl ?_ ?_ rfl
    · simp [Call.OnTarget]
    · apply publications_eq hself hnodup'
  | notify tokenId tokenIds =>
    constructor
    · intro c hc
      obtain rfl | hc := Multiset.mem_cons.mp hc
      · trivial
      · apply hrest c hc
    · use log ++ [tokenId]
      refine ⟨by simp [CapabilityRegistry.publish, hlog], ?_⟩
      change (past.marked : Multiset Uuid) = _
      rw [hmark]
      simp only [elim_some, owed_cons, Call.owed, ← Multiset.coe_add]
      rw [← singleton_append, ← Multiset.coe_add, add_assoc, add_assoc]

theorem step {s s' : State} {e : Event} (hnot : Notified past s) (hnodup : past.marked.Nodup)
    (hstep : Step s e s') :
  Notified (past.record e) s'
  := by
  obtain @⟨registry, calls, call, hreq⟩ | hcall := hstep
  · obtain ⟨log, hlog, hmark⟩ := hnot.marked_eq
    constructor
    · intro c hc
      obtain rfl | hc := Multiset.mem_cons.mp hc
      · cases c <;> trivial
      · apply hnot.onTarget c hc
    · refine ⟨log, hlog, ?_⟩
      rw [owed_cons]
      have howed : call.owed = [] := by
        cases call <;> first | rfl | cases hreq
      rw [howed]
      change (past.marked : Multiset Uuid) = _
      rw [hmark]
      simp
  · apply hnot.advance hnodup hcall

end Notified

/-! ### Every run -/

structure Invariant (installed : Bool) (trace : List Event) (s : State) : Prop where
  placed : Placed (history trace) s.inventory
  recorded : Recorded (history trace) s.inventory
  finality : Finality (history trace) s.inventory
  unused : Unused (history trace)
  notified : installed = true → Notified (history trace) s

theorem Invariant.init (installed : Bool) :
  Invariant installed [] (initial installed)
  := by
  constructor
  · apply Placed.init
  · apply Recorded.init
  · apply Finality.init
  · intro p hp
    cases hp
  · rintro rfl
    apply Notified.init

variable {installed : Bool} {s : State}

theorem Invariant.step {s' : State} {e : Event} (hinv : Invariant installed trace s)
    (hstep : Step s e s') (hadm : Admissible trace e) :
  Invariant installed (trace ++ [e]) s'
  := by
  have hfresh := hadm.fresh
  have hfew := hadm.few
  rw [history_snoc] at hfew
  constructor
  · rw [history_snoc]
    apply hinv.placed.step hstep.inventory hfresh hfew
  · rw [history_snoc]
    apply hinv.recorded.step hinv.placed hstep.inventory
  · rw [history_snoc]
    apply hinv.finality.step hinv.placed hinv.recorded hstep.inventory hfresh
  · rw [history_snoc]
    apply hinv.unused.step hinv.placed hinv.recorded hinv.finality hstep.inventory hfresh
  · intro hins
    rw [history_snoc]
    apply (hinv.notified hins).step hinv.finality.nodup_marked hstep

theorem Reaches.invariant (hrun : Reaches installed trace s) :
  Invariant installed trace s
  := by
  apply Run.invariant (Invariant.init installed) _ hrun
  rintro trace s e s' hinv ⟨hstep, hadm⟩
  apply hinv.step hstep hadm

theorem registry_of_denied {s' : State} {reason : CapabilityDenied}
    (hstep : Step s (.denied reason) s') :
  s'.registry = s.registry
  := by
  cases hstep with
  | advance hcall => cases hcall <;> rfl

theorem tokenId_ne_of_marked {before after : List Event}
    (hrun : Reaches installed (before ++ after) s) {id : Uuid}
    (hmark : id ∈ (history before).marked) {use : Use} (huse : use ∈ (history after).uses) :
  use.tokenId ≠ id
  := by
  rintro rfl
  obtain ⟨between, rest, rfl⟩ := exists_of_mem_uses huse
  rw [← append_assoc] at hrun
  obtain ⟨s₁, s₂, hbef, hstep, -⟩ := hrun.exists_step
  have hfinal := (Reaches.invariant hbef).finality
  have hmark' : use.tokenId ∈ (history (before ++ between)).marked := by
    rw [marked_append]
    apply mem_append_left _ hmark
  obtain ⟨entry, hlook, hid, hnot⟩ := hstep.inventory.of_authorized
  have hrev : entry.token.isRevoked = true := by
    apply hfinal.revoked entry.token (.inr ⟨_, entry, hlook, rfl⟩)
    rw [hid]
    exact .inl hmark'
  rw [hnot] at hrev
  cases hrev

theorem isRevoked_of_narrowed {before after : List Event} {parent child : CapabilityToken}
    (hrun : Reaches installed (before ++ .narrowed parent child :: after) s)
    (hpar : parent.id ∈ (history before).marked ∨ parent.isRevoked = true) :
  child.isRevoked = true
  := by
  obtain ⟨s₁, s₂, hbef, hstep, -⟩ := hrun.exists_step
  have hfinal := (Reaches.invariant hbef).finality
  obtain ⟨hsame, h, entry, hlook, rfl⟩ := hstep.inventory.of_narrowed
  rw [CapabilityToken.isRevoked, hsame]
  obtain hmark | hrev := hpar
  · apply hfinal.revoked entry.token (.inr ⟨h, entry, hlook, rfl⟩) (.inl hmark)
  · apply hrev

/-! ### Revocations that are completed -/

/-- A call is followed among the others: the events since it was under way, what it has still to do,
and the registry with the other calls. -/
inductive Follows (before : List Event) (call : Call) (start : State) :
    List Event → Option Call → State → Prop
  | nil : Follows before call start [] (some call) start
  | own {after next next' calls registry registry' e}
      (hfollows : Follows before call start after (some next) ⟨registry, calls⟩)
      (hcall : CallStep registry next e registry' next')
      (hadmissible : Admissible (before ++ after) e) :
      Follows before call start (after ++ [e]) next' ⟨registry', calls⟩
  | other {after next s s' e} (hfollows : Follows before call start after next s)
      (hstep : Step s e s') (hadmissible : Admissible (before ++ after) e) :
      Follows before call start (after ++ [e]) next s'

/-- The state with the call that is followed. -/
def State.with (s : State) (next : Option Call) : State :=
  ⟨s.registry, next.elim s.calls (· ::ₘ s.calls)⟩

theorem Step.with {s s' : State} {e : Event} (hstep : Step s e s') (next : Option Call) :
  Step (s.with next) e (s'.with next)
  := by
  cases next with
  | none => apply hstep
  | some next =>
    obtain @⟨registry, calls, call, hreq⟩ | @⟨registry, registry', calls, call, call', e, hcall⟩
      := hstep
    · have hstart : Step ⟨registry, next ::ₘ calls⟩ (.started call)
          ⟨registry, call ::ₘ next ::ₘ calls⟩ := .start hreq
      rw [Multiset.cons_swap] at hstart
      apply hstart
    · have hadv : Step ⟨registry, call ::ₘ next ::ₘ calls⟩ e
          ⟨registry', call'.elim (next ::ₘ calls) (· ::ₘ next ::ₘ calls)⟩ := .advance hcall
      rw [Multiset.cons_swap call next] at hadv
      obtain _ | call' := call'
      · apply hadv
      · rw [Option.elim, Multiset.cons_swap call' next] at hadv
        apply hadv

section Follows

variable {before after : List Event} {call : Call} {next : Option Call} {start : State}

theorem Follows.reaches (hfol : Follows before call start after next s)
    (hstart : Reaches installed before (start.with call)) :
  Reaches installed (before ++ after) (s.with next)
  := by
  induction hfol with
  | nil =>
    rw [append_nil]
    apply hstart
  | own _ hcall hadm ih =>
    rw [← append_assoc]
    exact .snoc ih ⟨.advance hcall, hadm⟩
  | @other _ next _ _ _ _ hstep hadm ih =>
    rw [← append_assoc]
    exact .snoc ih ⟨hstep.with next, hadm⟩

/-- The handle still has the entry of this agent and token, not revoked. -/
def Live (entry : OwnedEntry) (h : CapabilityHandle) (table : Table CapabilityHandle OwnedEntry) :
    Prop :=
  ∃ current, table.lookup h = some current ∧ current.agentId = entry.agentId
    ∧ current.token.id = entry.token.id ∧ current.token.isRevoked = false

def Ended (entry : OwnedEntry) (h : CapabilityHandle) (trace : List Event) : Prop :=
  entry.token.id ∈ (history trace).marked ∨ .removed h ∈ trace

variable {entry : OwnedEntry} {h : CapabilityHandle}

theorem Ended.snoc (hended : Ended entry h after) (e : Event) :
  Ended entry h (after ++ [e])
  := by
  obtain hmark | hrem := hended
  · left
    rw [marked_append]
    apply mem_append_left _ hmark
  · exact .inr (mem_append_left _ hrem)

theorem Live.insert {table : Table CapabilityHandle OwnedEntry} {k : CapabilityHandle}
    {updated : OwnedEntry} (hlive : Live entry h table) (hne : h ≠ k) :
  Live entry h (table.insert k updated)
  := by
  obtain ⟨current, hlook, hsame⟩ := hlive
  exact ⟨current, by rw [AList.lookup_insert_ne hne, hlook], hsame⟩

theorem Live.step {past : History} {v v' : Inventory} {e : Event} (hlive : Live entry h v.table)
    (hplace : Placed past v) (hrec : Recorded past v) (hstep : v.Step e v') (trace : List Event) :
  Ended entry h (trace ++ [e]) ∨ Live entry h v'.table
  := by
  obtain ⟨current, hlook, hagent, hid, hnot⟩ := id hlive
  cases hstep with
  | quiet | draw | narrow | allocate => exact .inr hlive
  | @store k token tokens handles agentId htoken hhand =>
    right
    apply hlive.insert
    rintro rfl
    obtain ⟨token, hmem, -⟩ := hrec.counted h current hlook
    apply hplace.handles.not_mem_underWay (mem_map_of_mem hmem)
    rw [hhand]
    apply Multiset.mem_cons_self
  | @authorize k agentId requested found used canonicalize now hfound hok =>
    right
    by_cases hne : h = k
    · subst hne
      obtain rfl := some.inj (hlook.symm.trans hfound)
      obtain ⟨-, -, rfl⟩ := authorizeAndRecord_eq_ok hok
      exact ⟨_, AList.lookup_insert _, hagent, hid, hnot⟩
    · apply hlive.insert hne
  | @mark k selected now found revoked hfound hrev =>
    by_cases hne : h = k
    · subst hne
      obtain rfl := some.inj (hlook.symm.trans hfound)
      left
      left
      simp [History.record, hid]
    · exact .inr (hlive.insert hne)
  | remove k =>
    by_cases hne : h = k
    · exact .inl (.inr (by simp [hne]))
    · right
      exact ⟨current, by rw [AList.lookup_erase_ne hne, hlook], hagent, hid, hnot⟩

/-- The followed call has still to visit the handle. -/
def Awaits (revocation : Revocation) (h : CapabilityHandle) : Option Call → Prop
  | some (.revoke revocation') => revocation' = revocation
  | some (.revoking revocation' rest _) => revocation' = revocation ∧ h ∈ rest
  | _ => False

variable {revocation : Revocation}

theorem selected_of_live {current : OwnedEntry} (hsel : revocation.selected entry = true)
    (hagent : current.agentId = entry.agentId) (hid : current.token.id = entry.token.id) :
  revocation.selected current = true
  := by
  cases revocation <;> simpa [Revocation.selected, hasTokenId, ownedBy, hagent, hid] using hsel

theorem Awaits.step {registry registry' : CapabilityRegistry} {next : Call} {next' : Option Call}
    {e : Event} (hawait : Awaits revocation h next)
    (hcall : CallStep registry next e registry' next') (hlive : Live entry h registry.table)
    (hsel : revocation.selected entry = true) (trace : List Event) :
  Ended entry h (trace ++ [e]) ∨ Awaits revocation h next'
  := by
  obtain ⟨current, hlook, hagent, hid, hnot⟩ := hlive
  cases hcall with
  | fetchAdd | store | readParent | refuseNarrowing | authorize | denyUnknown | deny | notify
  | endNotifying | beginRemoving | remove | keep | endRemoving => cases hawait
  | beginRevoking horder =>
    right
    exact ⟨hawait, horder.covers h (AList.lookup_isSome.mp (by rw [hlook]; rfl))⟩
  | @mark revocation' k rest marked found revoked now hfound hrev =>
    obtain ⟨hsame, hmem⟩ := hawait
    obtain rfl | hmem := mem_cons.mp hmem
    · obtain rfl := some.inj (hlook.symm.trans hfound)
      left
      left
      simp [History.record, hid]
    · exact .inr ⟨hsame, hmem⟩
  | @passOver revocation' k rest marked now hnone =>
    obtain ⟨rfl, hmem⟩ := hawait
    right
    obtain rfl | hmem := mem_cons.mp hmem
    · rw [hlook, bind_some, revokeIf, selected_of_live hsel hagent hid,
        Bool.true_and, if_pos (by simpa [CapabilityToken.isRevoked] using hnot)] at hnone
      cases hnone
    · exact ⟨rfl, hmem⟩
  | endRevoking => cases hawait.2

/-- As long as a token in the table is neither marked nor removed, a revocation that selects it has
still to visit its entry. -/
theorem Follows.ended_or_awaits (hfol : Follows before (.revoke revocation) start after next s)
    (hstart : Reaches installed before (start.with (some (.revoke revocation))))
    (hlook : start.registry.table.lookup h = some entry) (hsel : revocation.selected entry = true)
    (hnot : entry.token.isRevoked = false) :
  Ended entry h after ∨ Live entry h s.registry.table ∧ Awaits revocation h next
  := by
  induction hfol with
  | nil => exact .inr ⟨⟨entry, hlook, rfl, rfl, hnot⟩, rfl⟩
  | @own after _ _ _ _ _ e hfol hcall _ ih =>
    obtain hended | ⟨hlive, hawait⟩ := ih
    · exact .inl (hended.snoc e)
    have hinv := Reaches.invariant (hfol.reaches hstart)
    obtain hended | hlive' := hlive.step hinv.placed hinv.recorded (inventory_advance hcall) after
    · exact .inl hended
    · apply (hawait.step hcall hlive hsel after).imp_right
      exact fun hawait' => ⟨hlive', hawait'⟩
  | @other after next _ _ e hfol hstep _ ih =>
    obtain hended | ⟨hlive, hawait⟩ := ih
    · exact .inl (hended.snoc e)
    have hinv := Reaches.invariant (hfol.reaches hstart)
    apply (hlive.step hinv.placed hinv.recorded (hstep.with next).inventory after).imp_right
    exact fun hlive' => ⟨hlive', hawait⟩

end Follows

/-! ### Guarantees -/

/-- A limited token has at most that many successful uses, and every entry counts them. A denied
request changes no entry. A handle is used by its agent. A revocation that has returned has marked
the tokens it selects that were in the table, unless they were revoked before or removed. A token is
not used after it was marked, nor is one narrowed from it after that. No handle is issued twice.
When all calls have returned, an installed notifier was called once with each marked token. -/
structure Guarantees (installed : Bool) (trace : List Event) (s : State) : Prop where
  successes_le : ∀ h entry max, (h, entry) ∈ (history trace).inserted →
    entry.token.constraints.maxInvocations = some max →
    (history trace).successes entry.token.id ≤ max.toNat
  counted : ∀ h entry, s.registry.table.lookup h = some entry →
    ∃ token, (h, ⟨entry.agentId, token⟩) ∈ (history trace).inserted
      ∧ Counted ((history trace).successes token.id) token entry.token
  denied : ∀ reason s', Step s (.denied reason) s' → s'.registry = s.registry
  owner : ∀ use ∈ (history trace).uses, ∃ token,
    (use.handle, ⟨use.agentId, token⟩) ∈ (history trace).inserted ∧ token.id = use.tokenId
  revokes : ∀ before after start revocation, trace = before ++ after →
    Reaches installed before (start.with (some (.revoke revocation))) →
    Follows before (.revoke revocation) start after none s →
    ∀ h entry, start.registry.table.lookup h = some entry → revocation.selected entry = true →
    entry.token.isRevoked = true ∨ entry.token.id ∈ (history after).marked ∨ .removed h ∈ after
  revoked : ∀ before after, trace = before ++ after → ∀ id ∈ (history before).marked,
    ∀ use ∈ (history after).uses, use.tokenId ≠ id
  narrowed : ∀ before after parent child, trace = before ++ .narrowed parent child :: after →
    parent.id ∈ (history before).marked ∨ parent.isRevoked = true →
    ∀ use ∈ (history trace).uses, use.tokenId ≠ child.id
  issued_once : (history trace).allocated.Nodup
  stored_once : ((history trace).inserted.map (·.1)).Nodup
  notified : installed = true → s.calls = 0 → ∃ log, s.registry.notifier = some log
    ∧ ∀ id, log.count id = if id ∈ (history trace).marked then 1 else 0

theorem mem_narrowed (before after : List Event) (parent child : CapabilityToken) :
  (parent, child) ∈ (history (before ++ .narrowed parent child :: after)).narrowed
  := by
  induction after using reverseRecOn with
  | nil => simp [History.record]
  | append_singleton after e ih =>
    rw [← cons_append, ← append_assoc, history_snoc]
    cases e <;> simp [History.record, ih]

/-- Every interleaving of the operations, with fresh identifiers and fewer than 2^64 insertions,
gives the guarantees. -/
theorem guarantees_of_reaches
    {installed : Bool} {trace : List Event} {s : State} (hrun : Reaches installed trace s) :
  Guarantees installed trace s
  := by
  have hinv := Reaches.invariant hrun
  constructor
  · intro h entry max hmem hmax
    apply hinv.recorded.limited (h, entry) hmem max hmax
  · apply hinv.recorded.counted
  · intro reason s' hstep
    apply registry_of_denied hstep
  · apply hinv.recorded.inserted_of_use
  · intro before after start revocation _ hstart hfol h entry hlook hsel
    cases hrev : entry.token.isRevoked with
    | true => exact .inl rfl
    | false =>
      obtain hended | ⟨-, hawait⟩ := hfol.ended_or_awaits hstart hlook hsel hrev
      · exact .inr hended
      · cases hawait
  · rintro before after rfl id hid use huse
    apply tokenId_ne_of_marked hrun hid huse
  · rintro before after parent child rfl hpar
    apply hinv.unused (parent, child) (mem_narrowed before after parent child)
    apply isRevoked_of_narrowed hrun hpar
  · apply hinv.placed.handles.nodup_issued
  · apply hinv.placed.handles.nodup_settled
  · intro hins hdone
    obtain ⟨log, hlog, hmark⟩ := (hinv.notified hins).marked_eq
    refine ⟨log, hlog, fun id => ?_⟩
    rw [hdone, owed, Multiset.zero_bind, add_zero, Multiset.coe_eq_coe] at hmark
    rw [← hmark.count_eq]
    split_ifs with hmem
    · apply List.count_eq_one_of_mem hinv.finality.nodup_marked hmem
    · apply List.count_eq_zero_of_not_mem hmem

def onceToken : CapabilityToken :=
  CapabilityToken.issue 7 0 ⟨1⟩ (.toolInvoke ['t']) { maxInvocations := some 1 }

def usedRegistry : CapabilityRegistry :=
  ⟨(∅ : Table _ _).insert ⟨0⟩ ⟨⟨1⟩, onceToken.recordUse.1⟩, 1, some []⟩

def usedTrace : List Event :=
  [.started (.insert ⟨1⟩ onceToken), .allocated ⟨0⟩, .inserted ⟨0⟩ ⟨1⟩ onceToken,
    .started (.authorizeAndRecord ⟨0⟩ ⟨1⟩ (.toolInvoke ['t'])), .authorized ⟨0⟩ 7 ⟨1⟩,
    .started (.revoke (.revoke 7))]

theorem reaches_usedRegistry :
  Reaches true usedTrace (State.with ⟨usedRegistry, 0⟩ (some (.revoke (.revoke 7))))
  := by
  have hnew : Reaches true [] (initial true) := .nil
  have hreq : (Call.insert ⟨1⟩ onceToken).isRequest = true := rfl
  have hstart : Reaches true _ _ := Run.snoc hnew ⟨.start hreq, by decide, by decide⟩
  have hall : Reaches true _ _ := Run.snoc hstart
    ⟨.advance (.fetchAdd ⟨1⟩ onceToken), by decide, by decide⟩
  rw [elim_some] at hall
  have hins : Reaches true _ _ := Run.snoc hall
    ⟨.advance (.store ⟨1⟩ onceToken _), by decide, by decide⟩
  have huse : (Call.authorizeAndRecord ⟨0⟩ ⟨1⟩ (.toolInvoke ['t'])).isRequest = true := rfl
  have hcall : Reaches true _ _ := Run.snoc hins ⟨.start huse, by decide, by decide⟩
  have hok : authorizeAndRecord (fun _ => none) 0 ⟨1⟩ (.toolInvoke ['t'])
      ⟨⟨1⟩, onceToken⟩ = .ok ⟨⟨1⟩, onceToken.recordUse.1⟩ := rfl
  have hused : Reaches true _ _ := Run.snoc hcall
    ⟨.advance (.authorize (fun _ => none) 0 rfl hok), by decide, by decide⟩
  have hrev : (Call.revoke (.revoke 7)).isRequest = true := rfl
  apply Run.snoc hused ⟨.start hrev, by decide, by decide⟩

/-- A token is used and then revoked.  While its revocation is under way, after the mark, another
agent gets a token narrowed from it; then the notifier is called. -/
theorem guarantees_of_revocation :
  ∃ after s, Reaches true usedTrace (State.with ⟨usedRegistry, 0⟩ (some (.revoke (.revoke 7))))
    ∧ Follows usedTrace (.revoke (.revoke 7)) ⟨usedRegistry, 0⟩ after none s ∧ s.calls = 0
    ∧ (history (usedTrace ++ after)).successes 7 = 1 ∧ (history (usedTrace ++ after)).marked = [7]
    ∧ ((history (usedTrace ++ after)).narrowed.map fun p => (p.1.id, p.2.id, p.2.isRevoked))
      = [(7, 8, true)]
    ∧ s.registry.notifier = some [7] ∧ Guarantees true (usedTrace ++ after) s
  := by
  have hbegin : Follows usedTrace (.revoke (.revoke 7)) ⟨usedRegistry, 0⟩ [.passed]
      (some (.revoking (.revoke 7) [⟨0⟩] [])) ⟨usedRegistry, 0⟩ :=
    .own .nil (.beginRevoking (visitOrder_keys usedRegistry)) ⟨by decide, by decide⟩
  have hmar : usedRegistry.table.lookup ⟨0⟩ = some ⟨⟨1⟩, onceToken.recordUse.1⟩ := rfl
  have hmark := Follows.own hbegin (.mark 1 hmar rfl) ⟨by decide, by decide⟩
  have hreq : (Call.narrow .narrow ⟨0⟩ ⟨1⟩ ⟨2⟩ {}).isRequest = true := rfl
  have hcall := Follows.other hmark (.start hreq) ⟨by decide, by decide⟩
  have hnarr := Follows.other hcall (.advance (.readParent (fun _ => none) 8 rfl rfl))
    ⟨by decide, by decide⟩
  rw [elim_some] at hnarr
  have hall := Follows.other hnarr (.advance (.fetchAdd _ _)) ⟨by decide, by decide⟩
  rw [elim_some] at hall
  have hstore := Follows.other hall (.advance (.store _ _ _)) ⟨by decide, by decide⟩
  have hend := Follows.own hstore (.endRevoking _ _) ⟨by decide, by decide⟩
  have hnot := Follows.own hend (.notify _ _) ⟨by decide, by decide⟩
  have hret := Follows.own hnot .endNotifying ⟨by decide, by decide⟩
  exact ⟨_, _, reaches_usedRegistry, hret, rfl, rfl, rfl, rfl, rfl,
    guarantees_of_reaches (hret.reaches reaches_usedRegistry)⟩

end Interleaving
