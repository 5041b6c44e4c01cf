import AaOS.Broker.Delivery

/-!
# Senders that are left behind

`send_request` of `aaos-backend-linux/src/broker_session.rs` puts a sender into the map of pending
requests.  Without a stream the call returns with its sender in the map; on every other way out its
number is free, unless another call has taken the same number.
-/

namespace BrokerSession

variable {s s' : BrokerSession} {p : BrokerProcess} {p' : Option BrokerProcess}

/-- How `send_request` returns. -/
inductive Returns (s : BrokerSession) (c : Caller) : BrokerSession → Prop
  | notSerialized (hstage : c.stage = .numbered) : Returns s c s
  | notConnected (hstage : c.stage = .parked) (hnot : s.connected = false) : Returns s c s
  | evicted (hstage : c.stage = .failed) : Returns s c (s.evict .pending c.id)
  | received (hstage : c.stage = .waiting) (delivery : Delivery)
      (hdelivered : (c.call, delivery) ∈ s.delivered) : Returns s c s

/-- The call finds a stream, and no other call has put its sender under the number, unless the call
frees it. -/
structure LeavesNothing (s : BrokerSession) (c : Caller) : Prop where
  written : c.stage ≠ .parked
  own : c.stage ≠ .failed → ∀ call, s.pending.lookup c.id = some call → call = c.call

/-! ### Calls that were told -/

variable {call : Nat}

/-- The senders in the maps are those of calls that were told nothing, and only calls that took a
number are told something. -/
structure Accounted (s : BrokerSession) : Prop where
  labelled : s.Labelled
  untold : ∀ map id call, (s.mapOf map).lookup id = some call →
    ∀ delivery, (call, delivery) ∉ s.delivered
  numbered : ∀ call delivery, (call, delivery) ∈ s.delivered → call < s.issued.length

/-- The call has no sender in a map, and was told nothing. -/
structure Fresh (s : BrokerSession) (call : Nat) : Prop where
  absent : ∀ map id, (s.mapOf map).lookup id ≠ some call
  untold : ∀ delivery, (call, delivery) ∉ s.delivered

structure Tracked (s : BrokerSession) (p : BrokerProcess) : Prop where
  knows : s.KnowsNumber p
  fresh : ∀ c : Caller, p = .caller c → c.stage = .numbered → s.Fresh c.call

variable {id : Nat}

theorem Issued.lt_length {method : BrokerCall} (hissue : s.Issued call method id) :
  call < s.issued.length
  := (List.getElem?_eq_some_iff.mp hissue).1

theorem Accounted.fresh_length (hacc : s.Accounted) :
  s.Fresh s.issued.length
  := by
  constructor
  case absent =>
    intro map id hlook
    obtain ⟨method, hissue, -⟩ := hacc.labelled.entries map id _ hlook
    apply absurd hissue.lt_length
    apply lt_irrefl
  case untold =>
    intro delivery hmem
    apply absurd (hacc.numbered _ delivery hmem)
    apply lt_irrefl

theorem Fresh.of_move (hfresh : s.Fresh call) (hmove : BrokerMove s p s' p')
    (hother : ∀ c : Caller, p = .caller c → c.call ≠ call) :
  s'.Fresh call
  := by
  constructor
  case absent =>
    intro map id hlook
    obtain hold | ⟨c, hp, -, hcall, -⟩ := lookup_of_move hmove hlook
    · apply hfresh.absent map id hold
    · apply hother c hp hcall
  case untold =>
    intro delivery hmem
    obtain hold | ⟨map, id, hlook, -⟩ := mem_delivered_of_move hmove hmem
    · apply hfresh.untold delivery hold
    · apply hfresh.absent map id hlook

theorem Labelled.unique {map map' : PendingMap} {id' : Nat} (hlab : s.Labelled)
    (hlook : (s.mapOf map).lookup id = some call) (hlook' : (s.mapOf map').lookup id' = some call) :
  map' = map ∧ id' = id
  := by
  obtain ⟨method, hissue, hmap⟩ := hlab.entries map id call hlook
  obtain ⟨method', hissue', hmap'⟩ := hlab.entries map' id' call hlook'
  rw [Issued, hissue] at hissue'
  cases hissue'
  rw [hmap] at hmap'
  cases hmap'
  exact ⟨rfl, rfl⟩

theorem Accounted.of_move (hacc : s.Accounted) (htrack : s.Tracked p)
    (hmove : BrokerMove s p s' p') :
  s'.Accounted
  := by
  constructor
  case labelled => apply hacc.labelled.of_move htrack.knows hmove
  case untold =>
    intro map id call hlook delivery hmem
    obtain hold | ⟨c, rfl, -, rfl, -, hstage⟩ := lookup_of_move hmove hlook
    · obtain htold | ⟨map', id', hlook', -, hkept⟩ := mem_delivered_of_move hmove hmem
      · apply hacc.untold map id call hold delivery htold
      · obtain ⟨rfl, rfl⟩ := hacc.labelled.unique hold hlook'
        obtain ⟨c, rfl, rfl, hstage⟩ := hkept hlook
        apply (htrack.fresh c rfl hstage).absent _ _ hold
    · have hfresh := htrack.fresh c rfl hstage
      obtain htold | ⟨map', id', hlook', -⟩ := mem_delivered_of_move hmove hmem
      · apply hfresh.untold delivery htold
      · apply hfresh.absent map' id' hlook'
  case numbered =>
    intro call delivery hmem
    have hkept : ∀ {method id}, s.Issued call method id → call < s'.issued.length := by
      intro method id hissue
      apply (hissue.of_move hmove).lt_length
    obtain htold | ⟨map, id, hlook, -⟩ := mem_delivered_of_move hmove hmem
    · apply hkept (List.getElem?_eq_getElem (hacc.numbered call delivery htold))
    · obtain ⟨method, hissue, -⟩ := hacc.labelled.entries map id call hlook
      apply hkept hissue

theorem keeps_accounted :
  brokerSystem.Keeps Accounted Tracked DifferentCalls
  := by
  constructor
  case symm => apply keeps_labelled.symm
  case start =>
    intro s m p hstart hacc hoths
    obtain ⟨hknows, hapart⟩ := keeps_labelled.start s m p hstart hacc.labelled
      (fun q hq => (hoths q hq).knows)
    refine ⟨⟨hknows, ?_⟩, hapart⟩
    obtain ⟨method, rfl⟩ := hstart
    intro c hp
    cases hp
  case shared =>
    intro s m p s' p' hmove hacc htrack _
    apply hacc.of_move htrack hmove
  case each =>
    intro s m p s' p' hmove hacc htrack _
    constructor
    case knows => apply knowsNumber_of_move hacc.labelled htrack.knows hmove
    case fresh =>
      rintro c rfl hstage
      obtain ⟨method, rfl, -, rfl⟩ | ⟨c₀, stage, -, rfl, hnot, -⟩ := caller_of_move hmove
      · apply hacc.fresh_length.of_move hmove
        intro c hp
        cases hp
      · exact absurd hstage hnot
  case others =>
    intro s m p s' p' hmove _ _ q _ htrack hdif
    constructor
    case knows => apply htrack.knows.of_move hmove
    case fresh =>
      rintro c rfl hstage
      apply (htrack.fresh c rfl hstage).of_move hmove
      intro c₀ hp
      apply hdif c₀ c hp rfl
  case apart =>
    intro s m p s' p' hmove hacc htrack q hq htrack' hdif
    apply keeps_labelled.apart s m p s' p' hmove hacc.labelled htrack.knows q hq
      htrack'.knows hdif

variable {pool : Pool BrokerSession BrokerProcess}

theorem accounted_of_reaches (hreach : brokerSystem.Reaches start pool) :
  PoolSystem.Holds Accounted Tracked DifferentCalls pool
  := by
  apply keeps_accounted.holds_of_reaches hreach
  constructor
  case shared =>
    constructor
    case labelled => apply holds_start.shared
    case untold =>
      intro map id call hlook
      cases map <;> cases hlook
    case numbered => simp [start]
  case each =>
    intro p hp
    constructor
    case knows => apply holds_start.each p hp
    case fresh =>
      rintro c rfl
      obtain hp | hp := mem_running_start.mp hp <;> cases hp
  case apart => apply holds_start.apart

/-! ### Before there is a stream -/

/-- Without a stream there is no reader, and a sender stays under the number of every call of
`send_request`. -/
def BeforeStream (s : BrokerSession) : BrokerProcess → Prop
  | .caller c => s.connected = false → c.method.awaits = some .pending →
      c.stage = .numbered ∨ c.stage = .parked ∧ (s.pending.lookup c.id).isSome
  | .reader _ => s.connected = true
  | _ => True

theorem connected_of_move (hmove : BrokerMove s p s' p') (hcon : s.connected = true) :
  s'.connected = true
  := by
  cases hmove with
  | number method => cases method <;> apply hcon
  | park c hstage map hmap | evict c hstage map hmap => cases map <;> apply hcon
  | install => rfl
  | _ => apply hcon

theorem pending_of_move (hmove : BrokerMove s p s' p') (hbef : s.BeforeStream p)
    (hnot : s.connected = false) (hlook : (s.pending.lookup id).isSome) :
  (s'.pending.lookup id).isSome
  := by
  cases hmove with
  | number method => cases method <;> apply hlook
  | park c hstage map hmap =>
    cases map with
    | pending =>
      show ((AList.insert c.id c.call s.pending).lookup id).isSome
      rw [Table.lookup_insert']
      split
      · rfl
      · apply hlook
    | invokePending => apply hlook
  | evict c hstage map hmap =>
    cases map with
    | pending =>
      obtain hnum | ⟨hpar, -⟩ := hbef hnot hmap
      · rw [hstage] at hnum
        cases hnum
      · rw [hstage] at hpar
        cases hpar
    | invokePending => apply hlook
  | legacy answer | clear =>
    have hcon : s.connected = true := hbef
    rw [hnot] at hcon
    cases hcon
  | _ => apply hlook

theorem BeforeStream.of_move {q : BrokerProcess} (hq : s.BeforeStream q)
    (hp : s.BeforeStream p) (hmove : BrokerMove s p s' p') :
  s'.BeforeStream q
  := by
  cases q with
  | caller c =>
    intro hnot' hmet
    have hnot : s.connected = false := by
      rw [← Bool.not_eq_true] at hnot' ⊢
      intro hcon
      apply hnot' (connected_of_move hmove hcon)
    obtain hnum | ⟨hpar, hlook⟩ := hq hnot hmet
    · exact .inl hnum
    · exact .inr ⟨hpar, pending_of_move hmove hp hnot hlook⟩
  | reader stage => apply connected_of_move hmove hq
  | _ => trivial

theorem beforeStream_of_move {q : BrokerProcess} (hp : s.BeforeStream p)
    (hmove : BrokerMove s p s' (some q)) :
  s'.BeforeStream q
  := by
  have hother : ∀ (c : Caller) (t : BrokerSession), c.method.awaits ≠ some .pending →
      t.BeforeStream (.caller c) := by
    intro c t hne _ hmet
    exact absurd hmet hne
  have hstr : ∀ (c : Caller) (t : BrokerSession), t.connected = true →
      t.BeforeStream (.caller c) := by
    intro c t hcon hnot
    rw [hcon] at hnot
    cases hnot
  generalize hp' : some q = p' at hmove
  cases hmove with
  | number method =>
    cases hp'
    intro _ _
    exact .inl rfl
  | park c hstage map hmap =>
    cases hp'
    cases map with
    | pending =>
      intro _ _
      refine .inr ⟨rfl, ?_⟩
      show ((AList.insert c.id c.call s.pending).lookup c.id).isSome
      rw [AList.lookup_insert]
      rfl
    | invokePending =>
      apply hother
      simp [hmap]
  | goOn c hstage hmet | invokeNotSerialized c hstage hmet =>
    cases hp'
    apply hother
    simp [hmet]
  | notConnected c =>
    obtain ⟨rfl, hmet⟩ := Caller.eq_of_notConnected hp'
    apply hother
    simp [hmet]
  | writeFails c hstage hcon | flushFails c hstage hcon | write c hstage hcon =>
    cases Caller.eq_of_goesOn hp'
    apply hstr _ _ hcon
  | timeout c hstage hmet =>
    cases hp'
    intro hnot _
    obtain hnum | ⟨hpar, -⟩ := hp hnot hmet
    · rw [hstage] at hnum
      cases hnum
    · rw [hstage] at hpar
      cases hpar
  | install =>
    cases hp'
    rfl
  | answer =>
    cases hp'
    trivial
  | ignore =>
    cases hp'
    trivial
  | _ => cases hp' <;> apply hp

theorem beforeStream_of_reaches (hreach : brokerSystem.Reaches start pool) :
  ∀ p ∈ pool.running, pool.shared.BeforeStream p
  := by
  have hkeeps : brokerSystem.Keeps (fun _ => True) BeforeStream (fun _ _ => True) := by
    constructor
    case symm => simp
    case start =>
      rintro s m _ ⟨method, rfl⟩ _ _
      exact ⟨trivial, fun _ _ => trivial⟩
    case shared => simp
    case each =>
      intro s m p s' p' hmove _ hp _
      apply beforeStream_of_move hp hmove
    case others =>
      intro s m p s' p' hmove _ hp q _ hq _
      apply hq.of_move hp hmove
    case apart => simp
  apply (hkeeps.holds_of_reaches hreach _).each
  constructor
  case shared => trivial
  case each =>
    intro p hp
    obtain rfl | rfl := mem_running_start.mp hp <;> trivial
  case apart => simp

/-! ### What a call leaves behind -/

theorem leavesNothing_iff_absent {c : Caller} (hpar : c.stage ≠ .parked)
    (hfail : c.stage ≠ .failed) (hgone : s.pending.lookup c.id ≠ some c.call) :
  LeavesNothing s c ↔ s.pending.lookup c.id = none
  := by
  rw [Option.eq_none_iff_forall_ne_some]
  constructor
  · intro hleave call hlook
    apply hgone
    rw [hlook, hleave.own hfail call hlook]
  · intro hnone
    constructor
    case written => apply hpar
    case own =>
      intro _ call hlook
      exact absurd hlook (hnone call)

/-- When a call of `send_request` returns, no sender is under its number exactly when it has found a
stream and, unless it frees the number, no other call has put its sender there. -/
theorem pending_of_returns_iff {m : Multiset BrokerProcess} {c : Caller}
    (hreaches : brokerSystem.Reaches start ⟨s, .caller c ::ₘ m⟩)
    (hmethod : c.method.awaits = some .pending) (hreturns : Returns s c s') :
  s'.pending.lookup c.id = none ↔ LeavesNothing s c
  := by
  have hmem : BrokerProcess.caller c ∈ BrokerProcess.caller c ::ₘ m := Multiset.mem_cons_self _ _
  have hholds := accounted_of_reaches hreaches
  have hbef := beforeStream_of_reaches hreaches _ hmem
  cases hreturns with
  | notSerialized hstage =>
    have hfresh := (hholds.each _ hmem).fresh c rfl hstage
    rw [leavesNothing_iff_absent (by simp [hstage]) (by simp [hstage])
      (hfresh.absent .pending c.id)]
  | notConnected hstage hnot =>
    constructor
    · intro hnone
      obtain hnum | ⟨-, hsome⟩ := hbef hnot hmethod
      · rw [hstage] at hnum
        cases hnum
      · rw [hnone] at hsome
        cases hsome
    · intro hleave
      exact absurd hstage hleave.written
  | evicted hstage =>
    constructor
    · intro _
      exact ⟨by simp [hstage], fun hne => absurd hstage hne⟩
    · intro _
      apply AList.lookup_erase
  | received hstage delivery hdel =>
    have hgone : s.pending.lookup c.id ≠ some c.call := by
      intro hlook
      apply hholds.shared.untold .pending c.id c.call hlook delivery hdel
    rw [leavesNothing_iff_absent (by simp [hstage]) (by simp [hstage]) hgone]

/-- A ping that is written and not answered in time removes its sender. -/
theorem pending_of_returns_timeout :
  ∃ s m c s', brokerSystem.Reaches start ⟨s, .caller c ::ₘ m⟩
    ∧ c.method.awaits = some .pending ∧ Returns s c s' ∧ s'.pending.lookup c.id = none
  := by
  have hwait := (reaches_connected anyMove_of_ne).trans
    (reaches_waiting anyMove_of_ne (.sendPing 7) .pending rfl (fun _ _ => trivial) rfl _)
  have hfail := PoolSystem.Reaches.of_restrict
    (hwait.tail (.goesOn ⟨.timeout _ rfl rfl, trivial⟩))
  refine ⟨_, _, _, _, hfail, rfl, .evicted rfl, ?_⟩
  apply (pending_of_returns_iff hfail rfl (.evicted rfl)).mpr
  constructor
  case written => simp
  case own => simp

/-- A ping without a stream returns and leaves its sender in the map. -/
theorem exists_returns_pending :
  ∃ s m c s', brokerSystem.Reaches start ⟨s, .caller c ::ₘ m⟩
    ∧ c.method.awaits = some .pending ∧ Returns s c s' ∧ s'.pending.lookup c.id = some c.call
  := by
  have hpar : brokerSystem.Reaches start ⟨_, _ ::ₘ start.running⟩ :=
    ((Relation.ReflTransGen.single (.start ⟨.sendPing 7, rfl⟩)).tail
      (.goesOn (.number _))).tail (.goesOn (.park _ rfl .pending rfl))
  exact ⟨_, _, _, _, hpar, rfl, .notConnected rfl rfl, rfl⟩

end BrokerSession
