import AaOS.Broker.Session

/-!
# Delivery of responses

A response reaches a call that carries its number.  Requests are numbered from 100 and tool calls
from 1000, so the numbers are distinct as long as fewer than 900 requests were sent and the counter
of the tool calls has not wrapped around.
-/

open List

namespace BrokerSession

variable {s s' : BrokerSession} {p : BrokerProcess} {p' : Option BrokerProcess}

/-! ### Numbers are kept -/

/-- Whatever is on its way carries the number of its call. -/
structure Labelled (s : BrokerSession) : Prop where
  entries : ∀ map id call, (s.mapOf map).lookup id = some call →
    ∃ method, s.Issued call method id ∧ method.awaits = some map
  requests : ∀ frame ∈ s.requests, s.Carries frame.call frame.wire.id
  responses : ∀ answer ∈ s.responses, s.Carries answer.call answer.response.id
  delivered : ∀ call delivery answer, (call, delivery) ∈ s.delivered →
    delivery.answer = some answer →
    s.Carries call answer.response.id ∧ s.Carries answer.call answer.response.id

def KnowsNumber (s : BrokerSession) : BrokerProcess → Prop
  | .caller c => s.Issued c.call c.method c.id
  | .reader (.demux answer) | .reader (.legacy answer) => s.Carries answer.call answer.response.id
  | _ => True

def DifferentCalls (p q : BrokerProcess) : Prop :=
  ∀ c c' : Caller, p = .caller c → q = .caller c' → c.call ≠ c'.call

theorem KnowsNumber.of_move {q : BrokerProcess} (hknows : s.KnowsNumber q)
    (hmove : BrokerMove s p s' p') :
  s'.KnowsNumber q
  := by
  cases q with
  | caller c => apply Issued.of_move hknows hmove
  | reader stage =>
    cases stage with
    | demux answer | legacy answer => apply Carries.of_move hknows hmove
    | _ => trivial
  | _ => trivial

theorem knowsNumber_of_move {q : BrokerProcess} (hlab : s.Labelled)
    (hknows : s.KnowsNumber p) (hmove : BrokerMove s p s' (some q)) :
  s'.KnowsNumber q
  := by
  cases q with
  | caller c =>
    obtain ⟨method, -, rfl, rfl⟩ | ⟨c₀, stage, rfl, rfl, -, -⟩ := caller_of_move hmove
    · apply issued_length
    · apply Issued.of_move hknows hmove
  | reader stage =>
    have hans : ∀ answer, stage = .demux answer ∨ stage = .legacy answer →
        s'.Carries answer.call answer.response.id := by
      intro answer hstage
      obtain hread | rfl := reader_of_move hmove hstage
      · apply Carries.of_move (hlab.responses answer hread) hmove
      · apply Carries.of_move hknows hmove
    cases stage with
    | demux answer => apply hans answer (.inl rfl)
    | legacy answer => apply hans answer (.inr rfl)
    | _ => trivial
  | _ => trivial

theorem Labelled.of_move (hlab : s.Labelled) (hknows : s.KnowsNumber p)
    (hmove : BrokerMove s p s' p') :
  s'.Labelled
  := by
  constructor
  case entries =>
    intro map id call hlook
    obtain hold | ⟨c, rfl, hmap, rfl, rfl, -⟩ := lookup_of_move hmove hlook
    · obtain ⟨method, hissue, hmap⟩ := hlab.entries map id call hold
      exact ⟨method, hissue.of_move hmove, hmap⟩
    · exact ⟨c.method, Issued.of_move hknows hmove, hmap⟩
  case requests =>
    intro frame hframe
    obtain hold | ⟨c, rfl, rfl⟩ := mem_requests_of_move hmove hframe
    · apply Carries.of_move (hlab.requests frame hold) hmove
    · exact ⟨c.method, Issued.of_move hknows hmove⟩
  case responses =>
    intro answer hans
    obtain hold | ⟨frame, hframe, hcall, hid⟩ := mem_responses_of_move hmove hans
    · apply Carries.of_move (hlab.responses answer hold) hmove
    · rw [hcall, hid]
      apply Carries.of_move (hlab.requests frame hframe) hmove
  case delivered =>
    intro call delivery answer hmem hans
    obtain hold | ⟨map, id, hlook, hread, -⟩ := mem_delivered_of_move hmove hmem
    · obtain ⟨hcall, hsource⟩ := hlab.delivered call delivery answer hold hans
      exact ⟨hcall.of_move hmove, hsource.of_move hmove⟩
    · obtain ⟨rfl, hreader⟩ := hread answer hans
      have hsource : s.Carries answer.call answer.response.id := by
        obtain rfl | rfl := hreader <;> apply hknows
      obtain ⟨method, hissue, -⟩ := hlab.entries map _ call hlook
      exact ⟨⟨method, hissue.of_move hmove⟩, hsource.of_move hmove⟩

theorem keeps_labelled :
  brokerSystem.Keeps Labelled KnowsNumber DifferentCalls
  := by
  constructor
  case symm =>
    intro p q hdif c c' hp hq heq
    apply hdif c' c hq hp heq.symm
  case start =>
    rintro s m _ ⟨method, rfl⟩ _ _
    refine ⟨trivial, ?_⟩
    intro q _ c c' hp
    cases hp
  case shared =>
    intro s m p s' p' hmove hlab hknows _
    apply hlab.of_move hknows hmove
  case each =>
    intro s m p s' p' hmove hlab hknows _
    apply knowsNumber_of_move hlab hknows hmove
  case others =>
    intro s m p s' p' hmove _ _ q _ hq _
    apply hq.of_move hmove
  case apart =>
    intro s m p s' p' hmove _ _ q _ hq hdif c c' hp hc
    subst hp hc
    obtain ⟨method, rfl, -, rfl⟩ | ⟨c₀, stage, rfl, rfl, -, -⟩ := caller_of_move hmove
    · obtain ⟨hlt, -⟩ := List.getElem?_eq_some_iff.mp hq
      apply hlt.ne'
    · apply hdif c₀ c' rfl rfl

/-! ### Distinct numbers -/

/-- A call takes its number from the range of its counter. -/
def InRange (s : BrokerSession) (p : BrokerProcess) (_ : BrokerSession) (_ : Option BrokerProcess) :
    Prop :=
  ∀ method, p = .begins method →
    match method with
    | .invokeOverWorker .. => 1000 ≤ s.nextInvokeId
    | _ => s.nextRequestId < 1000

def numbers (s : BrokerSession) : List Nat := s.issued.map (·.2)

theorem numbers_takeId (method : BrokerCall) :
  (s.takeId method).numbers = s.numbers ++ [s.nextId method]
  := by
  rw [numbers, issued_takeId, map_append]
  rfl

structure Distinct (s : BrokerSession) : Prop where
  nodup : s.numbers.Nodup
  bound : ∀ id ∈ s.numbers, id < 1000 ∧ id < s.nextRequestId
    ∨ 1000 ≤ id ∧ (id < s.nextInvokeId ∨ s.nextInvokeId < 1000)
  word : s.nextInvokeId < 2 ^ 64

theorem Distinct.takeId (hdis : s.Distinct) {method : BrokerCall}
    (hrange : s.InRange (.begins method) s' p') :
  (s.takeId method).Distinct
  := by
  have hmet := hrange method rfl
  have hnew : s.nextId method ∉ s.numbers := by
    intro hmem
    have hbound := hdis.bound _ hmem
    cases method <;> simp only [nextId] at hmet hbound <;> omega
  constructor
  case nodup =>
    rw [numbers_takeId, ← concat_eq_append, nodup_concat]
    exact ⟨hnew, hdis.nodup⟩
  case bound =>
    intro id hid
    rw [numbers_takeId, mem_append, mem_singleton] at hid
    have hword := hdis.word
    obtain hold | rfl := hid
    · have hbound := hdis.bound id hold
      cases method <;> dsimp only at hmet <;>
        simp only [BrokerSession.takeId, fetchAdd] <;> omega
    · cases method <;> dsimp only at hmet <;>
        simp only [nextId, BrokerSession.takeId, fetchAdd] <;> omega
  case word =>
    have hword := hdis.word
    cases method with
    | invokeOverWorker => apply Nat.mod_lt _ (by decide)
    | _ => apply hword

theorem distinct_of_reaches {pool : Pool BrokerSession BrokerProcess}
    (hreach : (brokerSystem.restrict InRange).Reaches start pool) :
  pool.shared.Distinct
  := by
  apply PoolSystem.invariant (P := fun pool => pool.shared.Distinct) _ _ hreach
  · constructor
    case nodup => apply nodup_nil
    case bound => simp [start, numbers]
    case word => decide
  · intro s m p _ hdis
    apply hdis
  · rintro s m p s' p' ⟨hmove, hrange⟩ hdis
    obtain ⟨hissue, hreq, hinv⟩ | ⟨method, rfl, rfl⟩ := counters_of_move hmove
    · constructor
      case nodup =>
        rw [numbers, hissue]
        apply hdis.nodup
      case bound =>
        rw [numbers, hissue, hreq, hinv]
        apply hdis.bound
      case word =>
        rw [hinv]
        apply hdis.word
    · apply hdis.takeId hrange

/-! ### Responses reach their callers -/

theorem Issued.unique (hnodup : s.numbers.Nodup) {call call' id : Nat} {method method' : BrokerCall}
    (hissue : s.Issued call method id) (hissue' : s.Issued call' method' id) :
  call = call' ∧ method = method'
  := by
  have hnum : s.numbers[call]? = some id := by
    rw [numbers, getElem?_map, hissue]
    rfl
  have hnum' : s.numbers[call']? = some id := by
    rw [numbers, getElem?_map, hissue']
    rfl
  obtain ⟨hlt, heq⟩ := List.getElem?_eq_some_iff.mp hnum
  obtain ⟨hlt', heq'⟩ := List.getElem?_eq_some_iff.mp hnum'
  obtain rfl := hnodup.getElem_inj_iff.mp (heq.trans heq'.symm)
  rw [Issued, hissue] at hissue'
  cases hissue'
  exact ⟨rfl, rfl⟩

/-- Answers reach the call whose request they answer, no number is in both maps, and calls in flight
have different numbers. -/
structure Routed (pool : Pool BrokerSession BrokerProcess) : Prop where
  own : ∀ call delivery answer, (call, delivery) ∈ pool.shared.delivered →
    delivery.answer = some answer →
    answer.call = call ∧ pool.shared.Carries call answer.response.id
  apart : ∀ id call call', pool.shared.pending.lookup id = some call →
    pool.shared.invokePending.lookup id ≠ some call'
  distinct : ∀ (c c' : Caller) rest, pool.running = .caller c ::ₘ rest → .caller c' ∈ rest →
    c.id ≠ c'.id

theorem holds_start :
  PoolSystem.Holds Labelled KnowsNumber DifferentCalls start
  := by
  constructor
  case shared =>
    constructor
    case entries =>
      intro map id call hlook
      cases map <;> cases hlook
    case requests => simp [start]
    case responses => simp [start]
    case delivered => simp [start]
  case each =>
    intro p hp
    obtain rfl | rfl := mem_running_start.mp hp <;> trivial
  case apart =>
    intro p rest hrun q _ c c' hp
    have hmem : p ∈ start.running := by
      rw [hrun]
      apply Multiset.mem_cons_self
    rw [hp, mem_running_start] at hmem
    obtain hmem | hmem := hmem <;> cases hmem

/-- In every run in which the numbers are taken from the ranges, responses reach their own
callers. -/
theorem routed_of_reaches {pool : Pool BrokerSession BrokerProcess}
    (hreaches : (brokerSystem.restrict InRange).Reaches start pool) :
  Routed pool
  := by
  have hnodup := (distinct_of_reaches hreaches).nodup
  have hholds : PoolSystem.Holds Labelled KnowsNumber DifferentCalls pool := by
    apply keeps_labelled.holds_of_reaches hreaches.of_restrict holds_start
  constructor
  case own =>
    intro call delivery answer hmem hans
    obtain ⟨⟨method, hcall⟩, ⟨method', hsource⟩⟩ :=
      hholds.shared.delivered call delivery answer hmem hans
    exact ⟨(hsource.unique hnodup hcall).1, method, hcall⟩
  case apart =>
    intro id call call' hpend hinv
    obtain ⟨method, hissue, hmap⟩ := hholds.shared.entries .pending id call hpend
    obtain ⟨method', hissue', hmap'⟩ := hholds.shared.entries .invokePending id call' hinv
    obtain ⟨-, rfl⟩ := hissue.unique hnodup hissue'
    rw [hmap] at hmap'
    cases hmap'
  case distinct =>
    intro c c' rest hrun hmem hid
    have hdif := hholds.apart (.caller c) rest hrun (.caller c') hmem c c' rfl rfl
    have hissue : pool.shared.Issued c.call c.method c.id := by
      apply hholds.each (.caller c)
      rw [hrun]
      apply Multiset.mem_cons_self
    have hissue' : pool.shared.Issued c'.call c'.method c'.id := by
      apply hholds.each (.caller c')
      rw [hrun]
      apply Multiset.mem_cons_of_mem hmem
    rw [hid] at hissue
    apply hdif (hissue.unique hnodup hissue').1

/-! ### Examples of runs -/

theorem inRange_of_ne (s : BrokerSession) (p : BrokerProcess) (s' : BrokerSession)
    (p' : Option BrokerProcess) (hne : ∀ method, p ≠ .begins method) :
  s.InRange p s' p'
  := by
  intro method hp
  exact absurd hp (hne method)

def AnyMove (_ : BrokerSession) (_ : BrokerProcess) (_ : BrokerSession)
    (_ : Option BrokerProcess) : Prop :=
  True

theorem anyMove_of_ne (s : BrokerSession) (p : BrokerProcess) (s' : BrokerSession)
    (p' : Option BrokerProcess) (_ : ∀ method, p ≠ .begins method) :
  AnyMove s p s' p'
  := trivial

/-- The stream is installed. -/
theorem reaches_connected
    {Allowed : BrokerSession → BrokerProcess → BrokerSession → Option BrokerProcess → Prop}
    (hoths : ∀ s p s' p', (∀ method, p ≠ .begins method) → Allowed s p s' p') :
  (brokerSystem.restrict Allowed).Reaches start
    ⟨{ connected := true }, .reader .reading ::ₘ .worker ::ₘ 0⟩
  := by
  apply Relation.ReflTransGen.single
  apply PoolSystem.Step.goesOn
  exact ⟨.install, hoths _ _ _ _ (by simp)⟩

/-- The call of a tool. -/
def echoCall : BrokerCall := .invokeOverWorker "echo" .null []

/-- A ping and a tool call are in flight. -/
def pingAndEcho : BrokerSession where
  connected := true
  pending := AList.insert 100 0 ∅
  nextRequestId := 101
  invokePending := AList.insert 1000 1 ∅
  nextInvokeId := 1001
  requests := ⟨1, 1000, echoCall.request⟩ ::ₘ ⟨0, 100, .ping 7⟩ ::ₘ 0
  issued := [(.sendPing 7, 100), (echoCall, 1000)]

theorem reaches_pingAndEcho :
  (brokerSystem.restrict InRange).Reaches start ⟨pingAndEcho,
    .caller ⟨echoCall, 1, 1000, .waiting⟩ ::ₘ .caller ⟨.sendPing 7, 0, 100, .waiting⟩
      ::ₘ .reader .reading ::ₘ .worker ::ₘ 0⟩
  := by
  have hrange : ∀ s' p', InRange { connected := true } (.begins (.sendPing 7)) s' p' := by
    rintro s' p' _ ⟨⟩
    decide
  have hping := (reaches_connected inRange_of_ne).trans
    (reaches_waiting inRange_of_ne (.sendPing 7) .pending rfl hrange rfl _)
  apply hping.trans
  apply reaches_waiting inRange_of_ne echoCall .invokePending rfl _ rfl
  rintro s' p' _ ⟨⟩
  change 1000 ≤ 1000
  decide

/-- A ping and a tool call that are in flight together are both answered. -/
theorem routed_pingAndEcho :
  ∃ m pool, (brokerSystem.restrict InRange).Reaches start ⟨pingAndEcho,
      .caller ⟨echoCall, 1, 1000, .waiting⟩ ::ₘ .caller ⟨.sendPing 7, 0, 100, .waiting⟩ ::ₘ m⟩
    ∧ Routed ⟨pingAndEcho,
      .caller ⟨echoCall, 1, 1000, .waiting⟩ ::ₘ .caller ⟨.sendPing 7, 0, 100, .waiting⟩ ::ₘ m⟩
    ∧ (brokerSystem.restrict InRange).Reaches start pool ∧ Routed pool
    ∧ pool.shared.delivered
      = [(1, .payload ⟨1, .success 1000 (.str "echo")⟩ (.ok (.str "echo"))),
        (0, .response ⟨0, .success 100 .null⟩)]
  := by
  obtain ⟨m, hdemux⟩ := exists_reaches_demux inRange_of_ne reaches_pingAndEcho (by simp) (by simp)
    ⟨1, 1000, echoCall.request⟩ (⟨0, 100, .ping 7⟩ ::ₘ 0) rfl rfl (.success 1000 (.str "echo")) rfl
  have hech := hdemux.tail (.goesOn ⟨.demux _ 1 rfl, inRange_of_ne _ _ _ _ (by simp)⟩)
  obtain ⟨m', hdemux'⟩ := exists_reaches_demux inRange_of_ne hech (by simp) (by simp)
    ⟨0, 100, .ping 7⟩ 0 rfl rfl (.success 100 .null) rfl
  have hreach := (hdemux'.tail
    (.goesOn ⟨.notInvoke _ rfl, inRange_of_ne _ _ _ _ (by simp)⟩)).tail
    (.goesOn ⟨.legacy _, inRange_of_ne _ _ _ _ (by simp)⟩)
  exact ⟨_, _, reaches_pingAndEcho, routed_of_reaches reaches_pingAndEcho, hreach,
    routed_of_reaches hreach, rfl⟩

def revoked : Nat → BrokerSession
  | 0 => { connected := true }
  | n + 1 => (revoked n).takeId (.sendRevokeToken 0)

theorem revoked_eq {n : Nat} (hn : n ≤ 900) :
  ∃ issued, revoked n = { connected := true, nextRequestId := 100 + n, issued := issued }
  := by
  induction n with
  | zero => exact ⟨[], rfl⟩
  | succ n ih =>
    obtain ⟨issued, heq⟩ := ih (by omega)
    have hnext : fetchAdd (100 + n) = 100 + (n + 1) := by
      unfold fetchAdd
      omega
    use issued ++ [(.sendRevokeToken 0, 100 + n)]
    rw [revoked, heq, ← hnext]
    rfl

def idle : Multiset BrokerProcess := .reader .reading ::ₘ .worker ::ₘ 0

theorem reaches_revoked {n : Nat} (hn : n ≤ 900) :
  (brokerSystem.restrict AnyMove).Reaches start ⟨revoked n, idle⟩
  := by
  induction n with
  | zero => apply reaches_connected anyMove_of_ne
  | succ n ih =>
    obtain ⟨issued, heq⟩ := revoked_eq (Nat.le_of_succ_le hn)
    have hcon : ((revoked n).takeId (.sendRevokeToken 0)).connected = true := by
      rw [heq]
      rfl
    have hwrite := ((((ih (Nat.le_of_succ_le hn)).tail (.start ⟨.sendRevokeToken 0, rfl⟩)).tail
      (.goesOn ⟨.number _, trivial⟩)).tail (.goesOn ⟨.goOn _ rfl rfl, trivial⟩)).tail
      (.ends ⟨.write _ rfl hcon, trivial⟩)
    rw [idle, Multiset.cons_swap] at hwrite
    have hign := hwrite.tail (.goesOn ⟨.ignore _ _ rfl, trivial⟩)
    rw [Multiset.cons_swap] at hign
    apply hign

/-- A session in which a tool call and a ping wait under the same number, after the given
calls. -/
def collided (issued : List (BrokerCall × Nat)) : BrokerSession where
  connected := true
  pending := AList.insert 1000 (issued ++ [(echoCall, 1000)]).length ∅
  nextRequestId := 1001
  invokePending := AList.insert 1000 issued.length ∅
  nextInvokeId := 1001
  requests := ⟨(issued ++ [(echoCall, 1000)]).length, 1000, .ping 7⟩
    ::ₘ ⟨issued.length, 1000, echoCall.request⟩ ::ₘ 0
  issued := issued ++ [(echoCall, 1000)] ++ [(.sendPing 7, 1000)]

theorem exists_reaches_collided :
  ∃ issued m, (brokerSystem.restrict AnyMove).Reaches start
    ⟨collided issued, m⟩ ∧ .worker ∈ m ∧ .reader .reading ∈ m
  := by
  obtain ⟨issued, heq⟩ := revoked_eq (Nat.le_refl 900)
  have hrev := reaches_revoked (Nat.le_refl 900)
  rw [heq] at hrev
  have hinv := hrev.trans (reaches_waiting anyMove_of_ne echoCall .invokePending rfl
    (fun _ _ => trivial) rfl _)
  have hping := hinv.trans (reaches_waiting anyMove_of_ne (.sendPing 7) .pending rfl
    (fun _ _ => trivial) rfl _)
  refine ⟨issued, _, hping, ?_, ?_⟩ <;> simp [idle]

/-- After 900 revocations a tool call and a ping have the same number, and the tool call gets the
other answer. -/
theorem exists_not_routed :
  ∃ pool, brokerSystem.Reaches start pool ∧ ¬ Routed pool
  := by
  obtain ⟨issued, m, hcol, hwork, hread⟩ := exists_reaches_collided
  obtain ⟨m', hdemux⟩ := exists_reaches_demux anyMove_of_ne hcol hwork hread
    ⟨(issued ++ [(echoCall, 1000)]).length, 1000, .ping 7⟩
    (⟨issued.length, 1000, echoCall.request⟩ ::ₘ 0) rfl rfl (.success 1000 .null) rfl
  have hlook : (collided issued).invokePending.lookup 1000 = some issued.length :=
    AList.lookup_insert _
  have hreach := hdemux.of_restrict.tail (.goesOn (.demux _ issued.length hlook))
  refine ⟨_, hreach, ?_⟩
  intro hroute
  obtain ⟨hcall, -⟩ := hroute.own issued.length
    (.payload ⟨(issued ++ [(echoCall, 1000)]).length, .success 1000 .null⟩ (.ok .null)) _ (by
      apply mem_delivered_resolve
      apply hlook) rfl
  simp at hcall

end BrokerSession
