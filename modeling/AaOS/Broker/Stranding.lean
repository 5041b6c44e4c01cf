import AaOS.Broker.Delivery

/-!
# Calls that wait in vain

When the reader stops, it drains the map of tool calls and tells every caller that the worker is
lost.  A tool call that puts its sender into the map after that is told nothing: if its request can
still be written to the stream, it waits for ever.  A sender that was put into the map before the
drain is gone after it, so this is the only way to wait in vain.
-/

open Multiset PoolSystem.Reaches

namespace BrokerSession

variable {s s' : BrokerSession} {p : BrokerProcess} {p' : Option BrokerProcess}

/-- The call waits for an answer, and its sender is in the map of tool calls. -/
def WaitsInMap (s : BrokerSession) (c : Caller) : Prop :=
  c.method.awaits = some .invokePending ∧ c.stage = .waiting
    ∧ s.invokePending.lookup c.id = some c.call

/-- The reader has drained the map, and a call waits on an entry that is in it. -/
def Stranded (pool : Pool BrokerSession BrokerProcess) : Prop :=
  pool.shared.drained = true
    ∧ ∃ c : Caller, .caller c ∈ pool.running ∧ pool.shared.WaitsInMap c

/-- After the drain, a tool call puts its sender into the map, and the given state is reached
later. -/
def ParksLate (sys : PoolSystem BrokerSession BrokerProcess) (c : Caller)
    (pool : Pool BrokerSession BrokerProcess) : Prop :=
  ∃ s m, s.drained = true ∧ sys.Reaches start ⟨s, .caller { c with stage := .numbered } ::ₘ m⟩
    ∧ sys.Move s m (.caller { c with stage := .numbered }) (s.park .invokePending c.id c.call)
      (some (.caller { c with stage := .parked }))
    ∧ sys.Reaches ⟨s.park .invokePending c.id c.call, .caller { c with stage := .parked } ::ₘ m⟩
      pool

/-- A tool call puts its sender into the map after the drain, and its request is written later. -/
def WritesLate (sys : PoolSystem BrokerSession BrokerProcess) : Prop :=
  ∃ s m c, c.method.awaits = some .invokePending
    ∧ ParksLate sys c ⟨s, .caller { c with stage := .parked } ::ₘ m⟩
    ∧ sys.Move s m (.caller { c with stage := .parked }) (s.write c.frame)
      (some (.caller { c with stage := .waiting }))

/-! ### The drain -/

theorem drained_of_move (hmove : BrokerMove s p s' p') (hdrain : s'.drained = true) :
  s.drained = true ∨ s'.invokePending = ∅
  := by
  cases hmove with
  | number method =>
    left
    cases method <;> apply hdrain
  | drain => exact .inr rfl
  | _ =>
    left
    simpa [park, evict, resolve, empty, write, deliver] using hdrain

/-- A call is parked by a move that puts its sender into the map, and waits after its request was
written. -/
theorem stage_of_move {c : Caller} (hmove : BrokerMove s p s' (some (.caller c)))
    (hmet : c.method.awaits = some .invokePending) :
  (c.stage = .parked → p = .caller { c with stage := .numbered }
      ∧ s' = s.park .invokePending c.id c.call)
    ∧ (c.stage = .waiting → p = .caller { c with stage := .parked } ∧ s' = s.write c.frame)
  := by
  generalize hp' : some (BrokerProcess.caller c) = p' at hmove
  cases hmove with
  | number method =>
    cases hp'
    exact ⟨nofun, nofun⟩
  | notConnected c₀ =>
    cases (Caller.eq_of_notConnected hp').1
    exact ⟨nofun, nofun⟩
  | writeFails c₀ | flushFails c₀ =>
    cases Caller.eq_of_goesOn hp'
    exact ⟨nofun, nofun⟩
  | write c₀ hstage =>
    cases Caller.eq_of_goesOn hp'
    refine ⟨nofun, fun _ => ⟨?_, rfl⟩⟩
    rw [← hstage]
  | park c₀ hstage map hmap =>
    cases hp'
    obtain rfl := Option.some.inj (hmap.symm.trans hmet)
    refine ⟨fun _ => ⟨?_, rfl⟩, nofun⟩
    rw [← hstage]
  | goOn c₀ hstage hnone =>
    cases hp'
    cases hnone.symm.trans hmet
  | _ => cases hp' <;> exact ⟨nofun, nofun⟩

/-! ### A stranded call has written late -/

variable {sys : PoolSystem BrokerSession BrokerProcess}

/-- A sender in the map after the drain was put there after it. -/
def LateSenders (sys : PoolSystem BrokerSession BrokerProcess)
    (pool : Pool BrokerSession BrokerProcess) : Prop :=
  pool.shared.drained = true → ∀ c : Caller, .caller c ∈ pool.running →
    c.method.awaits = some .invokePending → pool.shared.invokePending.lookup c.id = some c.call →
    (c.stage = .parked → ParksLate sys c pool) ∧ (c.stage = .waiting → WritesLate sys)

theorem ParksLate.tail {c : Caller} {pool pool' : Pool BrokerSession BrokerProcess}
    (hparks : ParksLate sys c pool) (hstep : sys.Step pool pool') :
  ParksLate sys c pool'
  := by
  obtain ⟨s, m, hdrain, hreach, hpark, hlater⟩ := hparks
  exact ⟨s, m, hdrain, hreach, hpark, hlater.tail hstep⟩

section Environments

variable {Allowed : BrokerSession → BrokerProcess → BrokerSession → Option BrokerProcess → Prop}
  {pool : Pool BrokerSession BrokerProcess}

theorem lateSenders_of_reaches (hreach : (brokerSystem.restrict Allowed).Reaches start pool) :
  LateSenders (brokerSystem.restrict Allowed) pool
  := by
  induction hreach with
  | refl =>
    intro hdrain
    cases hdrain
  | tail hbef hstep ih =>
    have hholds := keeps_labelled.holds_of_reaches (of_restrict hbef)
      holds_start
    intro hdrain c hc hmet hlook
    cases hstep with
    | start h =>
      obtain rfl | hc := mem_cons.mp hc
      · obtain ⟨method, h⟩ := h
        cases h
      · obtain ⟨hpar, hwait⟩ := ih hdrain c hc hmet hlook
        exact ⟨fun hstage => (hpar hstage).tail (.start h), hwait⟩
    | @move s s' m p p' h =>
      obtain hold | hempty := drained_of_move h.1 hdrain
      case inr =>
        rw [show s'.invokePending = ∅ from hempty] at hlook
        cases hlook
      obtain rfl | hc := Pool.mem_rejoin.mp hc
      · obtain ⟨hpark, hwrite⟩ := stage_of_move h.1 hmet
        constructor
        · intro hstage
          obtain ⟨rfl, rfl⟩ := hpark hstage
          have hsame : { c with stage := .parked } = c := by rw [← hstage]
          refine ⟨s, m, hold, hbef, ?_, ?_⟩
          · rw [hsame]
            apply h
          · rw [hsame]
            exact .refl
        · intro hstage
          obtain ⟨rfl, rfl⟩ := hwrite hstage
          have hsame : { c with stage := .waiting } = c := by rw [← hstage]
          refine ⟨s, m, c, hmet, ?_, ?_⟩
          · apply (ih hold _ (mem_cons_self _ _) hmet hlook).1 rfl
          · rw [hsame]
            apply h
      · have hentry : (s'.mapOf .invokePending).lookup c.id = some c.call := hlook
        obtain hsame | ⟨c₀, rfl, -, hcall, -⟩ := lookup_of_move h.1 hentry
        · obtain ⟨hpar, hwait⟩ := ih hold c (mem_cons_of_mem hc) hmet hsame
          exact ⟨fun hstage => (hpar hstage).tail (.move h), hwait⟩
        · cases hholds.apart _ _ rfl _ hc c₀ c rfl rfl hcall

end Environments

/-- No tool call is stranded if none that puts its sender into the map after the drain has its
request written. -/
theorem neverStranded_of_not_writesLate
    {Allowed : BrokerSession → BrokerProcess → BrokerSession → Option BrokerProcess → Prop}
    (hnever : ¬ WritesLate (brokerSystem.restrict Allowed))
    {pool : Pool BrokerSession BrokerProcess}
    (hreaches : (brokerSystem.restrict Allowed).Reaches start pool) :
  ¬ Stranded pool
  := by
  rintro ⟨hdrain, c, hc, hmet, hstage, hlook⟩
  apply hnever ((lateSenders_of_reaches hreaches hdrain c hc hmet hlook).2 hstage)

/-! ### A stream that is closed with the drain -/

/-- After the drain no request is written. -/
def WritesBeforeDrain (s : BrokerSession) (_ : BrokerProcess) (s' : BrokerSession)
    (_ : Option BrokerProcess) : Prop :=
  s.drained = true → s'.requests ≤ s.requests

theorem drained_kept (hmove : BrokerMove s p s' p') (hdrain : s.drained = true) :
  s'.drained = true
  := by
  cases hmove with
  | number method => cases method <;> apply hdrain
  | drain => rfl
  | _ => simpa [park, evict, resolve, empty, write, deliver] using hdrain

theorem drained_of_reaches {pool pool' : Pool BrokerSession BrokerProcess}
    {Allowed : BrokerSession → BrokerProcess → BrokerSession → Option BrokerProcess → Prop}
    (hreach : (brokerSystem.restrict Allowed).Reaches pool pool')
    (hdrain : pool.shared.drained = true) :
  pool'.shared.drained = true
  := by
  induction hreach with
  | refl => apply hdrain
  | tail _ hstep ih =>
    cases hstep with
    | start _ => apply ih
    | move hmove => apply drained_kept hmove.1 ih

theorem not_writesLate_of_writesBeforeDrain :
  ¬ WritesLate (brokerSystem.restrict WritesBeforeDrain)
  := by
  rintro ⟨s, m, c, -, ⟨s₀, m₀, hdrain, -, hpark, hlater⟩, hwrite⟩
  have hkept := drained_of_reaches hlater (drained_kept hpark.1 hdrain)
  apply (lt_cons_self s.requests c.frame).not_ge (hwrite.2 hkept)

/-- A tool call puts its sender into the map after the drain, and is not stranded. -/
theorem neverStranded_of_late_sender :
  ∃ pool, (brokerSystem.restrict WritesBeforeDrain).Reaches start pool
    ∧ pool.shared.drained = true ∧ .caller ⟨echoCall, 0, 1000, .failed⟩ ∈ pool.running
    ∧ pool.shared.invokePending.lookup 1000 = some 0 ∧ ¬ Stranded pool
  := by
  have hcon : (brokerSystem.restrict WritesBeforeDrain).Reaches start
      ⟨{ connected := true }, .reader .reading ::ₘ .worker ::ₘ 0⟩ :=
    .single (.goesOn ⟨.install, nofun⟩)
  have hdrain := (hcon.tail (.goesOn ⟨.close, nofun⟩)).tail (.goesOn ⟨.drain, nofun⟩)
  have hnum := (hdrain.tail (.start ⟨echoCall, rfl⟩)).tail
    (.goesOn ⟨.number echoCall, fun _ => le_rfl⟩)
  have hpar := hnum.tail (.goesOn ⟨.park _ rfl .invokePending rfl, fun _ => le_rfl⟩)
  have hfail := hpar.tail (.goesOn ⟨.writeFails _ rfl rfl, fun _ => le_rfl⟩)
  have hmem : .caller ⟨echoCall, 0, 1000, .failed⟩ ∈ (.caller ⟨echoCall, 0, 1000, .failed⟩
      ::ₘ .reader .clearing ::ₘ .worker ::ₘ 0 : Multiset BrokerProcess) := mem_cons_self _ _
  exact ⟨_, hfail, rfl, hmem, rfl,
    neverStranded_of_not_writesLate not_writesLate_of_writesBeforeDrain hfail⟩

/-! ### A tool call that waits in vain -/

/-- The worker closes its side, the reader drains the map, and then a tool is called. -/
theorem exists_stranded :
  ∃ pool, brokerSystem.Reaches start pool ∧ Stranded pool
  := by
  have hdrain : (brokerSystem.restrict AnyMove).Reaches start
      ⟨{ connected := true, drained := true }, .reader .clearing ::ₘ .worker ::ₘ 0⟩ :=
    ((reaches_connected anyMove_of_ne).tail (.goesOn ⟨.close, trivial⟩)).tail
      (.goesOn ⟨.drain, trivial⟩)
  have hwait := hdrain.trans
    (reaches_waiting anyMove_of_ne echoCall .invokePending rfl (fun _ _ => trivial) rfl _)
  have hmem : .caller ⟨echoCall, 0, 1000, .waiting⟩ ∈ (.caller ⟨echoCall, 0, 1000, .waiting⟩
      ::ₘ .reader .clearing ::ₘ .worker ::ₘ 0 : Multiset BrokerProcess) :=
    mem_cons_self _ _
  exact ⟨_, of_restrict hwait, rfl, _, hmem, rfl, rfl, rfl⟩

end BrokerSession
