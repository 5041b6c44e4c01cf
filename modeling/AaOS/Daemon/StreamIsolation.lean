import AaOS.Daemon.SubmitStream

/-!
# Streams of concurrent runs

The handler of a submitted goal writes every event it receives, whichever run the event belongs
to.  What a run has to do with an execution of the daemon is what is left without the events of
other runs and the turns in which the handler receives them.
-/

open List Option Machine

namespace SubmitStream

variable {E : Type} (capacity : Nat) (texts : MessageTexts) (ofRun : E → Bool)

/-- A step in which the receiver is not too far behind. -/
def NoLag (s : SubmitStream E) : StreamInput E → Prop
  | .receive _ => s.returned = false → s.sent.length ≤ s.next + capacity
  | _ => True

/-- An event of another run is broadcast or received, or nothing happens. -/
def foreign (s : SubmitStream E) : StreamInput E → Bool
  | .record event => !ofRun event
  | .complete _ => s.execution.isSome
  | .receive _ => s.returned || !s.sent[s.next]?.any ofRun
  | .finish _ => s.returned || s.execution.isNone

def ownPart (inputs : List (StreamInput E)) : List (StreamInput E) :=
  Machine.view (step capacity texts) (foreign ofRun) subscribed inputs

/-- The executions agree on the run, and differ in the events of other runs only. -/
def Agree (first second : List (StreamInput E)) : Prop :=
  ownPart capacity texts ofRun first = ownPart capacity texts ofRun second

/-- The events that are written in an execution. -/
def writtenAfter (inputs : List (StreamInput E)) : List E :=
  (Machine.after (step capacity texts) subscribed inputs).written

/-- The event that the handler receives in a step, while the client is connected. -/
def received (s : SubmitStream E) : StreamInput E → List E
  | .receive connected => if s.returned || !connected then [] else s.sent[s.next]?.toList
  | _ => []

def OwnReceived (s : SubmitStream E) (input : StreamInput E) : Prop :=
  ∀ event ∈ s.received input, ofRun event = true

/-! ### Turns of the loop -/

variable {capacity texts ofRun} {s t : SubmitStream E}

theorem written_concat (event : E) (next : Nat) :
  written { s with frames := s.frames ++ [.event event], next := next } = s.written ++ [event]
  := by
  rw [written, filterMap_append]
  rfl

theorem written_step {input : StreamInput E} (hnolag : s.NoLag capacity input) :
  (s.step capacity texts input).written = s.written ++ s.received input
  := by
  cases input with
  | record event => apply (append_nil _).symm
  | complete result =>
    rw [step]
    split_ifs <;> apply (append_nil _).symm
  | receive connected =>
    obtain hret | hrun := Bool.eq_false_or_eq_true s.returned
    · simp only [step, received, hret]
      apply (append_nil _).symm
    · obtain hnone | ⟨event, hevent⟩ := s.sent[s.next]?.eq_none_or_eq_some
      · simp [step, received, hrun, hnone, receive_eq_of_none (hnolag hrun) hnone]
      · simp only [step, received, hrun, hevent, receive_eq_of_some (hnolag hrun) hevent]
        cases connected with
        | true => apply written_concat event (s.next + 1)
        | false => apply (append_nil _).symm
  | finish elapsedMs =>
    simp only [step]
    split_ifs
    · apply (append_nil _).symm
    · rw [written_finish]
      apply (append_nil _).symm

/-! ### A stream without the events of other runs -/

/-- The second stream is the first one without the events of other runs. Only the first handler has
returned when the client has gone as such an event was written. -/
structure Shadow (ofRun : E → Bool) (s t : SubmitStream E) : Prop where
  position : s.next ≤ s.sent.length
  sent : t.sent = s.sent.filter ofRun
  written : t.written = s.written.filter ofRun
  execution : t.execution.isSome = s.execution.isSome
  running : s.returned = false →
    t.returned = false ∧ t.next = ((s.sent.take s.next).filter ofRun).length

theorem shadow_subscribed : Shadow ofRun subscribed subscribed := by
  constructor
  case position => apply Nat.le_refl
  case sent => rfl
  case written => rfl
  case execution => rfl
  case running =>
    intro _
    exact ⟨rfl, rfl⟩

theorem Shadow.sent_eq (hshad : s.Shadow ofRun t) :
  t.sent = (s.sent.take s.next).filter ofRun ++ (s.sent.drop s.next).filter ofRun
  := by
  rw [hshad.sent, ← filter_append, take_append_drop]

theorem Shadow.near (hshad : s.Shadow ofRun t) (hret : s.returned = false)
    (hnear : s.sent.length ≤ s.next + capacity) :
  t.sent.length ≤ t.next + capacity
  := by
  have hfil := (s.sent.drop s.next).length_filter_le ofRun
  rw [length_drop] at hfil
  rw [hshad.sent_eq, length_append, (hshad.running hret).2]
  omega

variable {event : E}

theorem Shadow.next_event (hshad : s.Shadow ofRun t) (hret : s.returned = false)
    (hevent : s.sent[s.next]? = some event) (hown : ofRun event = true) :
  t.sent[t.next]? = some event
  := by
  obtain ⟨hlt, rfl⟩ := List.getElem?_eq_some_iff.mp hevent
  rw [hshad.sent_eq, (hshad.running hret).2, getElem?_append_right (Nat.le_refl _),
    Nat.sub_self, drop_eq_getElem_cons hlt, filter_cons_of_pos hown]
  rfl

theorem length_filter_take_succ (hevent : s.sent[s.next]? = some event) :
  ((s.sent.take (s.next + 1)).filter ofRun).length
    = ((s.sent.take s.next).filter ofRun).length + if ofRun event then 1 else 0
  := by
  obtain ⟨hlt, rfl⟩ := List.getElem?_eq_some_iff.mp hevent
  rw [take_succ_eq_append_getElem hlt, filter_append, length_append]
  split_ifs with hown
  · rw [filter_cons_of_pos hown]
    rfl
  · rw [filter_cons_of_neg hown]
    rfl

theorem Shadow.record (hshad : s.Shadow ofRun t) (event : E) {sent : List E}
    (hsent : sent = (s.sent ++ [event]).filter ofRun) :
  Shadow ofRun { s with sent := s.sent ++ [event] } { t with sent := sent }
  := by
  constructor
  case position =>
    rw [length_append]
    apply Nat.le_add_right_of_le hshad.position
  case sent => apply hsent
  case written => apply hshad.written
  case execution => apply hshad.execution
  case running =>
    intro hret
    rw [take_append_of_le_length hshad.position]
    apply hshad.running hret

/-- Once the handler has returned, the second one may go on or return. -/
theorem Shadow.returned (hshad : s.Shadow ofRun t) (hlt : s.next < s.sent.length) (n : Nat)
    (returned : Bool) :
  Shadow ofRun { s with next := s.next + 1, returned := true } { t with next := n, returned }
  := by
  constructor
  case position => apply hlt
  case sent => apply hshad.sent
  case written => apply hshad.written
  case execution => apply hshad.execution
  case running => rintro ⟨⟩

theorem Shadow.receive_foreign (hshad : s.Shadow ofRun t) (hret : s.returned = false)
    (hnear : s.sent.length ≤ s.next + capacity) (hfor : s.sent[s.next]?.any ofRun = false)
    (connected : Bool) :
  Shadow ofRun (s.receive capacity connected) t
  := by
  obtain hnone | ⟨event, hevent⟩ := s.sent[s.next]?.eq_none_or_eq_some
  · rw [receive_eq_of_none hnear hnone]
    apply hshad
  · have hother : ofRun event = false := by simpa [hevent] using hfor
    have hlt : s.next < s.sent.length := (List.getElem?_eq_some_iff.mp hevent).1
    rw [receive_eq_of_some hnear hevent]
    split_ifs
    · constructor
      case position => apply hlt
      case sent => apply hshad.sent
      case written =>
        rw [written_concat, filter_append, ← hshad.written, filter_cons_of_neg (by simp [hother])]
        apply (append_nil _).symm
      case execution => apply hshad.execution
      case running =>
        intro _
        rw [length_filter_take_succ hevent, hother]
        apply hshad.running hret
    · apply hshad.returned hlt t.next t.returned

theorem Shadow.receive_own (hshad : s.Shadow ofRun t) (hret : s.returned = false)
    (hnear : s.sent.length ≤ s.next + capacity) (hevent : s.sent[s.next]? = some event)
    (hown : ofRun event = true) (connected : Bool) :
  Shadow ofRun (s.receive capacity connected) (t.receive capacity connected)
  := by
  have hlt : s.next < s.sent.length := (List.getElem?_eq_some_iff.mp hevent).1
  rw [receive_eq_of_some hnear hevent, receive_eq_of_some (hshad.near hret hnear)
    (hshad.next_event hret hevent hown)]
  split_ifs
  · constructor
    case position => apply hlt
    case sent => apply hshad.sent
    case written =>
      rw [written_concat, written_concat, filter_append, ← hshad.written, filter_cons_of_pos hown]
      rfl
    case execution => apply hshad.execution
    case running =>
      intro _
      obtain ⟨hrun, hnext⟩ := hshad.running hret
      rw [length_filter_take_succ hevent, hown, ← hnext]
      exact ⟨hrun, rfl⟩
  · apply hshad.returned hlt (t.next + 1) true

theorem Shadow.finish (hshad : s.Shadow ofRun t) (hexec : s.execution.isSome = true)
    (elapsedMs : UInt64) :
  Shadow ofRun (s.finish texts elapsedMs) (t.finish texts elapsedMs)
  := by
  have hexec' : t.execution.isSome = true := hshad.execution.trans hexec
  obtain ⟨⟨result, n⟩, hs⟩ := isSome_iff_exists.mp hexec
  obtain ⟨⟨result', n'⟩, ht⟩ := isSome_iff_exists.mp hexec'
  constructor
  case written =>
    rw [written_finish, written_finish]
    apply hshad.written
  all_goals simp only [SubmitStream.finish, hs, ht]
  case position => apply hshad.position
  case sent => apply hshad.sent
  case execution => rfl
  case running => rintro ⟨⟩

theorem shadow_step_foreign (s t : SubmitStream E) (input : StreamInput E)
    (hshad : s.Shadow ofRun t) (hnolag : s.NoLag capacity input)
    (hfor : s.foreign ofRun input = true) :
  Shadow ofRun (s.step capacity texts input) t
  := by
  cases input with
  | record event =>
    apply hshad.record event
    have hother : ofRun event = false := by simpa [foreign] using hfor
    rw [hshad.sent, filter_append, filter_cons_of_neg (by simp [hother])]
    apply (append_nil _).symm
  | complete result =>
    have hsome : s.execution.isSome = true := hfor
    rw [step, if_pos hsome]
    apply hshad
  | receive connected =>
    simp only [step]
    split_ifs with hret
    · apply hshad
    · have hrun : s.returned = false := by simpa using hret
      apply hshad.receive_foreign hrun (hnolag hrun)
      simpa [foreign, hrun] using hfor
  | finish elapsedMs =>
    simp only [step]
    split_ifs with hret
    · apply hshad
    · have hnone : s.execution = none := by simpa [foreign, hret] using hfor
      simpa only [SubmitStream.finish, hnone] using hshad

theorem shadow_step_own (s t : SubmitStream E) (input : StreamInput E) (hshad : s.Shadow ofRun t)
    (hnolag : s.NoLag capacity input) (hown : s.foreign ofRun input = false) :
  Shadow ofRun (s.step capacity texts input) (t.step capacity texts input)
    ∧ t.foreign ofRun input = false
  := by
  cases input with
  | record event =>
    have hevent : ofRun event = true := by simpa [foreign] using hown
    constructor
    · apply hshad.record event
      rw [hshad.sent, filter_append, filter_cons_of_pos hevent]
      rfl
    · apply hown
  | complete result =>
    have hnone : s.execution.isSome = false := hown
    have hnone' : t.execution.isSome = false := hshad.execution.trans hnone
    constructor
    · simp only [step, hnone, hnone']
      exact ⟨hshad.position, hshad.sent, hshad.written, rfl, hshad.running⟩
    · apply hnone'
  | receive connected =>
    simp only [foreign, Bool.or_eq_false_iff, Bool.not_eq_false'] at hown
    obtain ⟨hret, hany⟩ := hown
    obtain hnone | ⟨event, hevent⟩ := s.sent[s.next]?.eq_none_or_eq_some
    · rw [hnone] at hany
      cases hany
    · rw [hevent] at hany
      have hown : ofRun event = true := hany
      have hrun := (hshad.running hret).1
      have hevent' := hshad.next_event hret hevent hown
      constructor
      · simp only [step, hret, hrun]
        apply hshad.receive_own hret (hnolag hret) hevent hown
      · simp only [foreign, hrun, hevent', any_some, hown]
        rfl
  | finish elapsedMs =>
    simp only [foreign, Bool.or_eq_false_iff, isNone_eq_false_iff] at hown
    obtain ⟨hret, hsome⟩ := hown
    have hrun := (hshad.running hret).1
    constructor
    · simp only [step, hret, hrun]
      apply hshad.finish hsome
    · simp only [foreign, hrun, isNone_eq_false_iff.mpr (hshad.execution.trans hsome)]
      rfl

/-! ### Executions -/

section Executions

variable {inputs : List (StreamInput E)}

variable (hnolag : Machine.EveryStep (step capacity texts) (NoLag capacity) subscribed inputs)

include hnolag

theorem writtenAfter_ownPart :
  writtenAfter capacity texts (ownPart capacity texts ofRun inputs)
    = (writtenAfter capacity texts inputs).filter ofRun
  := by
  have hshad : Shadow ofRun (after (step capacity texts) subscribed inputs)
      (after (step capacity texts) subscribed (ownPart capacity texts ofRun inputs)) := by
    apply hnolag.related shadow_step_foreign _ shadow_subscribed
    intro s t input hshad hnolag hown
    apply (shadow_step_own s t input hshad hnolag hown).1
  apply hshad.written

theorem agree_ownPart :
  Agree capacity texts ofRun (ownPart capacity texts ofRun inputs) inputs
  := by
  apply hnolag.view_view shadow_step_foreign shadow_step_own shadow_subscribed

theorem forall_writtenAfter_iff :
  (∀ event ∈ writtenAfter capacity texts inputs, ofRun event = true)
    ↔ Machine.EveryStep (step capacity texts) (OwnReceived ofRun) subscribed inputs
  := by
  have halways : Machine.Always (step capacity texts)
        (fun s => ∀ event ∈ s.written, ofRun event = true) subscribed inputs
      ↔ Machine.EveryStep (step capacity texts) (OwnReceived ofRun) subscribed inputs := by
    apply always_iff_everyStep_of_everyStep hnolag
      (I := fun s => ∀ event ∈ s.written, ofRun event = true)
    · intro s hwrite
      apply hwrite
    · intro s input hnolag hwrite hrec event hmem
      rw [written_step hnolag] at hmem
      obtain hmem | hmem := mem_append.mp hmem
      · apply hwrite event hmem
      · apply hrec event hmem
    · intro s input hnolag _ hwrite event hmem
      apply hwrite
      rw [written_step hnolag]
      apply mem_append_right _ hmem
    · rintro event ⟨⟩
  rw [← halways]
  constructor
  · rintro hwrite before rest rfl event hmem
    apply hwrite
    rw [writtenAfter, after_append]
    apply hnolag.append_right.invariant (I := fun s => event ∈ s.written) _ hmem
    intro s input hmem hnolag
    rw [written_step hnolag]
    apply mem_append_left _ hmem
  · intro halways
    apply halways inputs [] (append_nil _).symm

end Executions

/-- Among executions without lag that are closed under taking the part of the run, streams are
isolated exactly when the handler receives events of its own run only. -/
theorem isolated_iff_ownReceived (capacity : Nat) (texts : MessageTexts) (ofRun : E → Bool)
    (executions : Set (List (StreamInput E)))
    (hnolag : ∀ inputs ∈ executions,
      Machine.EveryStep (step capacity texts) (NoLag capacity) subscribed inputs)
    (hown : ∀ inputs ∈ executions, ownPart capacity texts ofRun inputs ∈ executions) :
  (∀ first ∈ executions, ∀ second ∈ executions, Agree capacity texts ofRun first second →
      writtenAfter capacity texts first = writtenAfter capacity texts second)
    ↔ ∀ inputs ∈ executions,
      Machine.EveryStep (step capacity texts) (OwnReceived ofRun) subscribed inputs
  := by
  constructor
  · intro hisol inputs hmem
    have hwrite := hisol _ (hown inputs hmem) inputs hmem (agree_ownPart (hnolag inputs hmem))
    apply (forall_writtenAfter_iff (hnolag inputs hmem)).mp
    rw [writtenAfter_ownPart (hnolag inputs hmem)] at hwrite
    apply List.filter_eq_self.mp hwrite
  · intro hrec first hfirst second hsec hagree
    have hwrite : ∀ inputs ∈ executions,
        writtenAfter capacity texts (ownPart capacity texts ofRun inputs)
          = writtenAfter capacity texts inputs := by
      intro inputs hmem
      rw [writtenAfter_ownPart (hnolag inputs hmem)]
      apply List.filter_eq_self.mpr
      apply (forall_writtenAfter_iff (hnolag inputs hmem)).mpr (hrec inputs hmem)
    calc
      writtenAfter capacity texts first
        = writtenAfter capacity texts (ownPart capacity texts ofRun first) :=
          (hwrite first hfirst).symm
      _ = writtenAfter capacity texts (ownPart capacity texts ofRun second) := by rw [hagree]
      _ = writtenAfter capacity texts second := hwrite second hsec

def isZero (event : Nat) : Bool := event == 0

def aloneRun : List (StreamInput Nat) :=
  [.record 0, .receive true, .complete (.panicked []), .finish 0]

/-- The same execution, with an event of another run that comes too late to be received. -/
def laterRun : List (StreamInput Nat) :=
  [.record 0, .receive true, .complete (.panicked []), .record 1, .finish 0]

def besideRun : List (StreamInput Nat) :=
  [.record 1, .receive true, .record 0, .receive true, .complete (.panicked []), .finish 0]

/-- The late event of the other run is not written. -/
theorem isolated_laterRun :
  Agree 1 silentTexts isZero aloneRun laterRun
    ∧ writtenAfter 1 silentTexts aloneRun = writtenAfter 1 silentTexts laterRun
  := by
  use rfl
  apply (isolated_iff_ownReceived 1 silentTexts isZero {aloneRun, laterRun} _ _).mpr _
    aloneRun (.inl rfl) laterRun (.inr rfl) rfl
  · rintro inputs (rfl | rfl)
    · simp [aloneRun, everyStep_cons, everyStep_nil, NoLag, step, subscribed]
    · simp [laterRun, everyStep_cons, everyStep_nil, NoLag, step, subscribed]
  · rintro inputs (rfl | rfl)
    · apply Or.inl rfl
    · apply Or.inl rfl
  · rintro inputs (rfl | rfl)
    · simp [aloneRun, everyStep_cons, everyStep_nil, OwnReceived, received, step,
        subscribed, isZero]
    · simp [laterRun, everyStep_cons, everyStep_nil, OwnReceived, received, step,
        subscribed, isZero]

/-- The event of the other run is written when it is received. -/
theorem not_isolated_besideRun :
  Machine.EveryStep (step 1 silentTexts) (NoLag 1) subscribed aloneRun
    ∧ Machine.EveryStep (step 1 silentTexts) (NoLag 1) subscribed besideRun
    ∧ Agree 1 silentTexts isZero aloneRun besideRun
    ∧ writtenAfter 1 silentTexts aloneRun ≠ writtenAfter 1 silentTexts besideRun
  := by
  refine ⟨?_, ?_, rfl, ?_⟩
  · simp [aloneRun, everyStep_cons, everyStep_nil, NoLag, step, subscribed]
  · simp [besideRun, everyStep_cons, everyStep_nil, NoLag, step, subscribed,
      receive, Broadcast.recv]
  · decide

end SubmitStream
