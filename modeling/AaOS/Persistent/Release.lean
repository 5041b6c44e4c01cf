import AaOS.Persistent.History

/-!
# The release of sessions

The loop of an agent without a lasting identity is to clear the session of the agent in the
store when it is left.  It does so on every way out but one: an agent that is stopped while
it is paused keeps its session.
-/

namespace StoreCall

def writes : StoreCall → Bool
  | append _ | replace _ => true
  | archiveSegment .. | clear => false

end StoreCall

namespace PersistentState

/-- The session was cleared, and nothing was written to it since then. -/
def Cleared (state : PersistentState) : Prop :=
  ∃ before after, state.storeCalls = before ++ .clear :: after
    ∧ ∀ call ∈ after, call.writes = false

/-- A loop that was left has cleared the session. -/
def Released (state : PersistentState) : Prop :=
  state.status = .stopped → state.Cleared

/-- The session was cleared only if the loop was left. -/
def Unreleased (state : PersistentState) : Prop :=
  state.status ≠ .stopped → .clear ∉ state.storeCalls

theorem Cleared.clear_mem {state : PersistentState} (hclear : state.Cleared) :
  .clear ∈ state.storeCalls
  := by
  obtain ⟨before, after, hcalls, -⟩ := hclear
  simp [hcalls]

end PersistentState

namespace PersistentLoop

open PersistentState

variable {σ : Type} {loop : PersistentLoop σ} {state state' : PersistentState}

def StopsAwake (state : PersistentState) (input : PersistentInput σ) : Prop :=
  state.status = .paused → ∀ clears,
    input ≠ .command (some .stop) clears ∧ input ≠ .command none clears

theorem Left.cleared_of_clear {clears : Bool} (hleft : loop.Left clears state state')
    (hclear : loop.clearSessionOnExit = true) :
  state'.Cleared
  := by
  obtain ⟨-, hcalls, -⟩ | ⟨hnot, -⟩ := hleft.cleared
  · use state.storeCalls, [], hcalls
    simp
  · rw [hclear] at hnot
    cases hnot

theorem SameRecords.cleared (hsame : SameRecords state state') (hclear : state.Cleared) :
  state'.Cleared
  := by
  rw [Cleared, hsame.storeCalls]
  apply hclear

variable {input : PersistentInput σ}

theorem released_step (hclear : loop.clearSessionOnExit = true) (hrel : state.Released)
    (hawake : StopsAwake state input) :
  (loop.step state input).Released
  := by
  have hchan := loop.change_step state input
  generalize loop.step state input = state' at hchan
  intro hstopp
  cases hchan with
  | received hwait hstat hunar | summarized hwait hstat harc
  | failed hexec herror hstat hsame | finished hexec hok hstat hext
  | paused hwait hstat hsame | resumed hpause hstat hsame =>
    rw [hstat] at hstopp
    cases hstopp
  | closed hwait hstat hleft | stopped hwait hstat hleft =>
    apply hleft.cleared_of_clear hclear
  | stoppedPaused hpause hcom hstat hsame =>
    obtain ⟨hstop, hnone⟩ := hawake hpause _
    obtain rfl | rfl := hcom
    · cases hstop rfl
    · cases hnone rfl
  | idle hstat hsame =>
    rw [hstat] at hstopp
    apply hsame.cleared (hrel hstopp)

theorem unreleased_step (hunr : state.Unreleased) :
  (loop.step state input).Unreleased
  := by
  intro hrun
  obtain ⟨hbef, hchan⟩ := loop.running_step hrun
  generalize loop.step state input = state' at hchan
  have hnone := hunr hbef
  cases hchan with
  | received hunar =>
    obtain ⟨calls, hcalls, harch⟩ := hunar.storeCalls
    rw [hcalls, List.mem_append, not_or]
    constructor
    · apply hnone
    · intro hmem
      obtain ⟨sourceRange, messages, heq⟩ := harch _ hmem
      cases heq
  | summarized _ harc =>
    rw [harc.storeCalls]
    simpa using hnone
  | finished _ hext =>
    rw [hext.storeCalls]
    simpa using hnone
  | kept hsame =>
    rw [hsame.storeCalls]
    apply hnone

theorem step_paused (hpause : state.status = .paused) {clears : Bool}
    (hstop : input = .command (some .stop) clears ∨ input = .command none clears) :
  (loop.step state input).status = .stopped
    ∧ (loop.step state input).storeCalls = state.storeCalls
  := by
  obtain rfl | rfl := hstop
  all_goals
    unfold step
    rw [hpause]
    exact ⟨rfl, rfl⟩

theorem stopsAwake_of_released_step (hunr : state.Unreleased)
    (hrel : (loop.step state input).Released) :
  StopsAwake state input
  := by
  intro hpause clears
  rw [← not_or]
  intro hstop
  obtain ⟨hstat, hcalls⟩ := loop.step_paused hpause hstop
  have hclear := (hrel hstat).clear_mem
  rw [hcalls] at hclear
  apply hunr _ hclear
  simp [hpause]

/-- The loop never ends with a session that is to be cleared and was not cleared after the last
write exactly when the agent is not stopped while it is paused. -/
theorem released_run_iff (loop : PersistentLoop σ) (hclear : loop.clearSessionOnExit = true)
    (loads : Bool) (stored : List Message) (inputs : List (PersistentInput σ)) :
  Machine.Always loop.step Released (startLoading loads stored) inputs
    ↔ Machine.EveryStep loop.step StopsAwake (startLoading loads stored) inputs
  := by
  apply Machine.always_iff_everyStep_of_invariant (I := Unreleased)
  · intro state input hunr
    apply unreleased_step hunr
  · intro state input hunr hrel
    constructor
    · apply stopsAwake_of_released_step hunr
    · apply released_step hclear hrel
  · intro _ hmem
    cases hmem
  · rintro ⟨⟩

/-! ### An agent that is stopped while it is paused -/

def ephemeralLoop : PersistentLoop Unit :=
  { twoMessageLoop with clearSessionOnExit := true }

theorem released_run_iff_ephemeralLoop :
  ephemeralLoop.clearSessionOnExit = true
    ∧ (Machine.Always ephemeralLoop.step Released (startLoading true [])
        [.message readArrival, .returned (.ok ()) 0, .command (some .stop) true]
      ↔ Machine.EveryStep ephemeralLoop.step StopsAwake (startLoading true [])
        [.message readArrival, .returned (.ok ()) 0, .command (some .stop) true])
  := by
  constructor
  · rfl
  · apply released_run_iff ephemeralLoop rfl

/-- After a message, a pause and a stop the session of the agent is still in the store. -/
theorem not_released_stoppedPaused :
  ¬ Machine.Always ephemeralLoop.step Released (startLoading true [])
    [.message readArrival, .returned (.ok ()) 0, .command (some .pause) true,
      .command (some .stop) true]
  := by
  intro halways
  have hcleared := halways _ [] (List.append_nil _).symm rfl
  obtain ⟨message, hmsg⟩ : ∃ messages,
      (Machine.after ephemeralLoop.step (startLoading true []) [.message readArrival,
        .returned (.ok ()) 0, .command (some .pause) true, .command (some .stop) true]).storeCalls
        = [.append messages] := ⟨_, rfl⟩
  have hclear := hcleared.clear_mem
  rw [hmsg] at hclear
  simp at hclear

end PersistentLoop
