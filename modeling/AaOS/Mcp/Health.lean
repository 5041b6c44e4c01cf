import AaOS.Lib.Machine

/-!
# The health of a session

The flag `healthy` of `McpSession` in `aaos-mcp/src/client/session.rs`, with each access to the
flag and to the transport as a step.  A call looks at the flag, reads the transport, and clears
the flag when its request fails.  While the flag is clear, `handshake_with` brings a new transport
into use and then sets the flag.  A call does not look whether its transport is still in use when
its request fails, so that a request on an old transport clears the flag for the new one.
-/

namespace Mcp

/-- The flag, the transport in use and the number of transports so far, the number of calls that
have found the flag set, the transports of the requests under way and of those that have failed, and
the handshake. -/
structure SessionHealth where
  healthy : Bool := true
  transport : Nat := 0
  spawned : Nat := 1
  checked : Nat := 0
  sent : List Nat := []
  failed : List Nat := []
  handshake : Option (Nat × Bool) := none

/-- A call looks at the flag, or sends its request; a request returns or fails; a handshake begins,
fails, replaces the transport, or sets the flag. -/
inductive HealthInput where
  | check
  | read
  | answered (k : Nat)
  | failed (k : Nat)
  | reconnect
  | refused
  | replace
  | store

namespace SessionHealth

/-- One step of the flag and of the calls. -/
def step (s : SessionHealth) : HealthInput → SessionHealth
  | .check => if s.healthy then { s with checked := s.checked + 1 } else s
  | .read =>
    if s.checked = 0 then s
    else { s with checked := s.checked - 1, sent := s.transport :: s.sent }
  | .answered k => { s with sent := s.sent.erase k }
  | .failed k =>
    if k ∈ s.sent then
      { s with sent := s.sent.erase k, failed := k :: s.failed, healthy := false }
    else s
  | .reconnect =>
    if s.healthy = false ∧ s.handshake = none then
      { s with spawned := s.spawned + 1, handshake := some (s.spawned, false) }
    else s
  | .refused =>
    match s.handshake with
    | some (_, false) => { s with handshake := none }
    | _ => s
  | .replace =>
    match s.handshake with
    | some (k, false) => { s with transport := k, handshake := some (k, true) }
    | _ => s
  | .store =>
    match s.handshake with
    | some (_, true) => { s with healthy := true, handshake := none }
    | _ => s

def Reflects (s : SessionHealth) : Prop :=
  s.handshake = none → s.transport ∉ s.failed → s.healthy = true

/-- No request fails on an old transport while the one in use has not failed and the session is
healthy. -/
def NoStaleFailure (s : SessionHealth) : HealthInput → Prop
  | .failed k => k ∈ s.sent → k ≠ s.transport → s.healthy = true → s.transport ∈ s.failed
  | _ => True

/-- A session is unhealthy because its transport has failed, or until a handshake sets the flag. -/
structure Explained (s : SessionHealth) : Prop where
  unhealthy : s.healthy = false → s.transport ∈ s.failed ∨ ∃ k, s.handshake = some (k, true)
  healthy : s.healthy = true → s.handshake = none

theorem Explained.reflects {s : SessionHealth} (hs : s.Explained) :
  s.Reflects
  := by
  intro hnone hfail
  by_contra hunh
  obtain h | ⟨k, h⟩ := hs.unhealthy (by simpa using hunh)
  · apply hfail h
  · cases hnone.symm.trans h

theorem explained_step (s : SessionHealth) (input : HealthInput) (hs : s.Explained)
    (hinput : s.NoStaleFailure input) :
  (s.step input).Explained
  := by
  obtain ⟨hunh, hheal⟩ := hs
  cases input with
  | failed k =>
    rw [step]
    split_ifs with hsent
    · refine ⟨fun _ => ?_, by simp⟩
      by_cases hk : k = s.transport
      · simp [hk]
      · cases hflag : s.healthy with
        | true => exact .inl (List.mem_cons_of_mem _ (hinput hsent hk hflag))
        | false => exact (hunh hflag).imp_left (List.mem_cons_of_mem _)
    · exact ⟨hunh, hheal⟩
  | answered k => exact ⟨hunh, hheal⟩
  | _ =>
    simp only [step]
    split <;> constructor <;> simp_all

theorem noStaleFailure_of_reflects (s : SessionHealth) (input : HealthInput) (hs : s.Explained)
    (href : (s.step input).Reflects) :
  s.NoStaleFailure input
  := by
  cases input with
  | failed k =>
    intro hsent hk hflag
    by_contra hfail
    rw [step, if_pos hsent] at href
    have hnot : s.transport ∉ k :: s.failed := by
      simp [Ne.symm hk, hfail]
    cases href (hs.healthy hflag) hnot
  | _ => trivial

/-- The flag reflects the transport throughout a run exactly when no request on an old transport
fails while the session is healthy on one that has not failed. -/
theorem reflects_iff_noStaleFailure (inputs : List HealthInput) :
  Machine.Always step Reflects {} inputs ↔ Machine.EveryStep step NoStaleFailure {} inputs
  := by
  apply Machine.always_iff_everyStep (I := Explained)
  · intro s hs
    apply hs.reflects
  · apply explained_step
  · apply noStaleFailure_of_reflects
  · constructor <;> simp

/-- Two calls are sent, the first one fails, the session is reconnected, and then the second call
fails. -/
def staleFailure : List HealthInput :=
  [.check, .read, .check, .read, .failed 0, .reconnect, .replace, .store, .failed 0]

/-- The session is unhealthy, although its new transport has never failed. -/
theorem not_reflects_staleFailure :
  (Machine.after step {} staleFailure).handshake = none
    ∧ (Machine.after step {} staleFailure).transport = 1
    ∧ (Machine.after step {} staleFailure).failed = [0, 0]
    ∧ (Machine.after step {} staleFailure).healthy = false
    ∧ ¬ Machine.Always step Reflects {} staleFailure
  := by
  refine ⟨rfl, rfl, rfl, rfl, ?_⟩
  intro halways
  cases halways staleFailure [] (List.append_nil _).symm rfl (by decide)

end SessionHealth

end Mcp
