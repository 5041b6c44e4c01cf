import AaOS.Lib.Pool

/-!
# Scheduled calls of the model

`ScheduledLlmClient` of `aaos-llm/src/scheduled.rs` gives a permit to each call, of which there are
`max_concurrent`, and lets a call through when the time since the last one is at least the delay.
Calls wait, sleep and are dropped in any order, while the clock goes on.
-/

/-- The permits that are left, the mutex with the time of the last call, and the times before it. -/
structure ScheduledLlmClient where
  minDelay : Nat
  permits : Nat
  now : Nat
  locked : Bool
  lastCall : Nat
  earlier : List Nat

namespace ScheduledLlmClient

/-- A client that is created now. -/
def new (maxConcurrent minDelay now : Nat) : ScheduledLlmClient where
  minDelay := minDelay
  permits := maxConcurrent
  now := now
  locked := false
  lastCall := now
  earlier := []

end ScheduledLlmClient

/-- A call waits for a permit, then for the mutex, sleeps until a time, and calls the model. -/
inductive ScheduledCall where
  | clock
  | waits
  | permitted
  | sleeps (wake : Nat)
  | calls
deriving DecidableEq

namespace ScheduledCall

def hasPermit : ScheduledCall → Bool
  | permitted | sleeps _ | calls => true
  | _ => false

def hasLock : ScheduledCall → Bool
  | sleeps _ => true
  | _ => false

end ScheduledCall

open ScheduledCall Pool

/-- The moves.  A call that returns or is dropped gives back what it holds. -/
inductive ScheduledMove (s : ScheduledLlmClient) :
    ScheduledCall → ScheduledLlmClient → Option ScheduledCall → Prop
  | tick (time : Nat) : ScheduledMove s .clock { s with now := s.now + time } (some .clock)
  | acquire (hpermit : 0 < s.permits) :
      ScheduledMove s .waits { s with permits := s.permits - 1 }
        (some (if s.minDelay = 0 then .calls else .permitted))
  | lock (hfree : s.locked = false) :
      ScheduledMove s .permitted { s with locked := true }
        (some (.sleeps (s.now + (s.minDelay - (s.now - s.lastCall)))))
  | pass (wake : Nat) (hwake : wake ≤ s.now) :
      ScheduledMove s (.sleeps wake)
        { s with locked := false, lastCall := s.now, earlier := s.lastCall :: s.earlier }
        (some .calls)
  | leave (p : ScheduledCall) (hp : p ≠ .clock) :
      ScheduledMove s p
        { s with permits := s.permits + p.hasPermit.toNat, locked := s.locked && !p.hasLock } none

def scheduledSystem : PoolSystem ScheduledLlmClient ScheduledCall where
  Start _ _ p := p = .waits
  Move s _ p s' p' := ScheduledMove s p s' p'

namespace ScheduledLlmClient

/-- Every permit is left or held, and the times at which calls were let through are apart. -/
structure Paced (maxConcurrent minDelay : Nat) (pool : Pool ScheduledLlmClient ScheduledCall) :
    Prop where
  permits : pool.shared.permits + pool.count hasPermit = maxConcurrent
  apart : (pool.shared.lastCall :: pool.shared.earlier).IsChain
    (fun later earlier => earlier + minDelay ≤ later)

/-- What holds of the calls throughout. -/
structure Sound (maxConcurrent minDelay : Nat) (pool : Pool ScheduledLlmClient ScheduledCall) :
    Prop extends Paced maxConcurrent minDelay pool where
  delay : pool.shared.minDelay = minDelay
  locked : pool.count hasLock = pool.shared.locked.toNat
  wakes : ∀ wake, .sleeps wake ∈ pool.running → pool.shared.lastCall + minDelay ≤ wake
  past : pool.shared.lastCall ≤ pool.shared.now

variable {maxConcurrent minDelay : Nat} {s s' : ScheduledLlmClient} {m : Multiset ScheduledCall}
  {p : ScheduledCall} {p' : Option ScheduledCall}

theorem Sound.of_move (hmove : ScheduledMove s p s' p')
    (hsound : Sound maxConcurrent minDelay ⟨s, p ::ₘ m⟩) :
  Sound maxConcurrent minDelay ⟨s', rejoin m p'⟩
  := by
  obtain ⟨⟨hperm, hapart⟩, hdelay, hloc, hwakes, hpast⟩ := hsound
  have hone := Bool.toNat_le s.locked
  simp only [count_cons] at hperm hloc
  refine ⟨⟨?permits, ?apart⟩, ?delay, ?locked, ?wakes, ?past⟩
  case permits =>
    rw [count_shared _ s' s]
    cases hmove <;> grind [hasPermit, rejoin_some, rejoin_none, count_cons]
  case locked =>
    rw [count_shared _ s' s]
    cases hheld : s.locked <;> cases hhas : p.hasLock <;> cases hmove <;>
      grind [hasLock, rejoin_some, rejoin_none, count_cons]
  case delay => cases hmove <;> apply hdelay
  case past =>
    cases hmove with
    | tick => apply Nat.le_add_right_of_le hpast
    | pass => apply Nat.le_refl
    | _ => apply hpast
  case apart =>
    cases hmove with
    | pass wake hwake =>
      apply hapart.cons_cons
      apply (hwakes wake (Multiset.mem_cons_self _ _)).trans hwake
    | _ => apply hapart
  case wakes =>
    intro wake hmem
    cases hmove with
    | acquire hper =>
      apply hwakes wake
      split_ifs at hmem <;> simpa using hmem
    | lock hfree =>
      obtain heq | hmem := Multiset.mem_cons.mp hmem
      · cases heq
        simp only at hdelay hpast
        dsimp only
        omega
      · apply hwakes wake (Multiset.mem_cons_of_mem hmem)
    | pass =>
      simp only [rejoin_some, Multiset.mem_cons, reduceCtorEq, false_or] at hmem
      have hpos : 0 < count hasLock ⟨s, m⟩ := count_pos hmem rfl
      simp only [hasLock, Bool.toNat_true] at hloc
      omega
    | tick | leave =>
      apply hwakes wake
      simp at hmem
      simp [hmem]

/-- In every run there are at most as many calls as permits, and they are let through one delay
after the other. -/
theorem paced_of_reaches {now : Nat} {pool : Pool ScheduledLlmClient ScheduledCall}
    (hreaches : scheduledSystem.Reaches ⟨new maxConcurrent minDelay now, .clock ::ₘ 0⟩ pool) :
  Paced maxConcurrent minDelay pool
  := by
  apply Sound.toPaced
  apply PoolSystem.invariant _ _ hreaches
  · exact ⟨⟨rfl, .singleton _⟩, rfl, rfl, by simp, Nat.le_refl _⟩
  · rintro s m _ rfl ⟨⟨hperm, hapart⟩, hdelay, hloc, hwakes, hpast⟩
    refine ⟨⟨?_, hapart⟩, hdelay, ?_, ?_, hpast⟩
    · simpa [hasPermit] using hperm
    · simpa [hasLock] using hloc
    · simpa using hwakes
  · intro s m p s' p'
    apply Sound.of_move

/-- A call sleeps for the delay before it is let through. -/
theorem paced_passed :
  ∃ pool, scheduledSystem.Reaches ⟨new 1 5 0, .clock ::ₘ 0⟩ pool ∧ pool.shared.earlier = [0]
    ∧ Paced 1 5 pool
  := by
  have hpermt : scheduledSystem.Reaches ⟨new 1 5 0, .clock ::ₘ 0⟩
      ⟨{ new 1 5 0 with permits := 0 }, .permitted ::ₘ .clock ::ₘ 0⟩ :=
    (Relation.ReflTransGen.single (.start rfl)).tail (.goesOn (.acquire (by decide)))
  have hsleep := hpermt.tail (.goesOn (.lock rfl))
  rw [Multiset.cons_swap] at hsleep
  have hwakes := hsleep.tail (.goesOn (.tick 5))
  rw [Multiset.cons_swap] at hwakes
  have hcalls := hwakes.tail (.goesOn (.pass 5 (by decide)))
  exact ⟨_, hcalls, rfl, paced_of_reaches hcalls⟩

end ScheduledLlmClient
