import Mathlib.Data.List.Nodup
import Mathlib.Data.List.Perm.Basic
import AaOS.Lib.History

/-!
# Service by priority

Items arrive and wait.  A server takes a waiting item before which no other waiting item comes,
holds it for a while, and serves it.  Every item is served once at most, and is overtaken at most
once: by the item that was in hand when it arrived.
-/

open List

namespace Service

variable {α : Type}

/-- What happens to items. -/
inductive Event (α : Type) where
  | arrived (a : α)
  | served (a : α)

def arrivals (log : List (Event α)) : List α :=
  log.filterMap fun
    | .arrived a => some a
    | .served _ => none

/-- The items that have been served. -/
def services (log : List (Event α)) : List α :=
  log.filterMap fun
    | .arrived _ => none
    | .served a => some a

/-- The items that wait, the one in hand, and what has happened. -/
structure Queue (α : Type) where
  waiting : List α
  hand : Option α
  log : List (Event α)

/-- An item arrives, is taken, or is served. -/
inductive Step (before : α → α → Bool) : Queue α → Queue α → Prop
  | arrive {q : Queue α} {a} (hnew : .arrived a ∉ q.log) :
      Step before q { q with waiting := q.waiting ++ [a], log := q.log ++ [.arrived a] }
  | take {q : Queue α} {i a} (hhand : q.hand = none) (ha : q.waiting[i]? = some a)
      (hfirst : ∀ b ∈ q.waiting, before b a = false) :
      Step before q { q with waiting := q.waiting.eraseIdx i, hand := some a }
  | serve {q : Queue α} {a} (hhand : q.hand = some a) :
      Step before q { q with hand := none, log := q.log ++ [.served a] }

/-- Every item is served once at most, and while it waits at most one item is served that comes
after it. -/
structure Fair (before : α → α → Bool) (log : List (Event α)) : Prop where
  once : (services log).Nodup
  overtaken : ∀ earlier a during later, log = earlier ++ .arrived a :: (during ++ later) →
    .served a ∉ during → (services during).countP (before a) ≤ 1

/-- Every item is in one place, and the one in hand counts as served before an item that waits. -/
structure Sound (before : α → α → Bool) (q : Queue α) : Prop where
  distinct : (arrivals q.log).Nodup
  placed : (arrivals q.log).Perm (services q.log ++ (q.hand.toList ++ q.waiting))
  ordered : ∀ earlier a later, q.log = earlier ++ .served a :: later → .arrived a ∈ earlier
  pending : ∀ earlier a during, q.log = earlier ++ .arrived a :: during → .served a ∉ during →
    (services during).countP (before a) + q.hand.toList.countP (before a) ≤ 1
  overtaken : ∀ earlier a during later, q.log = earlier ++ .arrived a :: (during ++ later) →
    .served a ∉ during → (services during).countP (before a) ≤ 1

section Logs

variable (log more : List (Event α)) (a : α)

@[simp]
theorem arrivals_append : arrivals (log ++ more) = arrivals log ++ arrivals more :=
  filterMap_append

@[simp]
theorem services_append : services (log ++ more) = services log ++ services more :=
  filterMap_append

@[simp]
theorem arrivals_arrived : arrivals (.arrived a :: log) = a :: arrivals log := rfl

@[simp]
theorem services_arrived : services (.arrived a :: log) = services log := rfl

@[simp]
theorem arrivals_served : arrivals (.served a :: log) = arrivals log := rfl

@[simp]
theorem services_served : services (.served a :: log) = a :: services log := rfl

@[simp]
theorem arrivals_nil : arrivals ([] : List (Event α)) = [] := rfl

@[simp]
theorem services_nil : services ([] : List (Event α)) = [] := rfl

variable {log a}

theorem mem_arrivals : a ∈ arrivals log ↔ .arrived a ∈ log := by
  apply mem_filterMap_of_iff
  rintro (b | b) <;> simp

theorem mem_services : a ∈ services log ↔ .served a ∈ log := by
  apply mem_filterMap_of_iff
  rintro (b | b) <;> simp

end Logs

variable {before : α → α → Bool} {q q' : Queue α}

theorem Sound.fair (hsound : Sound before q) : Fair before q.log := by
  constructor
  case once =>
    have hnodup := hsound.placed.nodup_iff.mp hsound.distinct
    apply hnodup.of_append_left
  case overtaken => apply hsound.overtaken

theorem sound_empty : Sound before ⟨[], none, []⟩ := by
  constructor
  case distinct => apply nodup_nil
  case placed => apply List.Perm.refl
  all_goals
    intros
    simp_all

variable {a : α}

theorem Sound.not_mem_services (hsound : Sound before q) {earlier during : List (Event α)}
    (hlog : q.log = earlier ++ .arrived a :: during) (hdur : .served a ∉ during) :
  a ∉ services q.log
  := by
  intro hmem
  rw [mem_services, hlog] at hmem
  obtain hmem | hmem := mem_append.mp hmem
  · obtain ⟨first, second, rfl⟩ := append_of_mem hmem
    have hord := hsound.ordered first a (second ++ .arrived a :: during) (by simp [hlog])
    have hdis := hsound.distinct
    rw [hlog] at hdis
    simp only [arrivals_append, arrivals_served, arrivals_arrived, append_assoc] at hdis
    apply disjoint_of_nodup_append hdis (mem_arrivals.mpr hord)
    simp
  · obtain heq | hmem := mem_cons.mp hmem
    · cases heq
    · apply hdur hmem

theorem Sound.mem_of_arrived (hsound : Sound before q) {earlier during : List (Event α)}
    (hlog : q.log = earlier ++ .arrived a :: during) (hdur : .served a ∉ during) :
  a ∈ q.hand.toList ++ q.waiting
  := by
  have hmem : a ∈ arrivals q.log := by
    rw [mem_arrivals, hlog]
    simp
  obtain hserv | hmem := mem_append.mp (hsound.placed.mem_iff.mp hmem)
  · cases hsound.not_mem_services hlog hdur hserv
  · apply hmem

/-- The bound for a log with one more event follows from that for the items that are still
there. -/
theorem overtaken_concat {log : List (Event α)} {event : Event α}
    (hover : ∀ earlier a during later, log = earlier ++ .arrived a :: (during ++ later) →
      .served a ∉ during → (services during).countP (before a) ≤ 1)
    (hpend : ∀ earlier a during, log ++ [event] = earlier ++ .arrived a :: during →
      .served a ∉ during → (services during).countP (before a) ≤ 1) :
  ∀ earlier a during later, log ++ [event] = earlier ++ .arrived a :: (during ++ later) →
    .served a ∉ during → (services during).countP (before a) ≤ 1
  := by
  intro earlier a during later hlog hdur
  obtain rfl | ⟨later', last, rfl⟩ := eq_nil_or_concat later
  · rw [append_nil] at hlog
    apply hpend earlier a during hlog hdur
  · rw [concat_eq_append, ← append_assoc, ← cons_append, ← append_assoc] at hlog
    obtain ⟨hlog, -⟩ := append_inj' hlog rfl
    apply hover earlier a during later' hlog hdur

theorem countP_toList_le (p : α → Bool) (a : Option α) : a.toList.countP p ≤ 1 := by
  cases a with
  | none => apply Nat.zero_le
  | some a => apply countP_le_length

variable (hsound : Sound before q)

include hsound

theorem Sound.arrive (hnew : .arrived a ∉ q.log) :
  Sound before { q with waiting := q.waiting ++ [a], log := q.log ++ [.arrived a] }
  := by
  have hpend : ∀ earlier b during, q.log ++ [.arrived a] = earlier ++ .arrived b :: during →
      .served b ∉ during →
        (services during).countP (before b) + q.hand.toList.countP (before b) ≤ 1 := by
    intro earlier b during hlog hdur
    obtain ⟨-, -, rfl⟩ | ⟨during', rfl, hlog'⟩ := concat_eq_append_cons hlog
    · rw [services_nil, countP_nil, Nat.zero_add]
      apply countP_toList_le
    · rw [services_append, services_arrived, services_nil, append_nil]
      apply hsound.pending earlier b during' hlog'
      intro hmem
      apply hdur (mem_append_left _ hmem)
  constructor
  case distinct =>
    rw [arrivals_append]
    apply nodup_append.mpr
    refine ⟨hsound.distinct, nodup_singleton a, ?_⟩
    rintro b hb c hc rfl
    cases mem_singleton.mp hc
    apply hnew (mem_arrivals.mp hb)
  case placed =>
    simp only [arrivals_append, arrivals_arrived, arrivals_nil, services_append, services_arrived,
      services_nil, append_nil]
    rw [← append_assoc, ← append_assoc]
    apply List.Perm.append_right
    rw [append_assoc]
    apply hsound.placed
  case ordered =>
    intro earlier b later hlog
    obtain ⟨-, heq, -⟩ | ⟨later', -, hlog'⟩ := concat_eq_append_cons hlog
    · cases heq
    · apply hsound.ordered earlier b later' hlog'
  case pending => apply hpend
  case overtaken =>
    apply overtaken_concat hsound.overtaken
    intro earlier b during hlog hdur
    apply Nat.le_of_add_right_le (hpend earlier b during hlog hdur)

/-- No item that waits comes before the one that is taken. -/
theorem Sound.take {i : Nat} (hhand : q.hand = none) (ha : q.waiting[i]? = some a)
    (hfirst : ∀ b ∈ q.waiting, before b a = false) :
  Sound before { q with waiting := q.waiting.eraseIdx i, hand := some a }
  := by
  constructor
  case distinct => apply hsound.distinct
  case placed =>
    have hplace := hsound.placed
    rw [hhand] at hplace
    obtain ⟨hlt, rfl⟩ := List.getElem?_eq_some_iff.mp ha
    apply hplace.trans
    apply List.Perm.append_left
    apply (getElem_cons_eraseIdx_perm hlt).symm
  case ordered => apply hsound.ordered
  case pending =>
    intro earlier b during hlog hdur
    have hpend := hsound.pending earlier b during hlog hdur
    have hmem := hsound.mem_of_arrived hlog hdur
    rw [hhand] at hpend hmem
    have hnot : before b a = false := hfirst b hmem
    simpa [hnot] using hpend
  case overtaken => apply hsound.overtaken

theorem Sound.serve (hhand : q.hand = some a) :
  Sound before { q with hand := none, log := q.log ++ [.served a] }
  := by
  have hpend : ∀ earlier b during, q.log ++ [.served a] = earlier ++ .arrived b :: during →
      .served b ∉ during → (services during).countP (before b) ≤ 1 := by
    intro earlier b during hlog hdur
    obtain ⟨-, heq, -⟩ | ⟨during', rfl, hlog'⟩ := concat_eq_append_cons hlog
    · cases heq
    · have hpend := hsound.pending earlier b during' hlog'
      rw [hhand] at hpend
      rw [services_append, countP_append]
      apply hpend
      intro hmem
      apply hdur (mem_append_left _ hmem)
  constructor
  case distinct =>
    rw [arrivals_append, arrivals_served, arrivals_nil, append_nil]
    apply hsound.distinct
  case placed =>
    have hplace := hsound.placed
    rw [hhand] at hplace
    simp only [arrivals_append, arrivals_served, arrivals_nil, services_append, services_served,
      services_nil, append_nil, append_assoc]
    apply hplace
  case ordered =>
    intro earlier b later hlog
    obtain ⟨rfl, heq, -⟩ | ⟨later', -, hlog'⟩ := concat_eq_append_cons hlog
    · cases heq
      apply mem_arrivals.mp
      apply hsound.placed.mem_iff.mpr
      simp [hhand]
    · apply hsound.ordered earlier b later' hlog'
  case pending =>
    intro earlier b during hlog hdur
    apply hpend earlier b during hlog hdur
  case overtaken => apply overtaken_concat hsound.overtaken hpend

/-- Every step keeps service fair. -/
theorem Sound.step (hstep : Step before q q') : Sound before q' := by
  cases hstep with
  | arrive hnew => apply hsound.arrive hnew
  | take hhand ha hfirst => apply hsound.take hhand ha hfirst
  | serve hhand => apply hsound.serve hhand

end Service
