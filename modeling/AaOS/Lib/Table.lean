import Mathlib.Algebra.Order.Ring.Nat
import Mathlib.Data.List.AList

/-!
# Finite tables

Tables that associate a value to each of finitely many keys: association lists with
distinct keys, with the operations that act on every entry.  A sweep passes over the
entries and may change each of them; retaining keeps the entries that satisfy a test.
-/

open List AList

abbrev Table (κ ν : Type) : Type := AList (fun _ : κ => ν)

namespace Table

variable {κ ν : Type}

def sweep (f : κ → ν → ν) (t : Table κ ν) : Table κ ν where
  entries := t.entries.map (fun e => ⟨e.1, f e.1 e.2⟩)
  nodupKeys := by
    simpa [List.NodupKeys, List.keys, Function.comp_def] using t.nodupKeys

def retain (test : κ → ν → Bool) (t : Table κ ν) : Table κ ν where
  entries := t.entries.filter (fun e => test e.1 e.2)
  nodupKeys := List.NodupKeys.sublist List.filter_sublist t.nodupKeys

/-- The values that `f` picks from the entries, in their order. -/
def collect {β : Type} (f : κ → ν → Option β) (t : Table κ ν) : List β :=
  t.entries.filterMap (fun e => f e.1 e.2)

variable [DecidableEq κ]

variable {k : κ} {v : ν} {t : Table κ ν}

theorem lookup_eq_some_iff :
  t.lookup k = some v ↔ ⟨k, v⟩ ∈ t.entries
  := mem_lookup_iff

@[simp]
theorem lookup_sweep (f : κ → ν → ν) (t : Table κ ν) (k : κ) :
  (sweep f t).lookup k = (t.lookup k).map (f k)
  := by
  ext v
  rw [Option.map_eq_some_iff, lookup_eq_some_iff]
  simp only [lookup_eq_some_iff, sweep, mem_map]
  constructor
  · rintro ⟨⟨k', w⟩, hmem, heq⟩
    cases heq
    use w
  · rintro ⟨w, hmem, rfl⟩
    use ⟨k, w⟩

@[simp]
theorem lookup_retain (test : κ → ν → Bool) (t : Table κ ν) (k : κ) :
  (retain test t).lookup k = (t.lookup k).filter (test k)
  := by
  ext v
  rw [Option.filter_eq_some_iff, lookup_eq_some_iff, lookup_eq_some_iff]
  simp [retain]

theorem lookup_insert' (k k' : κ) (v : ν) (t : Table κ ν) :
  (insert k v t).lookup k' = if k' = k then some v else t.lookup k'
  := by
  by_cases h : k' = k
  · subst h
    simp
  · rw [lookup_insert_ne h, if_neg h]

variable {w : ν}

theorem lookup_insert_eq_some {k' : κ} (h : (insert k v t).lookup k' = some w) :
  (k' = k ∧ w = v) ∨ (k' ≠ k ∧ t.lookup k' = some w)
  := by
  rw [lookup_insert'] at h
  split_ifs at h with heq
  · cases h
    exact .inl ⟨heq, rfl⟩
  · exact .inr ⟨heq, h⟩

theorem lookup_of_lookup_erase {k' : κ} (h : (erase k t).lookup k' = some w) :
  t.lookup k' = some w
  := by
  by_cases heq : k' = k
  · subst heq
    rw [lookup_erase] at h
    cases h
  · rwa [lookup_erase_ne heq] at h

/-! ### The number of keys -/

theorem length_keys_insert_of_none (hlook : t.lookup k = none) (v : ν) :
  (insert k v t).keys.length = t.keys.length + 1
  := by
  have hmem : k ∉ t.keys := lookup_eq_none.mp hlook
  rw [keys_insert, length_cons, erase_of_not_mem hmem]

theorem length_keys_erase (hlook : t.lookup k = some w) :
  (erase k t).keys.length + 1 = t.keys.length
  := by
  have hmem : k ∈ t.keys := by
    apply lookup_isSome.mp
    simp [hlook]
  rw [keys_erase, length_erase_of_mem hmem]
  apply Nat.sub_add_cancel (length_pos_of_mem hmem)

theorem length_keys_insert_of_some (hlook : t.lookup k = some w) (v : ν) :
  (insert k v t).keys.length = t.keys.length
  := by
  rw [keys_insert, length_cons, ← keys_erase, length_keys_erase hlook]

theorem length_keys_insert_le (k : κ) (v : ν) (t : Table κ ν) :
  (insert k v t).keys.length ≤ t.keys.length + 1
  := by
  cases hlook : t.lookup k with
  | none => rw [length_keys_insert_of_none hlook]
  | some w =>
    rw [length_keys_insert_of_some hlook]
    apply Nat.le_succ

/-! ### Several keys -/

def eraseAll (ks : List κ) (t : Table κ ν) : Table κ ν := ks.foldl (fun t k => AList.erase k t) t

theorem lookup_eraseAll (ks : List κ) (t : Table κ ν) (k : κ) :
  (eraseAll ks t).lookup k = if k ∈ ks then none else t.lookup k
  := by
  induction ks generalizing t with
  | nil => rfl
  | cons k' ks ih =>
    change (eraseAll ks (erase k' t)).lookup k = _
    rw [ih]
    by_cases heq : k = k'
    · subst heq
      simp
    · simp [heq, lookup_erase_ne heq]

theorem length_keys_eraseAll {ks : List κ} (hnodup : ks.Nodup) (hkeys : ∀ k ∈ ks, k ∈ t.keys) :
  (eraseAll ks t).keys.length + ks.length = t.keys.length
  := by
  induction ks generalizing t with
  | nil => rfl
  | cons k ks ih =>
    obtain ⟨hnmem, hnodup⟩ := nodup_cons.mp hnodup
    have hmem : k ∈ t.keys := hkeys k mem_cons_self
    obtain ⟨w, hlook⟩ := Option.isSome_iff_exists.mp (lookup_isSome.mpr hmem)
    have hrest : ∀ k' ∈ ks, k' ∈ (erase k t).keys := by
      intro k' hk'
      apply mem_erase.mpr
      exact ⟨ne_of_mem_of_not_mem hk' hnmem, hkeys k' (mem_cons_of_mem k hk')⟩
    have hlen := ih hnodup hrest
    have herase := length_keys_erase hlook
    rw [length_cons]
    change (eraseAll ks (erase k t)).keys.length + (ks.length + 1) = t.keys.length
    omega

/-! ### Totals -/

/-- The sum of a quantity over the values of a table. -/
def total (f : ν → Nat) (t : Table κ ν) : Nat := (t.entries.map (fun e => f e.2)).sum

theorem sum_kerase {f : ν → Nat} {entries : List (Sigma fun _ : κ => ν)}
    (hlook : entries.dlookup k = some v) :
  ((entries.kerase k).map (fun e => f e.2)).sum + f v = (entries.map (fun e => f e.2)).sum
  := by
  induction entries with
  | nil => cases hlook
  | cons e entries ih =>
    obtain ⟨k', w⟩ := e
    by_cases heq : k = k'
    · subst heq
      rw [dlookup_cons_eq, Option.some.injEq] at hlook
      subst hlook
      simp [Nat.add_comm]
    · rw [dlookup_cons_ne _ _ heq] at hlook
      rw [kerase_cons_ne heq, map_cons, sum_cons, map_cons, sum_cons, Nat.add_assoc, ih hlook]

theorem total_insert_of_lookup {f : ν → Nat} (hlook : t.lookup k = some w) :
  total f (insert k v t) + f w = total f t + f v
  := by
  have hsum := sum_kerase (f := f) hlook
  simp only [total, entries_insert, map_cons, sum_cons]
  omega

theorem total_insert_le (f : ν → Nat) (k : κ) (v : ν) (t : Table κ ν) :
  total f (insert k v t) ≤ total f t + f v
  := by
  cases hlook : t.lookup k with
  | none =>
    rw [total, entries_insert_of_notMem (lookup_eq_none.mp hlook), map_cons, sum_cons, Nat.add_comm]
    rfl
  | some w =>
    have hsum := total_insert_of_lookup (f := f) (v := v) hlook
    omega

end Table
