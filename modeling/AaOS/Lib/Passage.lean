import Mathlib.Data.Multiset.UnionInter
import Mathlib.Data.List.Nodup

/-!
# Names that are issued once and settle once

Names are issued one after the other, each of them new.  A name that has been issued may
be under way, or have settled; it settles at most once, and then it is no longer under
way.
-/

open Multiset

structure Passage {κ : Type} (issued : List κ) (underWay : Multiset κ) (settled : List κ) :
    Prop where
  nodup_issued : issued.Nodup
  nodup : (underWay + (settled : Multiset κ)).Nodup
  mem_issued : ∀ k ∈ underWay + (settled : Multiset κ), k ∈ issued

namespace Passage

variable {κ : Type} {issued settled : List κ} {underWay : Multiset κ} {k : κ}

theorem nil : Passage ([] : List κ) 0 [] where
  nodup_issued := List.nodup_nil
  nodup := by simp
  mem_issued := by simp

theorem issue (hpass : Passage issued underWay settled) (hfresh : k ∉ issued) :
  Passage (issued ++ [k]) (k ::ₘ underWay) settled
  := by
  constructor
  · simp only [List.nodup_append, List.nodup_singleton, List.mem_singleton]
    refine ⟨hpass.nodup_issued, trivial, ?_⟩
    rintro a ha _ rfl rfl
    apply hfresh ha
  · rw [cons_add, Multiset.nodup_cons]
    refine ⟨fun hmem => ?_, hpass.nodup⟩
    apply hfresh (hpass.mem_issued k hmem)
  · intro a ha
    rw [cons_add, Multiset.mem_cons] at ha
    obtain rfl | ha := ha
    · simp
    · simp [hpass.mem_issued a ha]

theorem settle (hpass : Passage issued (k ::ₘ underWay) settled) :
  Passage issued underWay (settled ++ [k])
  := by
  have hsame : underWay + ((settled ++ [k] : List κ) : Multiset κ)
      = k ::ₘ underWay + (settled : Multiset κ) := by
    rw [← coe_add, ← Multiset.add_assoc, coe_singleton, Multiset.add_comm _ {k},
      singleton_add, cons_add]
  constructor
  · apply hpass.nodup_issued
  · rw [hsame]
    apply hpass.nodup
  · rw [hsame]
    apply hpass.mem_issued

variable (hpass : Passage issued underWay settled)

include hpass

theorem mem_issued_of_underWay (hmem : k ∈ underWay) :
  k ∈ issued
  := hpass.mem_issued k (mem_add.mpr (.inl hmem))

theorem mem_issued_of_settled (hmem : k ∈ settled) :
  k ∈ issued
  := hpass.mem_issued k (mem_add.mpr (.inr hmem))

theorem nodup_settled :
  settled.Nodup
  := (nodup_add.mp hpass.nodup).2.1

theorem not_mem_underWay (hmem : k ∈ settled) :
  k ∉ underWay
  := by
  intro hmem'
  apply Multiset.disjoint_left.mp (nodup_add.mp hpass.nodup).2.2 hmem' hmem

end Passage
