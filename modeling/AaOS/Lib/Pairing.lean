import Mathlib.Data.List.Basic
import Mathlib.Data.List.TakeWhile

/-!
# Requests and replies in a list

A list, some of whose elements are replies, is paired when every reply comes after a request that
it replies to, with nothing but replies to it in between.  A paired list stays paired when elements
are dropped from its front exactly when the rest does not begin with a reply.
-/

open List

section

variable {α : Type} (IsReply : α → Prop) (RepliesTo : α → α → Prop)

def Paired (l : List α) : Prop :=
  ∀ before reply after, l = before ++ reply :: after → IsReply reply →
    ∃ earlier request between, before = earlier ++ request :: between
      ∧ RepliesTo reply request
      ∧ ∀ x ∈ between, IsReply x ∧ RepliesTo x request

end

namespace Paired

variable {α : Type} {IsReply : α → Prop} {RepliesTo : α → α → Prop} {l l' : List α}

theorem nil : Paired IsReply RepliesTo [] := by
  intro before reply after heq
  cases before <;> cases heq

theorem exchange
    {request : α} {replies : List α} (hreq : ¬ IsReply request)
    (hrep : ∀ x ∈ replies, IsReply x ∧ RepliesTo x request) :
  Paired IsReply RepliesTo (request :: replies)
  := by
  rintro before reply after heq hreply
  rcases before with _ | ⟨first, between⟩
  · cases heq
    contradiction
  · cases heq
    use [], request, between, rfl
    constructor
    · apply (hrep reply _).2
      simp
    · intro x hmem
      apply hrep x
      simp [hmem]

theorem singleton {x : α} (hx : ¬ IsReply x) : Paired IsReply RepliesTo [x] := by
  apply exchange hx
  simp

variable (hpair : Paired IsReply RepliesTo l)

include hpair

theorem not_isReply_head {x : α} (hhead : l.head? = some x) :
  ¬ IsReply x
  := by
  intro hreply
  obtain ⟨rest, rfl⟩ := head?_eq_some_iff.mp hhead
  obtain ⟨earlier, request, between, hnil, -⟩ := hpair [] x rest rfl hreply
  cases earlier <;> cases hnil

theorem append (hpair' : Paired IsReply RepliesTo l') :
  Paired IsReply RepliesTo (l ++ l')
  := by
  intro before reply after heq hreply
  obtain ⟨before', rfl, rfl⟩ | ⟨middle, rfl, hrest⟩ := append_eq_append_iff.mp heq
  · obtain ⟨earlier, request, between, rfl, hrep⟩ := hpair' before' reply after rfl hreply
    use l ++ earlier, request, between, by simp
  · rcases middle with _ | ⟨first, middle⟩
    · cases hpair'.not_isReply_head (congrArg head? hrest).symm hreply
    · cases hrest
      apply hpair before reply middle rfl hreply

theorem take (n : Nat) :
  Paired IsReply RepliesTo (l.take n)
  := by
  intro before reply after heq hreply
  apply hpair before reply (after ++ l.drop n) _ hreply
  calc
    l = l.take n ++ l.drop n := (take_append_drop n l).symm
    _ = (before ++ reply :: after) ++ l.drop n := by rw [heq]
    _ = before ++ reply :: (after ++ l.drop n) := by simp

theorem drop {n : Nat} (hhead : ∀ x, (l.drop n).head? = some x → ¬ IsReply x) :
  Paired IsReply RepliesTo (l.drop n)
  := by
  intro before reply after heq hreply
  have hl : l = (l.take n ++ before) ++ reply :: after := by
    rw [append_assoc, ← heq, take_append_drop]
  obtain ⟨earlier, request, between, hbef, hto, hbet⟩ := hpair _ _ _ hl hreply
  obtain ⟨earlier', -, rfl⟩ | ⟨middle, -, hmid⟩ := append_eq_append_iff.mp hbef
  · use earlier', request, between, rfl, hto
  · rcases middle with _ | ⟨first, middle⟩
    · use [], request, between, hmid.symm, hto
    · cases hmid
      rcases before with _ | ⟨first, before⟩
      · cases hhead reply (by rw [heq]; rfl) hreply
      · cases hhead first (by rw [heq]; rfl) (hbet first (by simp)).1

theorem drop_iff (n : Nat) :
  Paired IsReply RepliesTo (l.drop n) ↔ ∀ x, (l.drop n).head? = some x → ¬ IsReply x
  := by
  constructor
  · intro hdrop x hhead
    apply hdrop.not_isReply_head hhead
  · apply hpair.drop

theorem dropWhile {p : α → Bool} (hp : ∀ x, p x = true → ∀ reply, ¬ RepliesTo reply x) :
  Paired IsReply RepliesTo (l.dropWhile p)
  := by
  have hdrop : l.drop (l.takeWhile p).length = l.dropWhile p := by
    calc
      l.drop (l.takeWhile p).length
        = (l.takeWhile p ++ l.dropWhile p).drop (l.takeWhile p).length := by
          rw [takeWhile_append_dropWhile]
      _ = l.dropWhile p := drop_left
  rw [← hdrop]
  apply hpair.drop
  intro x hhead hreply
  rw [hdrop] at hhead
  obtain ⟨rest, hrest⟩ := head?_eq_some_iff.mp hhead
  have hl : l = l.takeWhile p ++ x :: rest := by
    rw [← hrest, takeWhile_append_dropWhile]
  obtain ⟨earlier, request, between, hbef, hto, -⟩ := hpair _ _ _ hl hreply
  have hmem : request ∈ l.takeWhile p := by simp [hbef]
  apply hp request (mem_takeWhile_imp hmem) x hto

end Paired
