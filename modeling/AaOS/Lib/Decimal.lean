import AaOS.Lib.Text

/-!
# Decimal numbers in machine words

`parseUnsigned w` reads a decimal number into a word of `w` bits, and fails as soon as an
intermediate result does not fit; on digits it succeeds exactly when the number fits.  `mulWord` is
a product that is checked or wraps around.
-/

namespace Decimal

def digit (c : Char) : Nat := c.toNat - '0'.toNat

/-- The number that decimal digits stand for. -/
def value (digits : Text) : Nat := Nat.ofDigitChars 10 digits 0

section Word

variable (w : Nat)

/-- The result of an operation, if it fits into a word. -/
def checked (n : Nat) : Option Nat := if n < 2 ^ w then some n else none

def appendDigit (n : Nat) (c : Char) : Option Nat :=
  if c.isDigit then (checked w (10 * n)).bind (fun m => checked w (m + digit c)) else none

/-- Read a decimal number, with a plus sign or without one. -/
def parseUnsigned (s : Text) : Option Nat :=
  let digits := (Text.stripPrefix ['+'] s).getD s
  if digits = [] then none else digits.foldlM (appendDigit w) 0

/-- The product of two numbers, which fails where overflow is checked, and otherwise wraps around.
-/
def mulWord (overflowChecks : Bool) (n m : Nat) : Option Nat :=
  if n * m < 2 ^ w then some (n * m)
  else if overflowChecks then none
  else some (n * m % 2 ^ w)

end Word

variable {w : Nat} {digits : Text} {n : Nat} {c : Char}

theorem appendDigit_of_isDigit (hc : c.isDigit = true) :
  appendDigit w n c = checked w (10 * n + digit c)
  := by
  unfold appendDigit checked
  rw [if_pos hc]
  by_cases hfits : 10 * n < 2 ^ w
  · rw [if_pos hfits]
    rfl
  · rw [if_neg hfits, if_neg (by omega)]
    rfl

theorem le_ofDigitChars (digits : Text) (n : Nat) :
  n ≤ Nat.ofDigitChars 10 digits n
  := by
  induction digits generalizing n with
  | nil => exact Nat.le_refl n
  | cons c digits ih =>
    rw [Nat.ofDigitChars_cons]
    apply Nat.le_trans _ (ih _)
    omega

theorem foldlM_appendDigit (hdigit : ∀ c ∈ digits, c.isDigit = true) (hn : n < 2 ^ w) :
  digits.foldlM (appendDigit w) n = checked w (Nat.ofDigitChars 10 digits n)
  := by
  induction digits generalizing n with
  | nil =>
    rw [checked, Nat.ofDigitChars_nil, if_pos hn]
    rfl
  | cons c digits ih =>
    have hstep := appendDigit_of_isDigit (w := w) (n := n) (hdigit c List.mem_cons_self)
    have hle := le_ofDigitChars digits (10 * n + digit c)
    rw [List.foldlM_cons, hstep, Nat.ofDigitChars_cons]
    unfold checked at hstep ⊢
    by_cases hfits : 10 * n + digit c < 2 ^ w
    · rw [if_pos hfits]
      apply ih _ hfits
      intro c' hc'
      apply hdigit c' (List.mem_cons_of_mem c hc')
    · rw [if_neg hfits, if_neg]
      · rfl
      · intro hlt
        apply hfits (Nat.lt_of_le_of_lt hle hlt)

theorem parseUnsigned_eq (hdigit : ∀ c ∈ digits, c.isDigit = true) :
  parseUnsigned w digits
    = if digits = [] ∨ 2 ^ w ≤ value digits then none else some (value digits)
  := by
  have hsign : Text.stripPrefix ['+'] digits = none := by
    cases digits with
    | nil => rfl
    | cons c digits =>
      have hc : c ≠ '+' := by
        rintro rfl
        exact absurd (hdigit '+' List.mem_cons_self) (by decide)
      simp [Text.stripPrefix, Ne.symm hc]
  unfold parseUnsigned
  rw [hsign]
  dsimp only [Option.getD_none]
  rw [foldlM_appendDigit hdigit (Nat.two_pow_pos w), checked, ← value]
  by_cases hnil : digits = []
  · rw [if_pos hnil, if_pos (.inl hnil)]
  · rw [if_neg hnil]
    simp only [hnil, false_or, ← Nat.not_lt, ite_not]

end Decimal
