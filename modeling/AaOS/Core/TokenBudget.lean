import AaOS.Core.Error
import AaOS.Lib.Decimal

/-!
# Token budgets

`TokenBudget::from_config` of `aaos-core/src/manifest.rs` reads the size of a context window, such
as `128k`.  The product with 1024 panics where overflow is checked and wraps around elsewhere, so
that a huge size is read as a small budget.
-/

open List Text Decimal

structure TokenBudget where
  maxTokens : Nat

namespace TokenBudget

variable (overflowChecks : Bool)

/-- The size that a trimmed text stands for.  There is no result if the thread panics. -/
def parsed (configStr : Text) : Option (Except CoreError Nat) :=
  let invalid := CoreError.invalidManifest
    ("invalid context_window format: '" ++ configStr ++ "'")
  let scaled (literal : Text) : Option (Except CoreError Nat) :=
    match Decimal.parseUnsigned 32 literal with
    | none => some (.error invalid)
    | some n => (Decimal.mulWord 32 overflowChecks n 1024).map .ok
  if let some literal := Text.stripSuffix 'k' configStr then scaled literal
  else if let some literal := Text.stripSuffix 'K' configStr then scaled literal
  else
    match Decimal.parseUnsigned 32 configStr with
    | none => some (.error invalid)
    | some n => some (.ok n)

/-- Read the size of a context window, and cap it.  There is no result if the thread
panics. -/
def fromConfig (configStr : Text) (modelMax : Nat) : Option (Except CoreError TokenBudget) :=
  (parsed overflowChecks (Text.trim configStr)).map
    (fun result => result.map (fun n => ⟨min n modelMax⟩))

/-! ### The sizes that are read -/

/-- The texts that may follow the digits. -/
inductive SizeSuffix where
  | none
  | k
  | K
deriving DecidableEq

/-- The text of a suffix. -/
def SizeSuffix.text : SizeSuffix → Text
  | none => []
  | k => ['k']
  | K => ['K']

/-- What the number before a suffix is multiplied by. -/
def SizeSuffix.factor : SizeSuffix → Nat
  | none => 1
  | k | K => 1024

/-- The text is refused, or read as the size it stands for, capped at the maximum of the
model. -/
def ReadsExactly (digits : Text) (suffix : SizeSuffix) (modelMax : Nat) : Prop :=
  (∃ e, fromConfig overflowChecks (digits ++ suffix.text) modelMax = some (.error e))
    ∨ fromConfig overflowChecks (digits ++ suffix.text) modelMax
      = some (.ok ⟨min (Decimal.value digits * suffix.factor) modelMax⟩)

variable {overflowChecks} {digits : Text}

theorem not_whitespace_of_isDigit {c : Char} (hc : c.isDigit = true) :
  isWhitespace c = false
  := by
  simp only [Char.isDigit, Bool.and_eq_true, decide_eq_true_eq, ge_iff_le,
    UInt32.le_iff_toNat_le] at hc
  have hlow : 48 ≤ c.toNat := hc.1
  have hhigh : c.toNat ≤ 57 := hc.2
  simp only [isWhitespace, Bool.or_eq_false_iff, Bool.and_eq_false_iff, decide_eq_false_iff_not]
  omega

section Digits

variable (hdigits : ∀ c ∈ digits, c.isDigit = true) (suffix : SizeSuffix)

include hdigits

theorem trim_size :
  trim (digits ++ suffix.text) = digits ++ suffix.text
  := by
  have hnot : ∀ c ∈ digits ++ suffix.text, isWhitespace c = false := by
    intro c hc
    obtain hc | hc := mem_append.mp hc
    · apply not_whitespace_of_isDigit (hdigits c hc)
    · cases suffix with
      | none => cases hc
      | k | K =>
        obtain rfl := mem_singleton.mp hc
        decide
  by_cases hne : digits ++ suffix.text = []
  · rw [hne]
    rfl
  · apply trim_eq_self hne
    · apply hnot _ (head_mem hne)
    · apply hnot _ (getLast_mem hne)

theorem stripSuffix_digits {c : Char} (hc : c.isDigit = false) :
  stripSuffix c digits = none
  := by
  rw [stripSuffix, if_neg]
  intro hlast
  rw [hdigits c (mem_of_getLast? hlast)] at hc
  cases hc

theorem parsed_size :
  parsed overflowChecks (digits ++ suffix.text)
    = match parseUnsigned 32 digits with
      | none =>
        some (.error (.invalidManifest
          ("invalid context_window format: '" ++ (digits ++ suffix.text) ++ "'")))
      | some n =>
        if suffix = .none then some (.ok n)
        else (mulWord 32 overflowChecks n 1024).map .ok
  := by
  cases suffix with
  | none =>
    simp [parsed, SizeSuffix.text, stripSuffix_digits hdigits (show 'k'.isDigit = false by decide),
      stripSuffix_digits hdigits (show 'K'.isDigit = false by decide)]
  | k => simp only [parsed, SizeSuffix.text, stripSuffix_append, reduceCtorEq, if_false]
  | K =>
    have hk : stripSuffix 'k' (digits ++ ['K']) = none := by
      simp [stripSuffix]
    simp [parsed, SizeSuffix.text, hk, stripSuffix_append]

theorem exists_fromConfig_eq_error (modelMax : Nat) (href : digits = [] ∨ 2 ^ 32 ≤ value digits) :
  ∃ e, fromConfig overflowChecks (digits ++ suffix.text) modelMax = some (.error e)
  := by
  unfold fromConfig
  rw [trim_size hdigits, parsed_size hdigits, parseUnsigned_eq hdigits, if_pos href]
  exact ⟨_, rfl⟩

theorem fromConfig_eq (modelMax : Nat) (hread : ¬ (digits = [] ∨ 2 ^ 32 ≤ value digits)) :
  fromConfig overflowChecks (digits ++ suffix.text) modelMax
    = if suffix = .none then some (.ok ⟨min (value digits) modelMax⟩)
      else (mulWord 32 overflowChecks (value digits) 1024).map
        (fun n => .ok ⟨min n modelMax⟩)
  := by
  unfold fromConfig
  rw [trim_size hdigits, parsed_size hdigits, parseUnsigned_eq hdigits, if_neg hread]
  dsimp only
  split_ifs
  · rfl
  · rw [Option.map_map]
    rfl

/-- A size is read exactly when it has no suffix, its number is refused, or its number times 1024
fits 32 bits; and, where overflow is not checked, when the wrapped product is still at least the
maximum of the model. -/
theorem readsExactly_iff (modelMax : Nat) :
  ReadsExactly overflowChecks digits suffix modelMax
    ↔ suffix = .none ∨ 2 ^ 32 ≤ Decimal.value digits ∨ Decimal.value digits * 1024 < 2 ^ 32
      ∨ (overflowChecks = false ∧ modelMax ≤ Decimal.value digits * 1024 % 2 ^ 32)
  := by
  unfold ReadsExactly
  by_cases href : digits = [] ∨ 2 ^ 32 ≤ value digits
  · have hcon : 2 ^ 32 ≤ value digits ∨ value digits * 1024 < 2 ^ 32 := by
      obtain rfl | hlarge := href
      · exact .inr (by decide)
      · exact .inl hlarge
    have herror : ∃ e, fromConfig overflowChecks (digits ++ suffix.text) modelMax
        = some (.error e) :=
      exists_fromConfig_eq_error hdigits suffix modelMax href
    tauto
  rw [fromConfig_eq hdigits suffix modelMax href]
  by_cases hnone : suffix = .none
  · simp [hnone, SizeSuffix.factor]
  have hfac : suffix.factor = 1024 := by
    cases suffix with
    | none => exact absurd rfl hnone
    | k => rfl
    | K => rfl
  have hsmall : ¬ 2 ^ 32 ≤ value digits := by
    tauto
  rw [if_neg hnone, hfac, mulWord]
  simp only [Nat.reducePow] at hsmall ⊢
  by_cases hfits : value digits * 1024 < 4294967296
  · simp [hfits]
  · cases overflowChecks with
    | true => simp [hfits, hnone, hsmall]
    | false =>
      have hwraps : min (value digits * 1024 % 4294967296) modelMax
          = min (value digits * 1024) modelMax
          ↔ modelMax ≤ value digits * 1024 % 4294967296 := by
        omega
      simpa [hfits, hnone, hsmall] using hwraps

end Digits

theorem readsExactly_kibi :
  (∀ c ∈ "128".toList, c.isDigit = true) ∧ ReadsExactly true "128".toList .k 200000
  := by
  have hdigits : ∀ c ∈ "128".toList, c.isDigit = true := Text.forall_mem_of_all (by decide)
  refine ⟨hdigits, ?_⟩
  apply (readsExactly_iff hdigits .k 200000).mpr
  decide

/-- The size `4194304k` is read as an empty budget, or panics where overflow is checked. -/
theorem not_readsExactly_wrapped :
  (fromConfig false "4194304k".toList 200000 = some (.ok ⟨0⟩)
      ∧ ¬ ReadsExactly false "4194304".toList .k 200000)
    ∧ fromConfig true "4194304k".toList 200000 = none
    ∧ ¬ ReadsExactly true "4194304".toList .k 200000
  := by
  have hvalue : Decimal.value "4194304" = 4194304 := by
    decide
  have hconf : ∀ overflowChecks,
      fromConfig overflowChecks ("4194304" ++ SizeSuffix.k.text) 200000
        = if overflowChecks then none else some (.ok ⟨0⟩) := by
    intro overflowChecks
    rw [fromConfig_eq (Text.forall_mem_of_all (by decide)) .k 200000 (by rw [hvalue]; decide),
      hvalue]
    cases overflowChecks <;> rfl
  refine ⟨⟨hconf false, ?_⟩, hconf true, ?_⟩
  · unfold ReadsExactly
    rw [hconf false, hvalue]
    simp [SizeSuffix.factor]
  · unfold ReadsExactly
    rw [hconf true]
    simp

end TokenBudget
