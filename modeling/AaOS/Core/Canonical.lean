import AaOS.Core.Glob

/-!
# Canonical forms of requested paths

What `canonicalForMatch` returns when the canonicalisation of the file system returns
absolute paths in canonical form and is the identity on them: an absolute path, or the lexical
form of a relative request.  It depends only on the path the request denotes lexically.
-/

open List Option

open Path

/-- A partial canonicalisation, whose results are absolute normal paths, on which it is the
identity. -/
structure Canonicalizer where
  run : Text → Option Text
  canonical : ∀ {p c}, run p = some c → ∃ y : LexPath, y.absolute = true ∧ y.text = c
  idempotent : ∀ {p c}, run p = some c → run c = some c

def ancestorForm (canonicalize : Text → Option Text) (x : LexPath) : Option Text :=
  ancestorLoop canonicalize x.absolute x.parts.reverse []

theorem canonicalForMatch_eq (canonicalize : Text → Option Text) (s : Text) :
  canonicalForMatch canonicalize s
    = (canonicalize (resolve s).text).getD
        ((ancestorForm canonicalize (resolve s)).getD (resolve s).text)
  := by
  rw [canonicalForMatch, normalizePath_eq_text, resolve_text, ancestorForm]
  cases canonicalize (resolve s).text with
  | some c => rfl
  | none =>
    simp only [getD_none]
    cases ancestorLoop canonicalize (resolve s).absolute (resolve s).parts.reverse [] with
    | some c => rfl
    | none => rfl

theorem canonicalForMatch_congr (canonicalize : Text → Option Text) {s t : Text}
    (h : resolve s = resolve t) :
  canonicalForMatch canonicalize s = canonicalForMatch canonicalize t
  := by
  rw [canonicalForMatch_eq, canonicalForMatch_eq, h]

variable {canonicalize : Text → Option Text}

theorem canonicalForMatch_of_some {s c : Text} (h : canonicalize (resolve s).text = some c) :
  canonicalForMatch canonicalize s = c
  := by
  rw [canonicalForMatch_eq, h]
  rfl

/-! ### The loop over the ancestors -/

variable {absolute : Bool}

theorem pushSegment_render {parts : List Text} (h : ∀ p ∈ parts, IsComponent p) (p : Text) :
  pushSegment (render absolute parts) p = render absolute (parts ++ [p])
  := by
  by_cases hnil : parts = []
  · cases absolute with
    | false | true => simp [hnil, render, pushSegment]
  · have hjoin := join_ne_nil h hnil
    have hlast := getLast?_join_ne h
    cases hl : (join parts).getLast? with
    | none => exact absurd (getLast?_eq_none_iff.mp hl) hjoin
    | some c =>
      have hc : c ≠ '/' := by
        rintro rfl
        exact hlast hl
      cases absolute with
      | false => simp [render, pushSegment, hl, hc, join_append hnil]
      | true =>
        simp [render, pushSegment, getLast?_cons_of_ne_nil hjoin, hl, hc, join_append hnil]

theorem foldl_pushSegment_render {tail : List Text} :
  ∀ {parts : List Text}, (∀ p ∈ parts ++ tail, IsComponent p) →
    tail.foldl pushSegment (render absolute parts) = render absolute (parts ++ tail)
  := by
  induction tail with
  | nil => simp
  | cons p tail ih =>
    intro parts h
    rw [foldl_cons, pushSegment_render]
    · rw [ih]
      · simp
      · simpa using h
    · intro q hq
      apply h q (by simp [hq])

theorem ancestorLoop_self :
  ∀ {ancestor tail : List Text}, (∀ p ∈ ancestor.reverse ++ tail, IsComponent p) →
    (∀ ps, ps <+: ancestor.reverse → canonicalize (render absolute ps) = none
      ∨ canonicalize (render absolute ps) = some (render absolute ps)) →
    (ancestorLoop canonicalize absolute ancestor tail).getD
        (render absolute (ancestor.reverse ++ tail))
      = render absolute (ancestor.reverse ++ tail)
  := by
  intro ancestor
  induction ancestor with
  | nil => simp [ancestorLoop]
  | cons name ancestor ih =>
    intro tail hwf h
    simp only [reverse_cons, append_assoc, singleton_append] at hwf h ⊢
    have hpre : ancestor.reverse <+: ancestor.reverse ++ [name] := prefix_append _ _
    obtain hnone | hsome := h _ hpre
    · rw [ancestorLoop, hnone]
      apply ih hwf
      intro ps hps
      apply h ps (hps.trans hpre)
    · rw [ancestorLoop, hsome]
      simp only [getD_some]
      apply foldl_pushSegment_render hwf

theorem canonicalForMatch_self {x : LexPath}
    (h : ∀ ps, ps <+: x.parts → canonicalize (render x.absolute ps) = none
      ∨ canonicalize (render x.absolute ps) = some (render x.absolute ps)) :
  canonicalForMatch canonicalize x.text = x.text
  := by
  rw [canonicalForMatch_eq, resolve_text]
  obtain hnone | hsome := h x.parts (prefix_refl _)
  · rw [LexPath.text, hnone, getD_none, ancestorForm]
    have hself := @ancestorLoop_self canonicalize x.absolute x.parts.reverse []
      (by simpa using x.wf) (by simpa using h)
    simpa using hself
  · rw [LexPath.text, hsome]
    rfl

theorem canonicalForMatch_child {x y : LexPath} {p : Text} (hp : IsComponent p)
    (hnone : canonicalize (x.child p hp).text = none) (hsome : canonicalize x.text = some y.text) :
  canonicalForMatch canonicalize (x.child p hp).text = (y.child p hp).text
  := by
  have hloop : ancestorForm canonicalize (x.child p hp) = some (pushSegment y.text p) := by
    simp only [ancestorForm, LexPath.child, reverse_append, reverse_singleton,
      singleton_append, ancestorLoop, reverse_reverse]
    rw [← LexPath.text, hsome]
    rfl
  rw [canonicalForMatch_eq, resolve_text, hnone, hloop, getD_none, getD_some,
    LexPath.text, pushSegment_render y.wf]
  rfl

/-! ### The range of the forms -/

section Range

variable (hcanonical : ∀ {p c}, canonicalize p = some c →
  ∃ y : LexPath, y.absolute = true ∧ y.text = c)

include hcanonical

theorem ancestorLoop_absolute :
  ∀ {ancestor tail : List Text} {c : Text}, (∀ p ∈ ancestor.reverse ++ tail, IsComponent p) →
    ancestorLoop canonicalize absolute ancestor tail = some c →
    ∃ y : LexPath, y.absolute = true ∧ y.parts ≠ [] ∧ y.text = c
  := by
  intro ancestor
  induction ancestor with
  | nil => simp [ancestorLoop]
  | cons name ancestor ih =>
    intro tail c hwf h
    simp only [reverse_cons, append_assoc, singleton_append] at hwf
    rw [ancestorLoop] at h
    split at h
    · rename_i d hd
      obtain ⟨y, habs, rfl⟩ := hcanonical hd
      have hwf' : ∀ p ∈ y.parts ++ name :: tail, IsComponent p := by
        intro p hp
        obtain hp | hp := mem_append.mp hp
        · exact y.wf p hp
        · exact hwf p (mem_append_right _ hp)
      use ⟨true, y.parts ++ name :: tail, hwf'⟩, rfl
      constructor
      · simp
      · rw [LexPath.text, habs, foldl_pushSegment_render hwf'] at h
        exact some.inj h
    · exact ih hwf h

theorem canonicalForMatch_range (s : Text) :
  ∃ y : LexPath, y.text = canonicalForMatch canonicalize s ∧ (y.absolute = true ∨ y = resolve s)
  := by
  rw [canonicalForMatch_eq]
  cases hc : canonicalize (resolve s).text with
  | some c =>
    obtain ⟨y, habs, rfl⟩ := hcanonical hc
    use y
    simp [habs]
  | none =>
    cases hl : ancestorForm canonicalize (resolve s) with
    | some c =>
      obtain ⟨y, habs, -, rfl⟩ :=
        ancestorLoop_absolute hcanonical (by simpa using (resolve s).wf) hl
      use y
      simp [habs]
    | none =>
      use resolve s
      simp

end Range

theorem canonicalForMatch_root (fs : Canonicalizer) {s : Text}
    (h : canonicalForMatch fs.run s = ['/']) :
  canonicalForMatch fs.run ['/'] = ['/']
  := by
  have hroot : (resolve ['/']).text = ['/'] := by decide
  rw [canonicalForMatch_eq] at h
  cases hc : fs.run (resolve s).text with
  | some c =>
    obtain rfl : c = ['/'] := by simpa [hc] using h
    apply canonicalForMatch_of_some
    rw [hroot]
    exact fs.idempotent hc
  | none =>
    cases hl : ancestorForm fs.run (resolve s) with
    | some c =>
      obtain ⟨y, habs, hne, rfl⟩ :=
        ancestorLoop_absolute fs.canonical (by simpa using (resolve s).wf) hl
      have htext : y.text = ['/'] := by simpa [hc, hl] using h
      rw [LexPath.text_of_absolute habs] at htext
      exact absurd (tail_eq_of_cons_eq htext) (join_ne_nil y.wf hne)
    | none =>
      have htext : (resolve s).text = (resolve ['/']).text := by
        simpa [hc, hl, hroot] using h
      rw [canonicalForMatch_congr fs.run (LexPath.text_injective htext).symm, canonicalForMatch_eq]
      exact h

/-! ### Canonicalisations of finitely many paths -/

/-- The canonicalisation that is nowhere defined. -/
def Canonicalizer.empty : Canonicalizer where
  run _ := none
  canonical := by simp
  idempotent := by simp

/-- The canonicalisation that sends `n` and `a` to `a`, and otherwise `q` and `b` to
`b`. -/
def Canonicalizer.redirect (n a q b : LexPath) (ha : a.absolute = true)
    (hb : b.absolute = true) (hn : b ≠ n) : Canonicalizer where
  run p :=
    if p = n.text ∨ p = a.text then some a.text
    else if p = q.text ∨ p = b.text then some b.text
    else none
  canonical := by
    intro p c h
    split at h
    · use a, ha, Option.some.inj h
    · split at h
      · use b, hb, Option.some.inj h
      · cases h
  idempotent := by
    intro p c h
    split at h
    · obtain rfl := Option.some.inj h
      simp
    · split at h
      · obtain rfl := Option.some.inj h
        have hbn : b.text ≠ n.text := fun heq => hn (LexPath.text_injective heq)
        by_cases hba : b.text = a.text
        · simp [hba]
        · simp [hba, hbn]
      · cases h

theorem Canonicalizer.canonicalForMatch_empty (s : Text) :
  canonicalForMatch Canonicalizer.empty.run s = (resolve s).text
  := by
  have hself : canonicalForMatch Canonicalizer.empty.run (resolve s).text = (resolve s).text := by
    apply canonicalForMatch_self
    intro ps _
    left
    rfl
  rw [← hself]
  apply canonicalForMatch_congr
  simp
