import AaOS.Core.Canonical
import AaOS.Core.GlobSound

/-!
# When one glob covers another

A pattern is delegated when, read as a path, it is accepted by the pattern it is narrowed
from.  It then accepts, in every file system, only what that pattern accepts exactly when
`GlobCovers` holds; otherwise there is a file system with a request that only the narrowed
pattern accepts.
-/

open List Canonicalizer

open Path LexPath

def acceptsAbsolute (pattern : Text) : Bool :=
  pattern.head? = some '/' || (starred pattern && (patternPath pattern).parts = [])

/-- The granted pattern is `*`; or it accepts the path the requested one names, and ends with a star
when that one does and does not name the root; or the requested one has no star and names a relative
path or the root; or none of its canonical forms is accepted. -/
def GlobCovers (granted requested : Text) : Prop :=
  granted = ['*']
    ∨ (requested ≠ ['*']
      ∧ globMatchesCanonical granted (patternPath requested).text = true
      ∧ (starred requested = true → starred granted = true
        ∨ (patternPath requested).text = ['/']))
    ∨ (starred requested = false
      ∧ ((patternPath requested).absolute = false ∨ (patternPath requested).text = ['/']))
    ∨ (acceptsAbsolute granted = false
      ∧ globMatchesCanonical granted (normalizePath requested) = false)

instance (granted requested : Text) : Decidable (GlobCovers granted requested) :=
  inferInstanceAs (Decidable (_ ∨ _))

/-- Whenever `requested`, read as a path, is accepted by `granted`, so are the requests it accepts.
-/
def GlobNarrows (canonicalize : Text → Option Text) (granted requested : Text) : Prop :=
  globMatches canonicalize granted requested = true →
    ∀ s, globMatches canonicalize requested s = true → globMatches canonicalize granted s = true

/-! ### Absolute paths a pattern accepts -/

theorem acceptsAbsolute_star :
  acceptsAbsolute ['*'] = true
  := by
  decide

variable {pattern : Text}

theorem globMatchesCanonical_of_not_acceptsAbsolute (h : acceptsAbsolute pattern = false)
    {y : LexPath} (hy : y.absolute = true) :
  globMatchesCanonical pattern y.text = false
  := by
  have hstar : pattern ≠ ['*'] := by
    rintro rfl
    rw [acceptsAbsolute_star] at h
    cases h
  simp only [acceptsAbsolute, Bool.or_eq_false_iff, decide_eq_false_iff_not,
    Bool.and_eq_false_iff] at h
  apply not_globMatchesCanonical_of_relative hstar h.1 h.2 hy

theorem globMatchesCanonical_patternPath (pattern : Text) :
  globMatchesCanonical pattern (patternPath pattern).text = true
  := by
  by_cases hstar : pattern = ['*']
  · rw [hstar]
    apply globMatchesCanonical_star
  · cases hs : starred pattern with
    | false => rw [globMatchesCanonical_of_not_starred hs]
    | true =>
      rw [globMatchesCanonical_of_starred hstar hs]
      apply Extends.refl

theorem exists_of_acceptsAbsolute (h : acceptsAbsolute pattern = true) :
  ∃ y : LexPath, y.absolute = true ∧ globMatchesCanonical pattern y.text = true
  := by
  by_cases hstar : pattern = ['*']
  · use ⟨true, [], by simp⟩, rfl
    rw [hstar]
    apply globMatchesCanonical_star
  · by_cases habs : pattern.head? = some '/'
    · use patternPath pattern, (patternPath_absolute hstar).mpr habs
      apply globMatchesCanonical_patternPath
    · have hempty : starred pattern = true ∧ (patternPath pattern).parts = [] := by
        simpa [acceptsAbsolute, habs] using h
      use ⟨true, [], by simp⟩, rfl
      rw [globMatchesCanonical_of_starred hstar hempty.1, extends_text_iff]
      right
      rw [← patternPath_absolute hstar, Bool.not_eq_true] at habs
      use habs, hempty.2

theorem globMatchesCanonical_relative (hstar : pattern ≠ ['*']) (h : acceptsAbsolute pattern = true)
    {y : LexPath} (hy : y.absolute = false) (hne : y.parts ≠ []) :
  globMatchesCanonical pattern y.text = false
  := by
  rw [Bool.eq_false_iff]
  intro hacc
  by_cases habs : pattern.head? = some '/'
  · have hpath := (patternPath_absolute hstar).mpr habs
    cases hs : starred pattern with
    | false =>
      rw [globMatchesCanonical_of_not_starred hs] at hacc
      rw [text_injective hacc, hpath] at hy
      cases hy
    | true =>
      rw [globMatchesCanonical_of_starred hstar hs, extends_text_iff] at hacc
      simp [hpath, hy] at hacc
  · obtain ⟨hs, hnil⟩ : starred pattern = true ∧ (patternPath pattern).parts = [] := by
      simpa [acceptsAbsolute, habs] using h
    rw [globMatchesCanonical_of_starred hstar hs, extends_text_iff] at hacc
    obtain ⟨-, -, hempty⟩ | ⟨-, -, hyabs⟩ := hacc
    · exact hne (hempty hnil)
    · simp [hy] at hyabs

/-! ### Covered patterns -/

section Covered

variable (fs : Canonicalizer) {granted requested s : Text}

theorem eq_root_of_extends (h : Extends ['/'] (canonicalForMatch fs.run s)) :
  canonicalForMatch fs.run s = ['/']
  := by
  obtain ⟨y, hy, -⟩ := canonicalForMatch_range fs.canonical s
  have hroot : (mk true [] (by simp)).text = ['/'] := by decide
  rw [← hy, ← hroot, extends_text_iff] at h
  obtain ⟨habs, -, hnil⟩ | ⟨hrel, -⟩ := h
  · rw [← hy, ← hroot]
    congr 1
    apply LexPath.ext habs.symm (hnil rfl)
  · cases hrel

theorem resolve_eq_of_relative {x : LexPath} (hx : x.absolute = false)
    (h : canonicalForMatch fs.run s = x.text) :
  resolve s = x
  := by
  obtain ⟨y, hy, habs | rfl⟩ := canonicalForMatch_range fs.canonical s
  · rw [text_injective (hy.trans h), hx] at habs
    cases habs
  · exact text_injective (hy.trans h)

theorem patternPath_of_not_starred {pattern : Text} (h : starred pattern = false) :
  patternPath pattern = resolve pattern
  := by
  simp [patternPath, h]

theorem globMatches_of_path (hne : requested ≠ ['*'])
    (hpath : globMatchesCanonical granted (patternPath requested).text = true)
    (hstarr : starred requested = true → starred granted = true
      ∨ (patternPath requested).text = ['/'])
    (h : globMatches fs.run requested s = true) :
  globMatches fs.run granted s = true
  := by
  unfold globMatches at h ⊢
  cases hs : starred requested with
  | false =>
    rw [globMatchesCanonical_of_not_starred hs] at h
    rwa [h]
  | true =>
    rw [globMatchesCanonical_of_starred hne hs] at h
    obtain hgrant | hroot := hstarr hs
    · by_cases hstar : granted = ['*']
      · rw [hstar]
        apply globMatchesCanonical_star
      · rw [globMatchesCanonical_of_starred hstar hgrant] at hpath ⊢
        exact hpath.trans h
    · rw [hroot] at h hpath
      rwa [eq_root_of_extends fs h]

theorem canonicalForMatch_eq_of_text (hs : starred requested = false)
    (hpath : (patternPath requested).absolute = false ∨ (patternPath requested).text = ['/'])
    (h : canonicalForMatch fs.run s = (patternPath requested).text) :
  canonicalForMatch fs.run requested = canonicalForMatch fs.run s
  := by
  rw [patternPath_of_not_starred hs] at hpath h
  obtain hrel | hroot := hpath
  · apply canonicalForMatch_congr
    exact (resolve_eq_of_relative fs hrel h).symm
  · rw [hroot] at h
    have hres : resolve requested = resolve ['/'] := by
      rw [← resolve_text (resolve requested), hroot]
    rw [h, canonicalForMatch_congr fs.run hres, canonicalForMatch_root fs h]

theorem globNarrows_of_globCovers (h : GlobCovers granted requested) :
  GlobNarrows fs.run granted requested
  := by
  intro hacc s hs
  obtain rfl | ⟨hne, hpath, hstar⟩ | ⟨huns, hpath⟩ | ⟨habs, hform⟩ := h
  · apply globMatchesCanonical_star
  · exact globMatches_of_path fs hne hpath hstar hs
  · unfold globMatches at hacc hs ⊢
    rw [globMatchesCanonical_of_not_starred huns] at hs
    rwa [← canonicalForMatch_eq_of_text fs huns hpath hs]
  · exfalso
    unfold globMatches at hacc
    obtain ⟨y, hy, hyabs | rfl⟩ := canonicalForMatch_range fs.canonical requested
    · rw [← hy, globMatchesCanonical_of_not_acceptsAbsolute habs hyabs] at hacc
      cases hacc
    · rw [← hy, ← normalizePath_eq_text, hform] at hacc
      cases hacc

end Covered

/-! ### Patterns that are not covered -/

theorem resolve_of_starred (h : starred pattern = true) :
  ∃ parts p, (resolve pattern).parts = parts ++ [p ++ ['*']]
    ∧ (patternPath pattern).parts = push parts p
  := by
  obtain ⟨literal, rfl⟩ := exists_of_starred h
  obtain ⟨parts, p, hlit, hpat, -, hp⟩ := resolve_concat (c := '*') (by decide) literal
  have hstar : IsComponent (p ++ ['*']) := by
    refine ⟨by simp, ?_, ?_, by simp [hp]⟩
    all_goals
      intro heq
      simpa using congrArg getLast? heq
  rw [push_of_isComponent hstar] at hpat
  use parts, p, hpat
  rw [patternPath_append, hlit]

theorem not_prefix_resolve (h : starred pattern = true) :
  ¬ (resolve pattern).parts <+: (patternPath pattern).parts
  := by
  obtain ⟨parts, p, hpat, hpath⟩ := resolve_of_starred h
  rw [hpat, hpath]
  unfold push
  intro hpre
  have hlen := hpre.length_le
  split_ifs at hpre hlen with hempty hdots
  · simp only [length_append, length_singleton] at hlen
    omega
  · simp only [length_append, length_singleton, length_dropLast] at hlen
    omega
  · have heq := hpre.eq_of_length (by simp)
    simp at heq

theorem not_prefix_resolve_child (h : starred pattern = true) {z : Text}
    (hz : z.getLast? ≠ some '*') :
  ¬ (resolve pattern).parts <+: (patternPath pattern).parts ++ [z]
  := by
  intro hpre
  obtain heq | hpre := prefix_concat_iff.mp hpre
  · obtain ⟨parts, p, hpat, -⟩ := resolve_of_starred h
    rw [hpat] at heq
    have hlast : p ++ ['*'] = z := by simpa using append_inj_right' heq rfl
    apply hz
    rw [← hlast]
    simp
  · exact not_prefix_resolve h hpre

namespace Canonicalizer

section Redirect

variable {n a q b : LexPath} {ha : a.absolute = true} {hb : b.absolute = true} {hn : b ≠ n}

theorem redirect_first :
  (redirect n a q b ha hb hn).run n.text = some a.text
  := by
  simp [redirect]

theorem redirect_second (hqn : q ≠ n) (hqa : q ≠ a) :
  (redirect n a q b ha hb hn).run q.text = some b.text
  := by
  simp [redirect, text_injective.eq_iff, hqn, hqa]

theorem redirect_none {x : LexPath} (hxn : x ≠ n) (hxa : x ≠ a) (hxq : x ≠ q) (hxb : x ≠ b) :
  (redirect n a q b ha hb hn).run x.text = none
  := by
  simp [redirect, text_injective.eq_iff, hxn, hxa, hxq, hxb]

theorem canonicalForMatch_redirect (hqn : n.text.length < q.text.length)
    (hqa : a.text.length < q.text.length) (hqb : b.text.length < q.text.length) {t : Text}
    (ht : IsComponent t) :
  canonicalForMatch (redirect n a q b ha hb hn).run (q.child t ht).text = (b.child t ht).text
  := by
  have hne : ∀ {x y : LexPath}, y.text.length < x.text.length → x ≠ y := by
    rintro x y hlt rfl
    exact lt_irrefl _ hlt
  have hchild := q.length_lt_child t ht
  apply canonicalForMatch_child
  · apply redirect_none (hne (hqn.trans hchild)) (hne (hqa.trans hchild)) (hne hchild)
      (hne (hqb.trans hchild))
  · apply redirect_second (hne hqn) (hne hqa)

end Redirect

/-- The canonicalisation that sends `n` and `a` to `a`. -/
def point (n a : LexPath) (ha : a.absolute = true) (hn : a ≠ n) : Canonicalizer :=
  redirect n a a a ha ha hn

theorem canonicalForMatch_point {n a x : LexPath} (ha : a.absolute = true) (hn : a ≠ n)
    (h : x.absolute = n.absolute → ¬ n.parts <+: x.parts) :
  canonicalForMatch (point n a ha hn).run x.text = x.text
  := by
  apply canonicalForMatch_self
  intro ps hps
  have hwf : ∀ p ∈ ps, IsComponent p := by
    intro p hp
    apply x.wf p (hps.subset hp)
  obtain ⟨y, hy⟩ : ∃ y : LexPath, y = ⟨x.absolute, ps, hwf⟩ := by simp
  have htext : render x.absolute ps = y.text := by
    rw [hy]
    rfl
  have hyn : y ≠ n := by
    rintro rfl
    exact h (by rw [hy]) (by rwa [hy])
  rw [htext]
  by_cases hya : y = a
  · right
    simp [point, redirect, hya]
  · left
    exact redirect_none hyn hya hya hya

end Canonicalizer

section NotCovered

variable {granted requested : Text}

theorem not_globNarrows_empty (h : ¬ GlobCovers granted requested)
    (hacc : globMatchesCanonical granted (normalizePath requested) = true) :
  ¬ GlobNarrows empty.run granted requested
  := by
  intro hnar
  simp only [GlobNarrows, globMatches, canonicalForMatch_empty] at hnar
  rw [normalizePath_eq_text] at hacc
  have hwiden := hnar hacc
  simp only [GlobCovers, not_or, not_and] at h
  obtain ⟨hgrant, hpath, -, -⟩ := h
  by_cases hreq : requested = ['*']
  · cases habs : acceptsAbsolute granted with
    | true =>
      rw [hreq, globMatchesCanonical_relative hgrant habs (by decide) (by decide)] at hacc
      cases hacc
    | false =>
      have hroot := hwiden ['/'] (by rw [hreq]; apply globMatchesCanonical_star)
      rw [globMatchesCanonical_of_not_acceptsAbsolute habs (by decide)] at hroot
      cases hroot
  · have hnamed : globMatchesCanonical granted (patternPath requested).text = true := by
      have hself := hwiden (patternPath requested).text
      rw [resolve_text] at hself
      exact hself (globMatchesCanonical_patternPath requested)
    apply hpath hreq hnamed
    intro hs
    left
    by_contra huns
    rw [Bool.not_eq_true] at huns
    rw [globMatchesCanonical_of_not_starred huns] at hnamed hacc
    apply not_prefix_resolve hs
    simp [text_injective (hacc.trans hnamed.symm)]

theorem not_globNarrows_point (h : ¬ GlobCovers granted requested)
    (hs : starred requested = true) {a : LexPath} (ha : a.absolute = true)
    (hacc : globMatchesCanonical granted a.text = true) (hn : a ≠ resolve requested) :
  ¬ GlobNarrows (point (resolve requested) a ha hn).run granted requested
  := by
  intro hnar
  have hform : canonicalForMatch (point (resolve requested) a ha hn).run requested
      = a.text := canonicalForMatch_of_some redirect_first
  have hwiden := hnar (by rwa [globMatches, hform])
  simp only [GlobCovers, not_or, not_and] at h
  obtain ⟨hgrant, hpath, -, -⟩ := h
  have habs : acceptsAbsolute granted = true := by
    by_contra hnot
    rw [Bool.not_eq_true] at hnot
    rw [globMatchesCanonical_of_not_acceptsAbsolute hnot ha] at hacc
    cases hacc
  have hself : ∀ x : LexPath, ¬ (resolve requested).parts <+: x.parts →
      globMatchesCanonical requested x.text = true →
      globMatchesCanonical granted x.text = true := by
    intro x hx hreq
    have hx' := hwiden x.text
    rw [globMatches, globMatches, canonicalForMatch_point ha hn (fun _ => hx)] at hx'
    exact hx' hreq
  have hz : IsComponent ['z'] := by
    refine ⟨by decide, by decide, by decide, by decide⟩
  by_cases hreq : requested = ['*']
  · have hstar : (resolve ['*']).parts = [['*']] := by decide
    have hrel := hself ⟨false, [['z']], by simpa using hz⟩ (by simp [hreq, hstar])
      (by rw [hreq]; apply globMatchesCanonical_star)
    rw [globMatchesCanonical_relative hgrant habs rfl (by simp)] at hrel
    cases hrel
  · have hnamed : globMatchesCanonical granted (patternPath requested).text = true :=
      hself _ (not_prefix_resolve hs) (globMatchesCanonical_patternPath requested)
    apply hpath hreq hnamed
    intro _
    by_contra hnot
    push Not at hnot
    obtain ⟨huns, hroot⟩ := hnot
    rw [Ne, Bool.not_eq_true] at huns
    have hnamed' := hnamed
    rw [globMatchesCanonical_of_not_starred huns] at hnamed' hacc
    have hbase : a = patternPath requested := text_injective (hacc.trans hnamed'.symm)
    have hne : (patternPath requested).parts ≠ [] := by
      intro hnil
      apply hroot
      rw [text_of_absolute (hbase ▸ ha), hnil, join_nil]
    have hbelow : globMatchesCanonical requested
        ((patternPath requested).child ['z'] hz).text = true := by
      rw [globMatchesCanonical_of_starred hreq hs, extends_text_iff]
      left
      simp [child, hne]
    have hchild := hself _ (not_prefix_resolve_child hs (by decide)) hbelow
    rw [globMatchesCanonical_of_not_starred huns, ← hnamed'] at hchild
    have hlen := congrArg (fun x => x.parts.length) (text_injective hchild)
    simp [child] at hlen

theorem not_globNarrows_redirect (hs : starred requested = false)
    (hnot : globMatchesCanonical granted (normalizePath requested) = false)
    (habs : (resolve requested).absolute = true) (hne : (resolve requested).parts ≠ [])
    {a : LexPath} (ha : a.absolute = true) (hacc : globMatchesCanonical granted a.text = true) :
  ∃ fs : Canonicalizer, ¬ GlobNarrows fs.run granted requested
  := by
  rw [normalizePath_eq_text] at hnot
  obtain ⟨b, t, ht, hchild⟩ := exists_child hne
  rw [← hchild] at habs hnot
  have hbn : b ≠ b.child t ht := by
    intro heq
    have hlen := b.length_lt_child t ht
    rw [← heq] at hlen
    omega
  obtain ⟨q, -, hq⟩ := exists_longer
    ((b.child t ht).text.length + a.text.length + b.text.length)
  use redirect (b.child t ht) a q b ha habs hbn
  intro hnar
  have hform : canonicalForMatch (redirect (b.child t ht) a q b ha habs hbn).run
      requested = a.text := by
    apply canonicalForMatch_of_some
    rw [← hchild]
    exact redirect_first
  have hlink : canonicalForMatch (redirect (b.child t ht) a q b ha habs hbn).run
      (q.child t ht).text = (b.child t ht).text := by
    apply canonicalForMatch_redirect <;> omega
  have hwiden := hnar (by rwa [globMatches, hform]) (q.child t ht).text
  rw [globMatches, globMatches, hlink, hnot, globMatchesCanonical_of_not_starred hs,
    patternPath_of_not_starred hs, hchild] at hwiden
  cases hwiden rfl

end NotCovered

theorem globNarrows_iff_globCovers (granted requested : Text) :
  (∀ fs : Canonicalizer, GlobNarrows fs.run granted requested)
    ↔ GlobCovers granted requested
  := by
  constructor
  · intro h
    by_contra hcover
    cases hform : globMatchesCanonical granted (normalizePath requested) with
    | true => exact not_globNarrows_empty hcover hform (h _)
    | false =>
      have hnot := hcover
      simp only [GlobCovers, not_or, not_and, hform] at hnot
      obtain ⟨-, -, huns, habs⟩ := hnot
      obtain ⟨a, ha, hacc⟩ := exists_of_acceptsAbsolute (by simpa using habs)
      cases hs : starred requested with
      | true =>
        have hn : a ≠ resolve requested := by
          rintro rfl
          rw [← normalizePath_eq_text, hform] at hacc
          cases hacc
        exact not_globNarrows_point hcover hs ha hacc hn (h _)
      | false =>
        obtain ⟨hpath, hroot⟩ := huns hs
        rw [patternPath_of_not_starred hs] at hpath hroot
        rw [Bool.not_eq_false] at hpath
        have hne : (resolve requested).parts ≠ [] := by
          intro hnil
          apply hroot
          rw [text_of_absolute hpath, hnil, join_nil]
        obtain ⟨fs, hfs⟩ := not_globNarrows_redirect hs hform hpath hne ha hacc
        exact hfs (h fs)
  · intro h fs
    exact globNarrows_of_globCovers fs h
