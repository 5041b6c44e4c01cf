import AaOS.Lib.JsonText
import AaOS.Lib.Utf8
import AaOS.Plan.Planner

/-!
# The object in an answer

`extract_json` of `aaos-runtime/src/plan/planner.rs` returns the text from the first brace up to
the brace that closes it, counting the braces in strings like all others.  When there is no object,
the error shows the first 200 bytes of the answer, and the thread panics when a character is cut.
-/

open List Text Option Utf8

open Nesting JsonText

/-! ### What is extracted -/

theorem closeBraces_cons {d : Nat} (hd : 0 < d) (x : Char) (s : Text) :
  closeBraces d (x :: s)
    = if depthAfter '{' '}' d x = 0 then some [x]
      else (closeBraces (depthAfter '{' '}' d x) s).map (x :: ·)
  := by
  rw [closeBraces, depthAfter]
  by_cases hopen : x = '{'
  · simp [if_pos hopen]
  · by_cases hclose : x = '}'
    · simp only [if_neg hopen, if_pos hclose]
    · simp [if_neg hopen, if_neg hclose, Nat.ne_of_gt hd]

theorem closeBraces_eq_some_iff {d : Nat} (hd : 0 < d) {s t : Text} :
  closeBraces d s = some t ↔ t <+: s ∧ Closes '{' '}' d t
  := by
  have hnil : ∀ {d : Nat}, 0 < d → ¬ Closes '{' '}' d ([] : Text) := by
    intro d hd hclose
    have hclos := hclose.closed
    simp only [count_nil] at hclos
    omega
  induction s generalizing d t with
  | nil =>
    simp only [closeBraces, reduceCtorEq, prefix_nil, false_iff, not_and]
    rintro rfl
    apply hnil hd
  | cons x s ih =>
    rw [closeBraces_cons hd]
    cases t with
    | nil =>
      simp only [hnil hd, and_false, iff_false]
      split_ifs <;> simp
    | cons y t =>
      rw [cons_prefix_cons, closes_cons_iff (by decide)]
      by_cases hzero : depthAfter '{' '}' d x = 0
      · rw [if_pos hzero]
        constructor
        · intro heq
          cases heq
          rw [hzero]
          exact ⟨⟨rfl, nil_prefix⟩, hd, closes_zero_iff.mpr rfl⟩
        · rintro ⟨⟨rfl, -⟩, -, hclose⟩
          rw [hzero, closes_zero_iff] at hclose
          rw [hclose]
      · rw [if_neg hzero, map_eq_some_iff]
        constructor
        · rintro ⟨found, hfound, heq⟩
          cases heq
          obtain ⟨hpre, hclose⟩ := (ih (Nat.pos_of_ne_zero hzero)).mp hfound
          exact ⟨⟨rfl, hpre⟩, hd, hclose⟩
        · rintro ⟨⟨rfl, hpre⟩, -, hclose⟩
          exact ⟨t, (ih (Nat.pos_of_ne_zero hzero)).mpr ⟨hpre, hclose⟩, rfl⟩

theorem extractJson_append {before : Text} (hbef : '{' ∉ before) (s : Text) :
  extractJson (before ++ '{' :: s) = (closeBraces 1 s).map ('{' :: ·)
  := by
  have hskip : (before ++ '{' :: s).dropWhile (· ≠ '{') = '{' :: s := by
    rw [dropWhile_append_of_pos]
    · simp
    · intro x hx
      simpa using ne_of_mem_of_not_mem hx hbef
  rw [extractJson, hskip, closeBraces, if_pos rfl]

theorem extractJson_of_not_mem {s : Text} (hs : '{' ∉ s) : extractJson s = none := by
  have hskip : s.dropWhile (· ≠ '{') = [] := by
    apply dropWhile_eq_nil_iff.mpr
    intro x hx
    simpa using ne_of_mem_of_not_mem hx hs
  rw [extractJson, hskip, closeBraces]

theorem extractJson_eq_some {s json : Text} (hext : extractJson s = some json) :
  ∃ before after, s = before ++ json ++ after ∧ '{' ∉ before
    ∧ ∃ inner, json = '{' :: inner ∧ Closes '{' '}' 1 inner
  := by
  by_cases hmem : '{' ∈ s
  · obtain ⟨before, rest, rfl, hbef⟩ := eq_append_cons_of_mem hmem
    rw [extractJson_append hbef] at hext
    obtain ⟨inner, hinner, rfl⟩ := map_eq_some_iff.mp hext
    obtain ⟨⟨after, rfl⟩, hclose⟩ := (closeBraces_eq_some_iff Nat.one_pos).mp hinner
    exact ⟨before, after, by simp, hbef, inner, rfl, hclose⟩
  · rw [extractJson_of_not_mem hmem] at hext
    cases hext

/-! ### Objects -/

/-- The object in an answer is extracted exactly when its braces, also those in strings, close it at
its end only, whatever follows; and so it is without braces in strings. -/
theorem extractJson_object_iff {object before : Text} (hobject : IsObject object)
    (hbefore : '{' ∉ before) (after : Text) :
  (extractJson (before ++ object ++ after) = some object ↔ Enclosed '{' '}' object)
    ∧ (Derives BraceFree .object object → Enclosed '{' '}' object)
  := by
  constructor
  · obtain ⟨inner, rfl⟩ := hobject.exists_object_eq
    rw [enclosed_cons_iff (by decide), List.append_assoc, List.cons_append,
      extractJson_append hbefore, Option.map_eq_some_iff]
    constructor
    · rintro ⟨found, hfound, heq⟩
      cases heq
      apply ((closeBraces_eq_some_iff Nat.one_pos).mp hfound).2
    · intro hclose
      refine ⟨_, (closeBraces_eq_some_iff Nat.one_pos).mpr ⟨?_, hclose⟩, rfl⟩
      apply List.prefix_append
  · apply Derives.enclosed

/-- The object `{"a":"{}"}` is extracted from among prose. -/
theorem extractJson_object_nested :
  IsObject "\x7b\"a\":\"\x7b\x7d\"\x7d".toList ∧ '{' ∉ "Plan: ".toList
    ∧ extractJson ("Plan: ".toList ++ "\x7b\"a\":\"\x7b\x7d\"\x7d".toList ++ " Done.".toList)
      = some "\x7b\"a\":\"\x7b\x7d\"\x7d".toList
  := by
  have hobj : IsObject "\x7b\"a\":\"\x7b\x7d\"\x7d" :=
    isObject_string (content_of_plain (s := ['a']) (Text.forall_mem_of_all (by decide)))
      (content_of_plain (s := ['{', '}']) (Text.forall_mem_of_all (by decide)))
  have henc : Enclosed '{' '}' "\x7b\"a\":\"\x7b\x7d\"\x7d" := by
    simp [enclosed_cons_iff, closes_cons_iff, closes_zero_iff, depthAfter]
  exact ⟨hobj, by decide, (extractJson_object_iff hobj (by decide) _).1.mpr henc⟩

/-- The object `{"a":"}"}` is cut at the brace in its string. -/
theorem extractJson_object_cut :
  IsObject "\x7b\"a\":\"\x7d\"\x7d".toList
    ∧ extractJson "\x7b\"a\":\"\x7d\"\x7d".toList = some "\x7b\"a\":\"\x7d".toList
    ∧ extractJson "\x7b\"a\":\"\x7d\"\x7d".toList ≠ some "\x7b\"a\":\"\x7d\"\x7d".toList
  := by
  have hcut : extractJson "\x7b\"a\":\"\x7d\"\x7d" = some "\x7b\"a\":\"\x7d" := by
    decide
  refine ⟨?_, hcut, ?_⟩
  · exact isObject_string (content_of_plain (s := ['a']) (Text.forall_mem_of_all (by decide)))
      (content_of_plain (s := ['}']) (Text.forall_mem_of_all (by decide)))
  · rw [hcut]
    decide

/-!
### Bytes

The source goes through the bytes of the answer and cuts it at indices of bytes.  The thread
panics when the counter of open braces underflows, and when a character is cut.  Neither happens
in `extract_json`.
-/

/-- The index of the brace that closes the outermost one, if the counter does not underflow. -/
def closingIndex : Nat → Nat → List UInt8 → Option (Option Nat)
  | _, _, [] => some none
  | i, depth, b :: rest =>
    if b = 0x7b then closingIndex (i + 1) (depth + 1) rest
    else if b = 0x7d then
      if depth = 0 then none
      else if depth - 1 = 0 then some (some i)
      else closingIndex (i + 1) (depth - 1) rest
    else closingIndex (i + 1) depth rest

/-- The part of a text between two indices of bytes, unless a character would be cut. -/
def sliceBytes (text : Text) (start stop : Nat) : Option Text :=
  (takeBytes start text).bind fun before =>
    (takeBytes stop text).map (·.drop before.length)

/-- The first text in braces, found by its bytes.  There is no result if the thread panics. -/
def extractJsonBytes (text : Text) : Option (Option Text) :=
  match Text.splitFirst ['{'] text with
  | none => some none
  | some (before, _) =>
    let start := Text.utf8Len before
    match closingIndex start 0 ((Utf8.encode text).drop start) with
    | none => none
    | some none => some none
    | some (some i) => (sliceBytes text start (i + 1)).map some

theorem takeBytes_eq_some_iff {n : Nat} {s t : Text} :
  takeBytes n s = some t ↔ t <+: s ∧ utf8Len t = n
  := by
  have hcons : ∀ (c : Char) (t : Text), 0 < utf8Len (c :: t) := by
    intro c t
    rw [utf8Len_cons]
    have hpos := c.utf8Size_pos
    omega
  induction n using Nat.strong_induction_on generalizing s t with
  | _ n ih =>
  match n, s with
  | 0, s =>
    cases t with
    | nil => simp [takeBytes, utf8Len]
    | cons c t => simp [takeBytes, Nat.ne_of_gt (hcons c t)]
  | n + 1, [] =>
    cases t with
    | nil => simp [takeBytes, utf8Len]
    | cons c t => simp [takeBytes]
  | n + 1, c :: s =>
    have hpos := c.utf8Size_pos
    rw [takeBytes]
    cases t with
    | nil =>
      split_ifs <;> simp [utf8Len]
    | cons c' t =>
      rw [cons_prefix_cons, utf8Len_cons]
      by_cases hfits : c.utf8Size ≤ n + 1
      · rw [if_pos hfits, map_eq_some_iff]
        constructor
        · rintro ⟨found, hfound, heq⟩
          cases heq
          obtain ⟨hpre, hlen⟩ := (ih _ (by omega)).mp hfound
          exact ⟨⟨rfl, hpre⟩, by omega⟩
        · rintro ⟨⟨rfl, hpre⟩, hlen⟩
          exact ⟨t, (ih _ (by omega)).mpr ⟨hpre, by omega⟩, rfl⟩
      · rw [if_neg hfits]
        simp only [reduceCtorEq, false_iff, not_and]
        rintro ⟨rfl, -⟩
        omega

/-- The bytes of a character other than the braces do not matter to the loop. -/
theorem closingIndex_encodeChar {c : Char} (hopen : c ≠ '{') (hclose : c ≠ '}') (i depth : Nat)
    (rest : List UInt8) :
  closingIndex i depth (String.utf8EncodeChar c ++ rest)
    = closingIndex (i + c.utf8Size) depth rest
  := by
  have hskip : ∀ (bytes : List UInt8), (∀ b ∈ bytes, b ≠ 0x7b ∧ b ≠ 0x7d) → ∀ i,
      closingIndex i depth (bytes ++ rest) = closingIndex (i + bytes.length) depth rest := by
    intro bytes hbytes
    induction bytes with
    | nil =>
      intro i
      rfl
    | cons b bytes ih =>
      intro i
      obtain ⟨⟨hb, hb'⟩, hrest⟩ := List.forall_mem_cons.mp hbytes
      rw [cons_append, closingIndex, if_neg hb, if_neg hb', ih hrest, length_cons]
      congr 1
      omega
  rw [hskip, String.length_utf8EncodeChar]
  intro b hb
  constructor
  · rintro rfl
    apply hopen
    apply Char.toNat_inj.mp
    rw [toNat_eq_of_mem_utf8EncodeChar hb (by decide)]
    rfl
  · rintro rfl
    apply hclose
    apply Char.toNat_inj.mp
    rw [toNat_eq_of_mem_utf8EncodeChar hb (by decide)]
    rfl

theorem closingIndex_encode {depth : Nat} (hdepth : 0 < depth) (i : Nat) (s : Text) :
  closingIndex i depth (encode s)
    = some ((closeBraces depth s).map (fun found => i + utf8Len found - 1))
  := by
  induction s generalizing i depth with
  | nil => rfl
  | cons c s ih =>
    have hlong : ∀ (found : Option Text),
        (found.map (c :: ·)).map (fun found => i + utf8Len found - 1)
          = found.map (fun found => i + c.utf8Size + utf8Len found - 1) := by
      intro found
      rw [Option.map_map]
      congr 1
      funext found
      rw [Function.comp_apply, utf8Len_cons, Nat.add_assoc]
    have henc : encode (c :: s) = String.utf8EncodeChar c ++ encode s := rfl
    rw [closeBraces_cons hdepth, depthAfter, henc]
    by_cases hopen : c = '{'
    · subst hopen
      rw [if_pos rfl, if_neg (Nat.succ_ne_zero depth), hlong]
      apply ih (Nat.succ_pos depth)
    by_cases hclose : c = '}'
    · subst hclose
      have hstep : closingIndex i depth (String.utf8EncodeChar '}' ++ encode s)
          = if depth = 0 then none
            else if depth - 1 = 0 then some (some i)
            else closingIndex (i + 1) (depth - 1) (encode s) := rfl
      rw [if_neg hopen, if_pos rfl, hstep, if_neg (Nat.ne_of_gt hdepth)]
      by_cases hlast : depth - 1 = 0
      · rw [if_pos hlast, if_pos hlast]
        rfl
      · rw [if_neg hlast, if_neg hlast, hlong]
        apply ih (Nat.pos_of_ne_zero hlast)
    · rw [if_neg hopen, if_neg hclose, if_neg (Nat.ne_of_gt hdepth), hlong,
        closingIndex_encodeChar hopen hclose]
      apply ih hdepth

theorem sliceBytes_append (before middle after : Text) :
  sliceBytes (before ++ middle ++ after) (utf8Len before)
      (utf8Len before + utf8Len middle)
    = some middle
  := by
  have hstart : takeBytes (utf8Len before) (before ++ middle ++ after) = some before := by
    apply takeBytes_eq_some_iff.mpr
    rw [append_assoc]
    exact ⟨prefix_append _ _, rfl⟩
  have hstop : takeBytes (utf8Len before + utf8Len middle) (before ++ middle ++ after)
      = some (before ++ middle) := by
    apply takeBytes_eq_some_iff.mpr
    exact ⟨prefix_append _ _, utf8Len_append before middle⟩
  rw [sliceBytes, hstart, hstop]
  simp

/-- The bytes of an answer lead to the same text as its characters, and the thread does not
panic. -/
theorem extractJsonBytes_eq (text : Text) : extractJsonBytes text = some (extractJson text) := by
  unfold extractJsonBytes
  by_cases hmem : '{' ∈ text
  · obtain ⟨before, rest, rfl, hbef⟩ := eq_append_cons_of_mem hmem
    have hsplit : splitFirst ['{'] (before ++ '{' :: rest) = some (before, rest) :=
      splitFirst_append hbef [] rest
    have hdrop : (encode (before ++ '{' :: rest)).drop (utf8Len before)
        = encode ('{' :: rest) := by
      rw [encode_append, ← length_encode, drop_left]
    have hloop : closingIndex (utf8Len before) 0 (encode ('{' :: rest))
        = closingIndex (utf8Len before + 1) 1 (encode rest) := rfl
    rw [hsplit]
    dsimp only
    rw [hdrop, hloop, closingIndex_encode Nat.one_pos, extractJson_append hbef]
    cases hfound : closeBraces 1 rest with
    | none => rfl
    | some found =>
      obtain ⟨⟨after, rfl⟩, -⟩ := (closeBraces_eq_some_iff Nat.one_pos).mp hfound
      have hslice := sliceBytes_append before ('{' :: found) after
      have hstop : utf8Len before + utf8Len ('{' :: found)
          = utf8Len before + 1 + utf8Len found - 1 + 1 := by
        rw [utf8Len_cons, show '{'.utf8Size = 1 from rfl]
        omega
      rw [append_assoc, cons_append, hstop] at hslice
      simp only [map_some, hslice]
  · rw [splitFirst_of_not_mem hmem, extractJson_of_not_mem hmem]

/-! ### Answers -/

namespace Planner

variable (planner : Planner) (catalog : RoleCatalog)

def HoldsPlan (text : Text) : Prop :=
  ∃ json, json <:+: text ∧ IsObject json
    ∧ ∃ plan, planner.fromStr json = .ok plan ∧ plan.WellFormed catalog

/-- The answer does not make the thread panic, and is malformed unless its text holds a plan. -/
structure HandlesAnswer (response : CompletionResponse) : Prop where
  answers : planner.callAndParse catalog (.ok response) ≠ none
  malformed : (∀ text, response.content.findSome? ContentBlock.asText = some text →
      ¬ planner.HoldsPlan catalog text) →
    ∃ message, planner.callAndParse catalog (.ok response) = some (.error (.malformed message))

end Planner

/-- A text can be cut exactly when it is short enough, or a beginning of it has the number of
bytes. -/
theorem truncate_ne_none_iff {s : Text} {n : Nat} :
  truncate s n ≠ none ↔ utf8Len s ≤ n ∨ ∃ t, t <+: s ∧ utf8Len t = n
  := by
  unfold truncate
  split_ifs with hshort
  · simp [hshort]
  · rw [ne_eq, map_eq_none_iff, ← ne_eq, ne_none_iff_exists']
    simp only [hshort, false_or, takeBytes_eq_some_iff]

theorem validatePlanStructure_eq_error {plan : Plan} {catalog : RoleCatalog} {e : PlannerError}
    (herror : validatePlanStructure plan catalog = .error e) :
  ∃ message, e = .malformed message
  := by
  have hloop : ∀ (subtasks : List Subtask) (seen : List SubtaskId),
      checkSubtasks catalog seen subtasks = .error e → ∃ message, e = .malformed message := by
    intro subtasks
    induction subtasks with
    | nil =>
      intro seen hrun
      cases hrun
    | cons s rest ih =>
      intro seen hrun
      rw [checkSubtasks] at hrun
      split_ifs at hrun
      · cases hrun
        exact ⟨_, rfl⟩
      · cases hrun
        exact ⟨_, rfl⟩
      · apply ih _ hrun
  unfold validatePlanStructure at herror
  split_ifs at herror
  · cases herror
    exact ⟨_, rfl⟩
  · cases herror
    exact ⟨_, rfl⟩
  · cases hids : checkSubtasks catalog [] plan.subtasks with
    | error e' =>
      rw [hids] at herror
      cases herror
      apply hloop _ _ hids
    | ok seen =>
      simp only [hids] at herror
      split at herror
      · cases herror
        exact ⟨_, rfl⟩
      · cases herror

theorem Plan.WellFormed.of_applyTtlFallback {plan : Plan} {ttl : Option TaskTtl}
    {catalog : RoleCatalog} (hplan : (applyTtlFallback plan ttl).WellFormed catalog) :
  plan.WellFormed catalog
  := by
  cases ttl with
  | none => exact hplan
  | some fallback =>
    have hids : (applyTtlFallback plan (some fallback)).ids = plan.ids := by
      simp [Plan.ids, applyTtlFallback]
    constructor
    case finalOutput_ne => apply hplan.finalOutput_ne
    case subtasks_ne =>
      intro hnil
      apply hplan.subtasks_ne
      simp [applyTtlFallback, hnil]
    case nodup =>
      rw [← hids]
      apply hplan.nodup
    case role =>
      intro s hs
      apply hplan.role _ (mem_map_of_mem hs)
    case known =>
      intro s hs d hd
      rw [← hids]
      apply hplan.known _ (mem_map_of_mem hs) d hd

namespace Planner

variable {planner : Planner} {catalog : RoleCatalog}

theorem callAndParse_of_extracted (catalog : RoleCatalog)
    (hread : ∀ json plan, planner.fromStr json = .ok plan → IsText json)
    {response : CompletionResponse} {text json : Text}
    (htext : response.content.findSome? ContentBlock.asText = some text)
    (hjson : extractJson text = some json) :
  (∃ message, planner.callAndParse catalog (.ok response) = some (.error (.malformed message)))
    ∨ planner.callAndParse catalog (.ok response) ≠ none ∧ planner.HoldsPlan catalog text
  := by
  unfold callAndParse
  simp only [htext, hjson]
  cases hpar : planner.fromStr json with
  | error message =>
    left
    exact ⟨_, rfl⟩
  | ok parsed =>
    dsimp only
    cases hvalid :
        validatePlanStructure (applyTtlFallback parsed planner.defaultTaskTtl) catalog with
    | error e =>
      left
      obtain ⟨message, rfl⟩ := validatePlanStructure_eq_error hvalid
      exact ⟨message, rfl⟩
    | ok =>
      right
      obtain ⟨before, after, rfl, -, inner, rfl, hclose⟩ := extractJson_eq_some hjson
      obtain ⟨init, rfl⟩ := hclose.exists_concat Nat.one_pos
      have hobj := (hread _ _ hpar).isObject
      have hplan := (validatePlanStructure_eq_ok.mp hvalid).of_applyTtlFallback
      exact ⟨by simp, _, ⟨before, after, rfl⟩, hobj, parsed, hpar, hplan⟩

theorem handlesAnswer_of_malformed {response : CompletionResponse}
    (hmal : ∃ message, planner.callAndParse catalog (.ok response)
      = some (.error (.malformed message))) :
  planner.HandlesAnswer catalog response
  := by
  constructor
  case answers =>
    obtain ⟨message, hrun⟩ := hmal
    rw [hrun]
    apply some_ne_none
  case malformed =>
    intro _
    exact hmal

/-- The extraction does not panic, and an answer does so exactly when there is nothing to extract
and a character stands across the 200th byte; an answer is malformed unless its text holds a plan.
-/
theorem handlesAnswer_iff (hread : ∀ json plan, planner.fromStr json = .ok plan → IsText json)
    (response : CompletionResponse) :
  (∀ text, extractJsonBytes text = some (extractJson text))
    ∧ (planner.HandlesAnswer catalog response
      ↔ ∀ text, response.content.findSome? ContentBlock.asText = some text →
        extractJson text ≠ none ∨ Text.utf8Len text ≤ 200
          ∨ ∃ t, t <+: text ∧ Text.utf8Len t = 200)
  := by
  refine ⟨extractJsonBytes_eq, ?_⟩
  cases htext : response.content.findSome? ContentBlock.asText with
  | none =>
    have hhand : planner.HandlesAnswer catalog response := by
      apply handlesAnswer_of_malformed
      simp only [callAndParse, htext]
      exact ⟨_, rfl⟩
    simp [hhand]
  | some text =>
    simp only [Option.some.injEq, forall_eq', ← truncate_ne_none_iff]
    cases hjson : extractJson text with
    | some json =>
      have hhand : planner.HandlesAnswer catalog response := by
        obtain hmal | ⟨hanss, hholds⟩ := callAndParse_of_extracted catalog hread htext hjson
        · apply handlesAnswer_of_malformed hmal
        · refine ⟨hanss, ?_⟩
          intro hnone
          exact absurd hholds (hnone text htext)
      simp [hhand]
    | none =>
      have hrun : planner.callAndParse catalog (.ok response)
          = (truncate text 200).map fun text =>
            .error (.malformed ("no JSON in response: " ++ text)) := by
        simp only [callAndParse, htext, hjson]
      simp only [ne_eq, not_true_eq_false, false_or]
      constructor
      · intro hhand hpanic
        apply hhand.answers
        rw [hrun, hpanic]
        rfl
      · intro hcut
        obtain ⟨shown, hshown⟩ := Option.ne_none_iff_exists'.mp hcut
        apply handlesAnswer_of_malformed
        rw [hrun, hshown]
        exact ⟨_, rfl⟩

def emptyPlanner : Planner where
  fromStr json := if json = ['{', '}'] then .ok ⟨[], []⟩ else .error []
  defaultTaskTtl := none

def textAnswer (text : Text) : CompletionResponse := ⟨[.text text], .endTurn, ⟨0, 0⟩⟩

/-- A short answer without an object is handled. -/
theorem handlesAnswer_short :
  (∀ json plan, emptyPlanner.fromStr json = .ok plan → IsText json)
    ∧ emptyPlanner.HandlesAnswer ∅ (textAnswer "é".toList)
  := by
  have hread : ∀ json plan, emptyPlanner.fromStr json = .ok plan → IsText json := by
    intro json plan hpar
    unfold emptyPlanner at hpar
    dsimp only at hpar
    split_ifs at hpar with hjson
    rw [hjson]
    have hspace : IsSpace [] := by
      intro c hc
      cases hc
    exact .element hspace (.objectValue (.emptyObject hspace)) hspace
  refine ⟨hread, (handlesAnswer_iff hread _).2.mpr ?_⟩
  intro text htext
  cases htext
  exact .inr (.inl (by decide))

theorem takeBytes_replicate (n : Nat) :
  takeBytes (n + 1) (replicate n 'a' ++ ['é']) = none
  := by
  induction n with
  | zero => rfl
  | succ n ih =>
    rw [replicate_succ, cons_append, takeBytes,
      if_pos (show 'a'.utf8Size ≤ n + 1 + 1 from Nat.le_add_left 1 (n + 1)),
      show n + 1 + 1 - 'a'.utf8Size = n + 1 from rfl, ih]
    rfl

/-- An answer without an object makes the thread panic when a character stands across the 200th
byte. -/
theorem not_handlesAnswer_cut :
  ¬ emptyPlanner.HandlesAnswer ∅ (textAnswer (List.replicate 199 'a' ++ ['é']))
  := by
  have hlen : ¬ Text.utf8Len (List.replicate 199 'a' ++ ['é']) ≤ 200 := by
    rw [Utf8.utf8Len_append, Text.utf8Len, List.map_replicate, List.sum_replicate]
    decide
  have hcut : truncate (List.replicate 199 'a' ++ ['é']) 200 = none := by
    rw [truncate, if_neg hlen, takeBytes_replicate]
    rfl
  have hjson : extractJson (List.replicate 199 'a' ++ ['é']) = none := by
    apply extractJson_of_not_mem
    rw [List.mem_append, List.mem_replicate]
    decide
  intro hhand
  apply hhand.answers
  simp only [callAndParse, textAnswer, List.findSome?_cons, ContentBlock.asText, hjson, hcut,
    Option.map_none]

end Planner
