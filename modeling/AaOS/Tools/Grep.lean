import AaOS.Lib.Utf8
import AaOS.Tools.Audit
import AaOS.Tools.WebFetch

/-!
# Searching files

`run_rg` of `aaos-tools/src/grep.rs`, once `rg` has ended.  The first 200 matches in the output are
returned, with the matched line cut to 512 bytes, and the result is marked as truncated when there
are more matches or the output is longer than 16 KiB.  So the mark says nothing about the lines that
were cut, and the lengths of the texts are not limited together.
-/

open List Text

def maxInlineBytes : Nat := 16 * 1024

def maxMatches : Nat := 200

def cap (s : Text) (max : Nat) : Text :=
  if Text.utf8Len s ≤ max then s else takeFitting max s ++ "…"

structure GrepMatch where
  file : Text
  line : UInt64
  text : Text

/-- The line of a match, without its final newline. -/
def matchedLine (data : Json) : Text :=
  let text := (((data.get "lines").bind (·.get "text")).bind Json.asStr).getD []
  (Text.stripSuffix '\n' text).getD text

def matchOf (data : Json) : GrepMatch where
  file := (((data.get "path").bind (·.get "text")).bind Json.asStr).getD []
  line := ((data.get "line_number").bind Json.asU64).getD 0
  text := cap (matchedLine data) 512

def isMatchEvent (ev : Json) : Bool := (ev.get "type").bind Json.asStr = some "match".toList

/-- What `rg` leaves behind. -/
structure RgOutput where
  exitCode : Option Int
  stdout : Text
  stderr : Text

/-- The result of the tool. -/
structure GrepResult where
  pattern : Text
  found : List GrepMatch
  totalMatches : Nat
  truncated : Bool

section Search

variable (fromStr : Text → Option Json)

/-- Take a line of the output, after some matches and a number of events. -/
def takeEvent (acc : List GrepMatch × Nat) (line : Text) : List GrepMatch × Nat :=
  match fromStr line with
  | none => acc
  | some ev =>
    if isMatchEvent ev then
      if maxMatches ≤ acc.1.length then (acc.1, acc.2 + 1)
      else
        match ev.get "data" with
        | none => (acc.1, acc.2 + 1)
        | some data => (acc.1 ++ [matchOf data], acc.2 + 1)
    else acc

/-- The result for an output of `rg`. -/
def runRg (pattern : Text) (output : RgOutput) : Except CoreError GrepResult :=
  let exitCode := output.exitCode.getD (-1)
  if 2 ≤ exitCode then
    .error (.ipc ("rg error (exit " ++ Nat.toDigits 10 exitCode.toNat ++ "): " ++ output.stderr))
  else
    let (found, totalMatchEvents) := (Text.lines output.stdout).foldl (takeEvent fromStr) ([], 0)
    .ok { pattern, found
          totalMatches := found.length
          truncated :=
            maxMatches < totalMatchEvents || maxInlineBytes < Text.utf8Len output.stdout }

def matchEvents (stdout : Text) : List Json :=
  ((Text.lines stdout).filterMap fromStr).filter isMatchEvent

end Search

/-- The result of a search, without a loop. -/
def searchResult (fromStr : Text → Option Json) (pattern stdout : Text) : GrepResult :=
  let events := matchEvents fromStr stdout
  let found := ((events.filterMap (·.get "data")).take maxMatches).map matchOf
  { pattern, found
    totalMatches := found.length
    truncated := maxMatches < events.length || maxInlineBytes < Text.utf8Len stdout }

/-- The matches are the first match events, their texts are within the limit, and the result is
marked exactly when a match is missing or a text is shorter than its line. -/
structure ReportsTruncation (events : List Json) (result : GrepResult) : Prop where
  first : (events.take maxMatches).map (fun ev => (ev.get "data").map matchOf)
    = result.found.map some
  bounded : (result.found.map fun m => Text.utf8Len m.text).sum ≤ maxInlineBytes
  marked : result.truncated = true
    ↔ result.found.length < events.length
      ∨ ∃ ev ∈ events.take maxMatches, ∃ data ∈ ev.get "data",
        Text.utf8Len (matchOf data).text < Text.utf8Len (matchedLine data)

/-- The line is longer than what is left of it and the three bytes of the ellipsis. -/
def Shortened (line : Text) : Prop :=
  512 < Text.utf8Len line ∧ Text.utf8Len (takeFitting 512 line) + 3 < Text.utf8Len line

/-- The first match events have data, their cut lines are within the limit, and when there are no
more, the output is long exactly when a line is shortened. -/
structure WithinCaps (events : List Json) (stdout : Text) : Prop where
  data : ∀ ev ∈ events.take maxMatches, (ev.get "data").isSome = true
  bounded : (((events.filterMap (·.get "data")).take maxMatches).map
    fun data => Text.utf8Len (cap (matchedLine data) 512)).sum ≤ maxInlineBytes
  marked : events.length ≤ maxMatches → (maxInlineBytes < Text.utf8Len stdout
    ↔ ∃ ev ∈ events, ∃ data ∈ ev.get "data", Shortened (matchedLine data))

/-! ### The loop -/

variable {fromStr : Text → Option Json} {events : List Json} {stdout : Text}

theorem foldl_takeEvent (lines : List Text) (found : List GrepMatch) (n : Nat) :
  lines.foldl (takeEvent fromStr) (found, n)
    = (found ++ ((((lines.filterMap fromStr).filter isMatchEvent).filterMap (·.get "data")).take
        (maxMatches - found.length)).map matchOf,
      n + ((lines.filterMap fromStr).filter isMatchEvent).length)
  := by
  induction lines generalizing found n with
  | nil =>
    simp only [foldl_nil, filterMap_nil, filter_nil, take_nil, map_nil,
      append_nil, length_nil, Nat.add_zero]
  | cons line lines ih =>
    rw [foldl_cons, takeEvent, filterMap_cons]
    cases fromStr line with
    | none => apply ih
    | some ev =>
      dsimp only
      rw [filter_cons]
      split_ifs with hmatch hfull
      · rw [ih, Nat.sub_eq_zero_of_le hfull, take_zero, take_zero, length_cons,
          Nat.add_right_comm, Nat.add_assoc]
      · rw [filterMap_cons]
        cases ev.get "data" with
        | none =>
          dsimp only
          rw [ih, length_cons, Nat.add_right_comm, Nat.add_assoc]
        | some data =>
          obtain ⟨room, hroom⟩ := Nat.exists_eq_add_of_lt (Nat.lt_of_not_le hfull)
          have hleft : maxMatches - found.length = room + 1 := by omega
          have hleft' : maxMatches - (found ++ [matchOf data]).length = room := by
            rw [length_append, length_singleton]
            omega
          dsimp only
          rw [ih, hleft, hleft', take_succ_cons, map_cons, append_assoc,
            singleton_append, length_cons, Nat.add_right_comm, Nat.add_assoc]
      · apply ih

theorem utf8Len_cap_lt_iff (line : Text) :
  utf8Len (cap line 512) < utf8Len line ↔ Shortened line
  := by
  unfold cap Shortened
  split_ifs with hshort
  · simp only [Nat.lt_irrefl, false_iff, not_and]
    intro hlong
    omega
  · have hell : utf8Len "…" = 3 := by decide
    rw [Utf8.utf8Len_append, hell]
    simp [Nat.lt_of_not_le hshort]

/-- As long as the first events have data, they are the first ones that have data. -/
theorem map_some_take_filterMap {g : Json → Option Json} {n : Nat}
    (hdata : ∀ ev ∈ events.take n, (g ev).isSome = true) :
  ((events.filterMap g).take n).map some = (events.take n).map g
  := by
  induction events generalizing n with
  | nil => simp
  | cons ev events ih =>
    cases n with
    | zero => rfl
    | succ n =>
      rw [take_succ_cons, List.forall_mem_cons] at hdata
      obtain ⟨data, hev⟩ := Option.isSome_iff_exists.mp hdata.1
      rw [filterMap_cons_some hev, take_succ_cons, take_succ_cons, map_cons,
        map_cons, ih hdata.2, hev]

theorem map_data_eq_iff :
  (events.take maxMatches).map (fun ev => (ev.get "data").map matchOf)
      = (((events.filterMap (·.get "data")).take maxMatches).map matchOf).map some
    ↔ ∀ ev ∈ events.take maxMatches, (ev.get "data").isSome = true
  := by
  constructor
  · intro heq ev hev
    have hmem := mem_map_of_mem (f := fun ev => (ev.get "data").map matchOf) hev
    rw [heq] at hmem
    obtain ⟨m, -, hm⟩ := mem_map.mp hmem
    rw [← Option.isSome_map (f := matchOf), ← hm]
    rfl
  · intro hdata
    have hfirst := congrArg (map (Option.map matchOf)) (map_some_take_filterMap hdata)
    rw [map_map, map_map] at hfirst
    rw [map_map]
    exact hfirst.symm

theorem length_take_data (hdata : ∀ ev ∈ events.take maxMatches, (ev.get "data").isSome = true) :
  (((events.filterMap (·.get "data")).take maxMatches).map matchOf).length
    = min maxMatches events.length
  := by
  have hlen := congrArg length (map_some_take_filterMap hdata)
  rw [length_map, length_map] at hlen
  rw [length_map, hlen, length_take]

theorem marked_iff (hdata : ∀ ev ∈ events.take maxMatches, (ev.get "data").isSome = true) :
  ((maxMatches < events.length || maxInlineBytes < utf8Len stdout) = true
      ↔ (((events.filterMap (·.get "data")).take maxMatches).map matchOf).length < events.length
        ∨ ∃ ev ∈ events.take maxMatches, ∃ data ∈ ev.get "data",
          utf8Len (matchOf data).text < utf8Len (matchedLine data))
    ↔ (events.length ≤ maxMatches → (maxInlineBytes < utf8Len stdout
      ↔ ∃ ev ∈ events, ∃ data ∈ ev.get "data", Shortened (matchedLine data)))
  := by
  rw [length_take_data hdata, Bool.or_eq_true, decide_eq_true_iff, decide_eq_true_iff]
  simp only [matchOf, utf8Len_cap_lt_iff]
  by_cases hmore : maxMatches < events.length
  · simp [hmore, Nat.not_le.mpr hmore]
  · have hle := Nat.le_of_not_lt hmore
    simp [hmore, hle, take_of_length_le hle]

theorem runRg_eq_ok_iff {pattern : Text} {output : RgOutput} {result : GrepResult} :
  runRg fromStr pattern output = .ok result
    ↔ output.exitCode.getD (-1) < 2
      ∧ result = searchResult fromStr pattern output.stdout
  := by
  unfold runRg searchResult matchEvents
  dsimp only
  rw [foldl_takeEvent, nil_append, Nat.zero_add, length_nil, Nat.sub_zero]
  split_ifs with herror
  · apply iff_of_false nofun
    rintro ⟨hexit, -⟩
    exact not_lt.mpr herror hexit
  · rw [Except.ok.injEq, and_iff_right (not_le.mp herror)]
    exact eq_comm

/-- A search reports its truncation and keeps to its limits exactly when the output is within the
caps. -/
theorem reportsTruncation_iff_withinCaps (fromStr : Text → Option Json) (pattern : Text)
    {output : RgOutput} {result : GrepResult} (hok : runRg fromStr pattern output = .ok result) :
  ReportsTruncation (matchEvents fromStr output.stdout) result
    ↔ WithinCaps (matchEvents fromStr output.stdout) output.stdout
  := by
  obtain ⟨-, rfl⟩ := runRg_eq_ok_iff.mp hok
  constructor
  · rintro ⟨hfirst, hbound, hmark⟩
    have hdata := map_data_eq_iff.mp hfirst
    rw [searchResult, List.map_map] at hbound
    exact ⟨hdata, hbound, (marked_iff hdata).mp hmark⟩
  · rintro ⟨hdata, hbound, hmark⟩
    refine ⟨map_data_eq_iff.mpr hdata, ?_, (marked_iff hdata).mpr hmark⟩
    rw [searchResult, List.map_map]
    exact hbound

/-! ### Copies of a line -/

theorem utf8Len_takeFitting_le (n : Nat) (s : Text) :
  utf8Len (takeFitting n s) ≤ n
  := by
  induction s generalizing n with
  | nil => apply Nat.zero_le
  | cons c s ih =>
    unfold takeFitting
    split_ifs with hfits
    · have hrest := ih (n - c.utf8Size)
      rw [Utf8.utf8Len_cons]
      omega
    · apply Nat.zero_le

def eventData (line : Text) : Json :=
  .obj [("line_number", jsonNat 1), ("lines", .obj [("text", .str (line ++ ['\n']))]),
    ("path", .obj [("text", .str "a")])]

def beforeLine : Text :=
  "\x7b\"type\":\"match\",\"data\":\x7b\"path\":\x7b\"text\":\"a\"\x7d,\"lines\":\x7b\"text\":\""

def afterLine : Text := "\\n\"\x7d,\"line_number\":1\x7d\x7d"

/-- The text of a match event. -/
def eventText (line : Text) : Text := beforeLine ++ line ++ afterLine

def eventOf (line : Text) : Json := .obj [("data", eventData line), ("type", .str "match")]

def readEvent (line text : Text) : Option Json :=
  if text = eventText line then some (eventOf line) else none

/-- The output for a file with copies of a line that matches. -/
def copies (line : Text) (n : Nat) : Text := ['\n'].intercalate (replicate (n + 1) (eventText line))

variable {line : Text}

theorem matchEvents_copies (hnew : '\n' ∉ line) (n : Nat) :
  matchEvents (readEvent line) (copies line n) = replicate (n + 1) (eventOf line)
  := by
  have hnmem : '\n' ∉ eventText line := by
    have hbef : '\n' ∉ beforeLine := by decide +kernel
    have hafter : '\n' ∉ afterLine := by decide +kernel
    intro hmem
    rw [eventText, mem_append, mem_append] at hmem
    obtain (hmem | hmem) | hmem := hmem
    · apply hbef hmem
    · apply hnew hmem
    · apply hafter hmem
  have hlast : (eventText line).getLast? = some '}' := by
    rw [eventText, getLast?_append_of_ne_nil _ (by decide)]
    decide
  have hstrip : stripSuffix '\r' (eventText line) = none := by
    rw [Option.eq_none_iff_forall_ne_some]
    intro text htext
    rw [stripSuffix_eq_some.mp htext, getLast?_concat] at hlast
    cases hlast
  have hne : eventText line ≠ [] := by
    intro hnil
    rw [hnil] at hlast
    cases hlast
  have hsplit : (copies line n).splitOn '\n' = replicate (n + 1) (eventText line) := by
    apply splitOn_intercalate
    · intro text htext
      rw [eq_of_mem_replicate htext]
      apply hnmem
    · simp
  have hlines : lines (copies line n) = replicate (n + 1) (eventText line) := by
    rw [lines, hsplit, replicate_succ', dropLast_concat, getLast?_concat, map_replicate, hstrip]
    simp [hne]
  have hread : readEvent line (eventText line) = some (eventOf line) := if_pos rfl
  rw [matchEvents, hlines, filterMap_replicate_of_some hread]
  apply filter_replicate_of_pos rfl

theorem matchEvents_eventText (hnew : '\n' ∉ line) :
  matchEvents (readEvent line) (eventText line) = [eventOf line]
  := by
  have hone : copies line 0 = eventText line := by simp [copies]
  rw [← hone]
  apply matchEvents_copies hnew

theorem matchedLine_eventData :
  matchedLine (eventData line) = line
  := by
  have hstrip : stripSuffix '\n' (line ++ ['\n']) = some line := stripSuffix_eq_some.mpr rfl
  change (stripSuffix '\n' (line ++ ['\n'])).getD _ = line
  rw [hstrip, Option.getD_some]

theorem withinCaps_copies (hnew : '\n' ∉ line) (hshort : 200 * utf8Len line ≤ 16 * 1024)
    {n : Nat} (hn : 200 ≤ n) :
  WithinCaps (matchEvents (readEvent line) (copies line n)) (copies line n)
  := by
  have hcap : cap line 512 = line := if_pos (by omega)
  rw [matchEvents_copies hnew]
  refine ⟨?data, ?bounded, ?marked⟩
  case data =>
    intro ev hev
    rw [eq_of_mem_replicate (mem_of_mem_take hev)]
    rfl
  case bounded =>
    have hdata : (replicate (n + 1) (eventOf line)).filterMap (·.get "data")
        = replicate (n + 1) (eventData line) := filterMap_replicate_of_some rfl
    rw [hdata, take_replicate, map_replicate, matchedLine_eventData,
      hcap, sum_replicate_nat, maxMatches, maxInlineBytes, min_eq_left (by omega)]
    exact hshort
  case marked =>
    intro hle
    rw [length_replicate, maxMatches] at hle
    omega

theorem searchResult_copies (hnew : '\n' ∉ line) (pattern : Text) {n : Nat} (hn : 200 ≤ n)
    (hcaps : WithinCaps (matchEvents (readEvent line) (copies line n)) (copies line n)) :
  (searchResult (readEvent line) pattern (copies line n)).totalMatches = 200
    ∧ (searchResult (readEvent line) pattern (copies line n)).truncated = true
  := by
  unfold searchResult
  dsimp only
  rw [length_take_data hcaps.data, matchEvents_copies hnew, length_replicate, maxMatches,
    Bool.or_eq_true, decide_eq_true_iff]
  exact ⟨min_eq_left (by omega), .inl (by omega)⟩

theorem utf8Len_replicate (n : Nat) : utf8Len (replicate n 'a') = n := by
  rw [utf8Len, map_replicate, sum_replicate_nat]
  apply Nat.mul_one

/-- Of 201 matching lines of 81 bytes the first 200 are returned, and the result is marked. -/
theorem reportsTruncation_copies :
  ∃ line result, runRg (readEvent line) "a" ⟨some 0, copies line 200, []⟩ = .ok result
    ∧ result.totalMatches = 200 ∧ result.truncated = true
    ∧ ReportsTruncation (matchEvents (readEvent line) (copies line 200)) result
  := by
  have hnew : '\n' ∉ replicate 81 'a' := by
    rw [mem_replicate]
    decide
  have hok : runRg (readEvent (replicate 81 'a')) "a" ⟨some 0, copies (replicate 81 'a') 200, []⟩
      = .ok (searchResult _ "a" _) := runRg_eq_ok_iff.mpr ⟨by decide, rfl⟩
  have hcaps := withinCaps_copies hnew (by rw [utf8Len_replicate]; decide) (Nat.le_refl 200)
  obtain ⟨htotal, htrun⟩ := searchResult_copies hnew "a" (Nat.le_refl 200) hcaps
  exact ⟨_, _, hok, htotal, htrun, (reportsTruncation_iff_withinCaps _ _ hok).mpr hcaps⟩

theorem not_reportsTruncation_of_long (hnew : '\n' ∉ line) (hlong : 515 < utf8Len line)
    (hsmall : utf8Len line ≤ 16000) :
  ¬ ReportsTruncation (matchEvents (readEvent line) (eventText line))
    (searchResult (readEvent line) "a" (eventText line))
  := by
  rintro ⟨-, -, hmark⟩
  have hshort : Shortened line := by
    have hcut := utf8Len_takeFitting_le 512 line
    unfold Shortened
    omega
  have hlen : utf8Len (eventText line) ≤ maxInlineBytes := by
    have hbef : utf8Len beforeLine ≤ 100 := by decide +kernel
    have hafter : utf8Len afterLine ≤ 100 := by decide +kernel
    rw [eventText, Utf8.utf8Len_append, Utf8.utf8Len_append, maxInlineBytes]
    omega
  rw [matchEvents_eventText hnew] at hmark
  have htrun := hmark.mpr (.inr ⟨_, .head _, eventData line, rfl, by
    rw [matchOf, matchedLine_eventData]
    exact (utf8Len_cap_lt_iff line).mpr hshort⟩)
  rw [searchResult, matchEvents_eventText hnew] at htrun
  simp [maxMatches, Nat.not_lt.mpr hlen] at htrun

/-- A line of 600 bytes is cut, and the result is not marked as truncated. -/
theorem not_reportsTruncation_longLine :
  ∃ line result, runRg (readEvent line) "a" ⟨some 0, eventText line, []⟩ = .ok result
    ∧ ¬ ReportsTruncation (matchEvents (readEvent line) (eventText line)) result
  := by
  refine ⟨List.replicate 600 'a', _, runRg_eq_ok_iff.mpr ⟨by decide, rfl⟩, ?_⟩
  have hlen := utf8Len_replicate 600
  apply not_reportsTruncation_of_long
  · rw [List.mem_replicate]
    decide
  · rw [hlen]
    decide
  · rw [hlen]
    decide
