import AaOS.Lib.Occurrence
import AaOS.Tools.Refusal

/-!
# Edits

What `file_edit` makes of a text (`aaos-tools/src/file_edit.rs`).  Whether the old text is unique
is decided by counting the occurrences that do not overlap.  So an edit of more than one possible
place is made at the first place exactly when all occurrences overlap each other.
-/

open List Text

open Eff

/-! ### The scan -/

/-- A scan with enough passes counts the occurrences that are met from left to right. -/
theorem countNonOverlappingLoop_eq {needle rest : Text} {passes count : Nat} (hne : needle ≠ [])
    (hpass : rest.length ≤ passes) :
  countNonOverlappingLoop needle passes count rest = count + Text.count needle rest
  := by
  induction passes generalizing count rest with
  | zero =>
    obtain rfl := length_eq_zero_iff.mp (Nat.le_zero.mp hpass)
    rfl
  | succ passes ih =>
    rw [countNonOverlappingLoop, find]
    rcases hsplit : splitFirst needle rest with _ | ⟨before, after⟩
    · have hnone := (splitFirst_eq_none_iff hne).mp hsplit
      rw [(count_eq_zero_iff hne).mpr hnone]
      rfl
    · have hrest := eq_of_splitFirst_eq_some hsplit
      have hpos := length_pos_iff.mpr hne
      have hdrop : rest.drop (before.length + needle.length) = after := by
        rw [hrest, ← length_append, drop_left]
      have hlen : after.length ≤ passes := by
        rw [hrest, length_append, length_append] at hpass
        omega
      rw [count_of_splitFirst hne hsplit]
      simp only [Option.map_some, hdrop]
      rw [ih hlen]
      omega

theorem countNonOverlapping_eq {haystack needle : Text} (hne : needle ≠ []) :
  countNonOverlapping haystack needle = Text.count needle haystack
  := by
  rw [countNonOverlapping, isEmpty_eq_false_iff.mpr hne, if_neg Bool.false_ne_true,
    countNonOverlappingLoop_eq hne le_rfl, Nat.zero_add]

/-! ### Successful calls -/

section Success

variable {kernel : Kernel} {ctx : InvocationContext} {now : DateTime} {fd : OwnedFd}
  {canonical original oldString newString : Text} {replaceAll : Bool} {files after : Files}

theorem exec_callOrFail_eq_ok_iff {failure : Option Text} {message : Text} {u : Unit} :
  exec (callOrFail failure message) files = (.ok u, after) ↔ failure = none ∧ after = files
  := by
  rw [callOrFail, exec_check_eq_ok_iff, Option.map_eq_none_iff]

variable {bytes : List UInt8}

theorem exec_checkEditable_eq_ok_iff {len : Nat}
    (hfile : files.inode fd.ino = some (.regular bytes)) :
  exec (checkEditable kernel ctx now fd canonical) files = (.ok len, after)
    ↔ ctx.permitsCanonicalFile now .read canonical = true
      ∧ ctx.permitsCanonicalFile now .write canonical = true
      ∧ kernel.metadata fd = none ∧ bytes.length ≤ maxFileBytes
      ∧ len = bytes.length ∧ after = files
  := by
  have hsize : files.size fd.ino = bytes.length := by
    rw [Files.size, hfile]
  simp only [checkEditable, exec_bind_eq_ok_iff, exec_refuseIf_eq_ok_iff,
    exec_callOrFail_eq_ok_iff, query, exec_ofStep, exec_pure]
  constructor
  · rintro ⟨_, _, ⟨hread, rfl⟩, _, _, ⟨hwrite, rfl⟩, _, _, ⟨hmet, rfl⟩, _, _, hkind, _, _,
      ⟨-, rfl⟩, _, _, hlen, _, _, ⟨hsmall, rfl⟩, hres⟩
    cases hkind
    cases hlen
    cases hres
    simp_all
  · rintro ⟨hread, hwrite, hmet, hsmall, rfl, rfl⟩
    simp_all

theorem exec_readToString_eq_ok_iff {text : Text}
    (hfile : files.inode fd.ino = some (.regular bytes)) :
  exec (readToString kernel fd) files = (.ok text, after)
    ↔ kernel.readToString fd bytes = .ok text ∧ after = files
  := by
  simp only [readToString, exec_bind_eq_ok_iff, query, exec_ofStep, hfile]
  constructor
  · rintro ⟨_, _, hbytes, hread⟩
    cases hbytes
    rcases hres : kernel.readToString fd bytes with e | text'
    · rw [hres] at hread
      cases hread
    · rw [hres] at hread
      cases hread
      exact ⟨rfl, rfl⟩
  · rintro ⟨hread, rfl⟩
    refine ⟨_, _, rfl, ?_⟩
    rw [hread]
    rfl

theorem exec_checkMatches_eq_ok_iff {matchCount : Nat} (hne : oldString ≠ []) :
  exec (checkMatches canonical original oldString replaceAll) files = (.ok matchCount, after)
    ↔ matchCount = Text.count oldString original ∧ matchCount ≠ 0
      ∧ (replaceAll = false → matchCount = 1) ∧ after = files
  := by
  simp only [checkMatches, countNonOverlapping_eq hne, exec_bind_eq_ok_iff,
    exec_refuseIf_eq_ok_iff, exec_pure]
  constructor
  · rintro ⟨_, _, ⟨hfound, rfl⟩, _, _, ⟨hamb, rfl⟩, hres⟩
    cases hres
    rw [decide_eq_false_iff_not] at hfound
    refine ⟨rfl, hfound, ?_, rfl⟩
    rintro rfl
    rw [Bool.not_false, Bool.and_true, decide_eq_false_iff_not] at hamb
    omega
  · rintro ⟨rfl, hfound, huniq, rfl⟩
    refine ⟨(), after, ⟨decide_eq_false hfound, rfl⟩, (), after, ⟨?_, rfl⟩, rfl⟩
    cases replaceAll with
    | false => simp [huniq rfl]
    | true => rw [Bool.not_true, Bool.and_false]

theorem exec_rewriteFile_eq_ok_iff {modified : Text} {u : Unit} :
  exec (rewriteFile kernel fd modified) files = (.ok u, after)
    ↔ kernel.setLen fd = none ∧ kernel.seek fd = none ∧ kernel.writeAll fd = none
      ∧ kernel.flush fd = none
      ∧ after = (({ files with writing := true } : Files).set fd.ino (.regular [])).set fd.ino
          (.regular (asBytes modified))
  := by
  simp only [rewriteFile, exec_bind_eq_ok_iff, exec_callOrFail_eq_ok_iff, beginWrite, update,
    writeAll, exec_ofStep]
  constructor
  · rintro ⟨_, _, hbegin, _, _, ⟨hset, rfl⟩, _, _, hcut, _, _, ⟨hseek, rfl⟩, _, _, hwrite,
      hflush, rfl⟩
    cases hbegin
    cases hcut
    rcases hfails : kernel.writeAll fd with _ | ⟨written, e⟩
    · rw [hfails] at hwrite
      cases hwrite
      refine ⟨hset, hseek, rfl, hflush, ?_⟩
      simp [Files.write, Files.set]
    · rw [hfails] at hwrite
      cases hwrite
  · rintro ⟨hset, hseek, hwrite, hflush, rfl⟩
    refine ⟨(), _, rfl, (), _, ⟨hset, rfl⟩, (), _, rfl, (), _, ⟨hseek, rfl⟩, (), _, ?_, hflush, rfl⟩
    rw [hwrite]
    simp [Files.write, Files.set]

/-- The text that an edit puts in the place of the one that is read. -/
def editedText (oldString newString original : Text) (replaceAll : Bool) : Text :=
  if replaceAll then Text.replace oldString newString original
  else Text.replacen oldString newString 1 original

def editReport (canonical : Text) (bytesBefore bytesAfter replacements : Nat) : Json :=
  .obj [("bytes_after", jsonNat bytesAfter), ("bytes_before", jsonNat bytesBefore),
    ("path", .str canonical), ("replacements", jsonNat replacements)]

theorem exec_fileEditOpened_eq_ok_iff {value : Json} (hne : oldString ≠ [])
    (hfile : files.inode fd.ino = some (.regular bytes))
    (hread : kernel.readToString fd bytes = .ok original) :
  exec (fileEditOpened kernel ctx now oldString newString replaceAll (fd, canonical)) files
      = (.ok value, after)
    ↔ ctx.permitsCanonicalFile now .read canonical = true
      ∧ ctx.permitsCanonicalFile now .write canonical = true
      ∧ kernel.metadata fd = none ∧ bytes.length ≤ maxFileBytes
      ∧ Text.count oldString original ≠ 0
      ∧ (replaceAll = false → Text.count oldString original = 1)
      ∧ kernel.setLen fd = none ∧ kernel.seek fd = none ∧ kernel.writeAll fd = none
      ∧ kernel.flush fd = none
      ∧ after = (({ files with writing := true } : Files).set fd.ino (.regular [])).set fd.ino
          (.regular (asBytes (editedText oldString newString original replaceAll)))
      ∧ value = editReport canonical bytes.length
          (utf8Len (editedText oldString newString original replaceAll))
          (if replaceAll then Text.count oldString original else 1)
  := by
  simp only [fileEditOpened, exec_bind_eq_ok_iff, exec_checkEditable_eq_ok_iff hfile,
    exec_checkMatches_eq_ok_iff hne, exec_rewriteFile_eq_ok_iff, exec_pure]
  constructor
  · rintro ⟨_, _, ⟨hperm, hperm', hmet, hsmall, rfl, rfl⟩, text, _, htext, hrest⟩
    rw [exec_readToString_eq_ok_iff hfile, hread] at htext
    obtain ⟨htext, rfl⟩ := htext
    cases htext
    obtain ⟨_, _, ⟨rfl, hfound, huniq, rfl⟩, _, _, ⟨hset, hseek, hwrite, hflush, rfl⟩,
      hvalue⟩ := hrest
    cases hvalue
    exact ⟨hperm, hperm', hmet, hsmall, hfound, huniq, hset, hseek, hwrite, hflush, rfl, rfl⟩
  · rintro ⟨hperm, hperm', hmet, hsmall, hfound, huniq, hset, hseek, hwrite, hflush, rfl, rfl⟩
    exact ⟨_, files, ⟨hperm, hperm', hmet, hsmall, rfl, rfl⟩, original, files,
      (exec_readToString_eq_ok_iff hfile).mpr ⟨hread, rfl⟩, _, files, ⟨rfl, hfound, huniq, rfl⟩,
      (), _, ⟨hset, hseek, hwrite, hflush, rfl⟩, rfl⟩

end Success

/-! ### Calls on a text -/

/-- A call of the tool with an old and a new text, on a file with a text. -/
structure EditCall (oldString newString original : Text) (replaceAll : Bool) where
  kernel : Kernel
  ctx : InvocationContext
  now : DateTime
  input : Json
  files : Files
  path : Text
  fd : OwnedFd
  canonical : Text
  opened : Files
  path_eq : (input.get "path").bind Json.asStr = some path
  old_eq : (input.get "old_string").bind Json.asStr = some oldString
  new_eq : (input.get "new_string").bind Json.asStr = some newString
  flag_eq : flagParameter input "replace_all" = replaceAll
  open_eq : exec (safeOpenForCapability kernel path .readWriteCreate) files
    = (.ok (fd, canonical), opened)
  file_eq : opened.inode fd.ino = some (.regular (asBytes original))
  read_eq : kernel.readToString fd (asBytes original) = .ok original

namespace EditCall

variable {oldString newString original : Text} {replaceAll : Bool}

/-- The outcome of the call. -/
def run (call : EditCall oldString newString original replaceAll) : Except CoreError Json × Files :=
  exec (fileEdit call.kernel call.ctx call.now call.input) call.files

/-- A call with texts of accepted sizes comes to the edit of the open file. -/
theorem run_eq (call : EditCall oldString newString original replaceAll) (hne : oldString ≠ [])
    (hold : utf8Len oldString ≤ maxEditStringBytes)
    (hnew : utf8Len newString ≤ maxEditStringBytes) :
  call.run = exec (fileEditOpened call.kernel call.ctx call.now oldString newString replaceAll
    (call.fd, call.canonical)) call.opened
  := by
  have hsizes : (utf8Len oldString > maxEditStringBytes
      || utf8Len newString > maxEditStringBytes) = false := by
    simp [hold, hnew]
  simp only [run, fileEdit, textParameter, call.path_eq, call.old_eq, call.new_eq, call.flag_eq]
  rw [exec_bind_of_ok (exec_require_some _ _ _), exec_bind_of_ok (exec_require_some _ _ _),
    exec_bind_of_ok (exec_require_some _ _ _), decide_eq_false hne, hsizes,
    exec_bind_of_ok (exec_refuseIf_false _ _), exec_bind_of_ok (exec_refuseIf_false _ _),
    exec_bind_of_ok call.open_eq]

/-- A call with these texts, on a file with the given text, by an agent that may read and write it.
-/
def plain (oldString newString original : Text) (replaceAll : Bool) :
    EditCall oldString newString original replaceAll where
  kernel := { Kernel.single 7 "/data/notes" with readToString := fun _ _ => .ok original }
  ctx :=
    let (registry, h) := CapabilityRegistry.new.insert ⟨0⟩
      (CapabilityToken.issue 0 0 ⟨0⟩ (.fileRead "/data/*") {})
    let (registry, h') := registry.insert ⟨0⟩
      (CapabilityToken.issue 1 0 ⟨0⟩ (.fileWrite "/data/*") {})
    ⟨⟨0⟩, [h, h'], registry⟩
  now := 0
  input := .obj [("path", .str "/data/notes"), ("old_string", .str oldString),
    ("new_string", .str newString), ("replace_all", .bool replaceAll)]
  files := ⟨fun ino => if ino = 7 then some (.regular (asBytes original)) else none, false⟩
  path := "/data/notes"
  fd := ⟨3, 7⟩
  canonical := "/data/notes"
  opened := ⟨fun ino => if ino = 7 then some (.regular (asBytes original)) else none, false⟩
  path_eq := by simp [Json.get, Json.asStr]
  old_eq := by simp [Json.get, Json.asStr, List.lookup_cons]
  new_eq := by simp [Json.get, Json.asStr, List.lookup_cons]
  flag_eq := by simp [flagParameter, Json.get, Json.asBool, List.lookup_cons]
  open_eq := rfl
  file_eq := rfl
  read_eq := rfl

/-- The call replaces a text that is met once, at the first place. -/
theorem run_plain (hne : oldString ≠ []) (hold : utf8Len oldString ≤ maxEditStringBytes)
    (hnew : utf8Len newString ≤ maxEditStringBytes)
    (hsmall : (asBytes original).length ≤ maxFileBytes)
    (hcount : Text.count oldString original = 1) :
  (plain oldString newString original false).run
    = (.ok (editReport "/data/notes" (asBytes original).length
        (utf8Len (editedText oldString newString original false)) 1),
      ((⟨(plain oldString newString original false).opened.inode, true⟩ : Files).set 7
        (.regular [])).set 7 (.regular (asBytes (editedText oldString newString original false))))
  := by
  let call := plain oldString newString original false
  have hfound : Text.count oldString original ≠ 0 := hcount ▸ Nat.one_ne_zero
  rw [call.run_eq hne hold hnew, exec_fileEditOpened_eq_ok_iff hne call.file_eq call.read_eq]
  exact ⟨rfl, rfl, rfl, hsmall, hfound, fun _ => hcount, rfl, rfl, rfl, rfl, rfl, rfl⟩

end EditCall

/-! ### Unambiguous edits -/

/-- The new text and the number are those of an edit of one unambiguous place, or of all
occurrences from left to right. -/
structure FaithfulEdit (oldString newString original : Text) (replaceAll : Bool) (modified : Text)
    (replacements : Nat) : Prop where
  one : replaceAll = false → ∃ before after, original = before ++ oldString ++ after
    ∧ (∀ i, Text.OccursAt oldString original i ↔ i = before.length)
    ∧ modified = before ++ newString ++ after ∧ replacements = 1
  all : replaceAll = true → ∃ pieces, Text.Pieces oldString original pieces
    ∧ modified = newString.intercalate pieces ∧ pieces.length = replacements + 1

/-- A call that succeeds leaves a file with the text, and reports the number, of a faithful edit. -/
def EditCall.Faithful {oldString newString original : Text} {replaceAll : Bool}
    (call : EditCall oldString newString original replaceAll) : Prop :=
  ∀ value after, call.run = (.ok value, after) →
    ∃ modified replacements, after.inode call.fd.ino = some (.regular (asBytes modified))
      ∧ value.get "replacements" = some (jsonNat replacements)
      ∧ FaithfulEdit oldString newString original replaceAll modified replacements

section Faithful

variable {oldString newString original : Text} {replaceAll : Bool}

theorem faithfulEdit_of_separate (hne : oldString ≠ [])
    (hsep : replaceAll = true ∨ Text.Separate oldString original)
    (hfound : Text.count oldString original ≠ 0)
    (huniq : replaceAll = false → Text.count oldString original = 1) :
  FaithfulEdit oldString newString original replaceAll
    (editedText oldString newString original replaceAll)
    (if replaceAll then Text.count oldString original else 1)
  := by
  constructor
  case one =>
    rintro rfl
    obtain ⟨before, after, heq, -, -, hrep⟩ := exists_first_of_count_ne_zero hne hfound
    have hhere : Text.OccursAt oldString original before.length := by
      rw [heq]
      apply occursAt_length
    use before, after, heq
    refine ⟨?_, hrep newString, rfl⟩
    intro i
    constructor
    · intro hocc
      have hsep' := hsep.resolve_left Bool.false_ne_true
      apply hsep'.eq_of_occursAt hne (huniq rfl) hocc hhere
    · rintro rfl
      apply hhere
  case all =>
    rintro rfl
    obtain ⟨pieces, hpiece, hlen, hrep⟩ := exists_pieces hne newString original
    exact ⟨pieces, hpiece, hrep, hlen⟩

/-- Edits of accepted sizes are faithful exactly when all occurrences are to be replaced or the old
text does not occur more than once with all occurrences overlapping each other. -/
theorem faithful_iff_separate (hne : oldString ≠ [])
    (hold : Text.utf8Len oldString ≤ maxEditStringBytes)
    (hnew : Text.utf8Len newString ≤ maxEditStringBytes)
    (hsmall : (asBytes original).length ≤ maxFileBytes) :
  (∀ call : EditCall oldString newString original replaceAll, call.Faithful)
    ↔ replaceAll = true ∨ Text.Separate oldString original
  := by
  constructor
  · intro hfaith
    by_contra hover
    rw [not_or, Bool.not_eq_true] at hover
    obtain ⟨rfl, hover⟩ := hover
    have hcount := Text.count_eq_one_of_not_separate hne hover
    have hrun := EditCall.run_plain hne hold hnew hsmall hcount
    obtain ⟨modified, replacements, -, -, hedit⟩ := hfaith _ _ _ hrun
    obtain ⟨before, after, -, honly, -, -⟩ := hedit.one rfl
    apply hover
    left
    intro i j hi hj
    rw [(honly i).mp hi, (honly j).mp hj]
  · intro hsep call value after hrun
    rw [call.run_eq hne hold hnew,
      exec_fileEditOpened_eq_ok_iff hne call.file_eq call.read_eq] at hrun
    obtain ⟨-, -, -, -, hfound, huniq, -, -, -, -, rfl, rfl⟩ := hrun
    refine ⟨_, _, ?_, ?_, faithfulEdit_of_separate hne hsep hfound huniq⟩
    · simp [Files.set]
    · simp [editReport, Json.get, List.lookup_cons]

end Faithful

/-- A text that occurs once is edited faithfully. -/
theorem faithful_beta :
  "beta".toList ≠ [] ∧ Text.utf8Len "beta".toList ≤ maxEditStringBytes
    ∧ Text.utf8Len "BETA".toList ≤ maxEditStringBytes
    ∧ (asBytes "alpha beta".toList).length ≤ maxFileBytes
    ∧ ((∀ call : EditCall "beta".toList "BETA".toList "alpha beta".toList false, call.Faithful)
      ↔ false = true ∨ Text.Separate "beta".toList "alpha beta".toList)
  := by
  refine ⟨by decide, by decide, by decide, by decide, ?_⟩
  apply faithful_iff_separate <;> decide

/-- In `aaa` the text `aa` occurs at two positions; the edit is accepted and made at the first
one. -/
theorem not_faithful_overlapping :
  ((EditCall.plain "aa".toList "b".toList "aaa".toList false).run.2.inode 7
      = some (.regular (asBytes "ba".toList)))
    ∧ ¬ (EditCall.plain "aa".toList "b".toList "aaa".toList false).Faithful
  := by
  have hrun := @EditCall.run_plain "aa" "b" "aaa" (by decide) (by decide)
    (by decide) (by decide) (by decide)
  rw [hrun]
  use rfl
  intro hfaith
  obtain ⟨modified, replacements, -, -, hedit⟩ := hfaith _ _ hrun
  obtain ⟨before, after, -, honly, -, -⟩ := hedit.one rfl
  have hfirst := (honly 0).mp ⟨"a", rfl⟩
  have hsec := (honly 1).mp ⟨[], rfl⟩
  omega
