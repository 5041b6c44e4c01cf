import AaOS.Tools.FileTools

/-!
# Refused writes

A call of a file tool is refused when it ends with a denied capability, or with another error
before its write step.  A refused edit or append changes no file; a refused write empties the file
that it opened with `O_TRUNC`.
-/

open Eff AccessMode Stable Files

def CoreError.isDenied : CoreError → Bool
  | .capabilityDenied _ _ _ => true
  | _ => false

namespace Files

def Untouched (before after : Files) : Prop :=
  ∀ ino inode, before.inode ino = some inode → after.inode ino = some inode

instance : Std.Refl Untouched where
  refl _ _ _ h := h

instance : IsTrans Files Untouched where
  trans _ _ _ hab hbc ino inode h := hbc ino inode (hab ino inode h)

/-- The write step, once begun, is not taken back. -/
def StaysWriting (before after : Files) : Prop :=
  before.writing = true → after.writing = true

instance : Std.Refl StaysWriting where
  refl _ h := h

instance : IsTrans Files StaysWriting where
  trans _ _ _ hab hbc h := hbc (hab h)

theorem untouched_set_of_none {files : Files} {ino : Ino} (h : files.inode ino = none)
    (inode : Inode) :
  Untouched files (files.set ino inode)
  := by
  intro ino' inode' h'
  have hne : ino' ≠ ino := by
    rintro rfl
    rw [h] at h'
    cases h'
  simpa [set, Function.update_of_ne hne] using h'

theorem untouched_makeDirs (files : Files) (created : List Ino) :
  Untouched files (files.makeDirs created)
  := by
  intro ino inode h
  simp [makeDirs, h]

theorem makeDirs_regular (files : Files) (created : List Ino) (ino : Ino) (bytes : List UInt8) :
  (files.makeDirs created).inode ino = some (.regular bytes)
    ↔ files.inode ino = some (.regular bytes)
  := by
  simp only [makeDirs]
  split_ifs with h
  · simp [h.1]
  · rfl

theorem untouched_opened {flags : OFlag} (h : flags.trunc = false) (files : Files) (fd : OwnedFd) :
  Untouched files (files.opened flags fd).2
  := by
  unfold opened
  split
  · rw [h]
    apply refl_of Untouched
  · apply refl_of Untouched
  · rename_i hnone
    split_ifs
    · exact untouched_set_of_none hnone _
    · apply refl_of Untouched

theorem untouched_opened_iff {flags : OFlag} (h : flags.trunc = true) (files : Files)
    (fd : OwnedFd) :
  Untouched files (files.opened flags fd).2
    ↔ ∀ bytes, files.inode fd.ino = some (.regular bytes) → bytes = []
  := by
  unfold opened
  split
  · rename_i bytes hreg
    rw [h, hreg]
    constructor
    · intro hsame bytes' hbytes'
      have hset := hsame fd.ino (.regular bytes) hreg
      simp only [set, if_true, Function.update_self, Option.some.injEq, Inode.regular.injEq]
        at hset hbytes'
      rw [← hbytes', ← hset]
    · intro hnil ino inode hinode
      by_cases hino : ino = fd.ino
      · rw [hino, hreg, hnil bytes rfl] at hinode
        simpa [set, hino] using hinode
      · simpa [set, Function.update_of_ne hino] using hinode
  · rename_i hnot hinode
    constructor
    · intro _ bytes hbytes
      rw [hbytes] at hinode
      exact (hnot bytes (Option.some.inj hinode).symm).elim
    · intro _
      apply refl_of Untouched
  · rename_i hnone
    constructor
    · intro _ bytes hbytes
      rw [hnone] at hbytes
      cases hbytes
    · intro _
      split_ifs
      · exact untouched_set_of_none hnone _
      · apply refl_of Untouched

@[simp]
theorem writing_opened (flags : OFlag) (files : Files) (fd : OwnedFd) :
  (files.opened flags fd).2.writing = files.writing
  := by
  unfold opened
  split
  · split_ifs <;> rfl
  · rfl
  · split_ifs <;> rfl

@[simp]
theorem writing_write (files : Files) (ino : Ino) (offset : Nat) (bytes : List UInt8) :
  (files.write ino offset bytes).writing = files.writing
  := by
  unfold write
  split <;> rfl

end Files

/-! ### Programs of the write step -/

/-- A program that does not take back the write step and denies no capability. -/
structure WriteStep {α : Type} (m : ToolM α) : Prop where
  stays : Stable Files.StaysWriting m
  fails : FailsWith (fun e => e.isDenied = false) m

namespace WriteStep

variable {α β : Type}

theorem of_pure (a : α) :
  WriteStep (pure a)
  := ⟨pure a, FailsWith.pure a⟩

theorem bind {m : ToolM α} {f : α → ToolM β} (hm : WriteStep m) (hf : ∀ a, WriteStep (f a)) :
  WriteStep (m >>= f)
  := by
  constructor
  · exact Stable.bind hm.stays (fun a => (hf a).stays)
  · exact FailsWith.bind hm.fails (fun a => (hf a).fails)

theorem of_callOrFail (failure : Option Text) (message : Text) :
  WriteStep (callOrFail failure message)
  := by
  constructor
  · apply Stable.check
  · apply FailsWith.check
    intro e he
    obtain ⟨text, -, rfl⟩ := Option.map_eq_some_iff.mp he
    rfl

theorem of_truncate (ino : Ino) :
  WriteStep (update fun files => files.set ino (.regular []))
  := by
  constructor
  · apply Stable.ofStep
    intro files hwrite
    exact hwrite
  · apply FailsWith.update

theorem of_writeAll (kernel : Kernel) (fd : OwnedFd) (offset : Files → Nat)
    (bytes : List UInt8) (message : Text) :
  WriteStep (writeAll kernel fd offset bytes message)
  := by
  constructor
  · apply Stable.ofStep
    intro files hwrite
    split <;> simpa using hwrite
  · apply FailsWith.ofStep
    intro files e h
    split at h
    · cases h
    · cases h
      rfl

end WriteStep

/-! ### Programs whose refusals are harmless -/

/-- When the program ends with a denied capability or another error before the write step, the files
are as they were. -/
def HarmlessRefusal {α : Type} (m : ToolM α) (files : Files) : Prop :=
  ∀ e after, exec m files = (.error e, after) →
    e.isDenied = true ∨ after.writing = false → Files.Untouched files after

/-- The program does not end with a denied capability nor with another error before the write step.
-/
def NeverRefuses {α : Type} (m : ToolM α) (files : Files) : Prop :=
  ∀ e after, exec m files = (.error e, after) →
    ¬ (e.isDenied = true ∨ after.writing = false)

namespace HarmlessRefusal

variable {α β : Type}

variable {m : ToolM α} {files : Files}

theorem bind {f : α → ToolM β} (hm : Stable Files.Untouched m)
    (hf : ∀ a after, exec m files = (.ok a, after) → HarmlessRefusal (f a) after) :
  HarmlessRefusal (m >>= f) files
  := by
  have hs := hm files
  rcases hexec : exec m files with ⟨e | a, t⟩
  · intro e' after hexec' _
    rw [exec_bind_of_error hexec] at hexec'
    cases hexec'
    rwa [hexec] at hs
  · intro e' after hexec' href
    rw [exec_bind_of_ok hexec] at hexec'
    rw [hexec] at hs
    exact trans_of Files.Untouched hs (hf a t hexec e' after hexec' href)

theorem of_exec {after : Files} {e : CoreError} (hexec : exec m files = (.error e, after))
    (h : Files.Untouched files after) :
  HarmlessRefusal m files
  := by
  intro e' after' hexec' _
  rw [hexec] at hexec'
  cases hexec'
  exact h

theorem of_neverRefuses (h : NeverRefuses m files) :
  HarmlessRefusal m files
  := by
  intro e after hexec href
  exact (h e after hexec href).elim

end HarmlessRefusal

theorem WriteStep.neverRefuses {α : Type} {m : ToolM α} (hm : WriteStep m) (files : Files) :
  NeverRefuses (beginWrite >>= fun _ => m) files
  := by
  intro e after hexec href
  have hbegin : exec beginWrite files = (.ok (), { files with writing := true }) := rfl
  rw [exec_bind_of_ok hbegin] at hexec
  have hs := hm.stays { files with writing := true } rfl
  have he := hm.fails { files with writing := true } e
  rw [hexec] at hs he
  obtain hdeny | hwrite := href
  · rw [he rfl] at hdeny
    cases hdeny
  · rw [hs] at hwrite
    cases hwrite

/-! ### The steps of the tools -/

section Steps

variable (kernel : Kernel) (ctx : InvocationContext) (now : DateTime)

variable (path : Text)

theorem stable_createParent :
  Stable Files.Untouched (createParent kernel path)
  := by
  unfold createParent
  cases pathParent path with
  | none => apply Stable.pure
  | some parent =>
    apply Stable.ofStep
    intro files
    simp only
    split <;> apply untouched_makeDirs

def fallbackTarget (path : Text) (flags : OFlag) : Option OwnedFd :=
  match kernel.openPath path flags with
  | .ok fd => some fd
  | .error _ => none

def openTarget (path : Text) (flags : OFlag) : Option OwnedFd :=
  match kernel.openat2 path flags.forOpenat2 with
  | .ok fd => some fd
  | .error .enosys | .error .eperm => fallbackTarget kernel path flags
  | .error _ => none

/-- The program opens the descriptor if there is one, with the effect of the flags, and otherwise
fails without effect. -/
def OpensTo (m : ToolM OwnedFd) (target : Option OwnedFd) (flags : OFlag) (files : Files) : Prop :=
  (∃ fd, target = some fd ∧ exec m files = (.ok fd, (files.opened flags fd).2))
    ∨ (target = none ∧ ∃ e, exec m files = (.error e, files))

variable {flags : OFlag}

theorem exec_openCall_ok (h : flags.creat = true) (fd : OwnedFd) (files : Files) :
  exec (openCall flags (.ok fd)) files = (.ok (.ok fd), (files.opened flags fd).2)
  := by
  have hok : (files.opened flags fd).1 = .ok fd := by
    unfold Files.opened
    split <;> simp [h]
  simp [openCall, hok]

theorem exec_openCall_error (flags : OFlag) (e : Errno) (files : Files) :
  exec (openCall flags (.error e)) files = (.ok (.error e), files)
  := rfl

theorem opensTo_openFallback (h : flags.creat = true) (files : Files) :
  OpensTo (openFallback kernel path flags) (fallbackTarget kernel path flags) flags files
  := by
  unfold openFallback fallbackTarget
  cases kernel.openPath path flags with
  | ok fd =>
    left
    use fd, rfl
    rw [exec_bind_of_ok (exec_openCall_ok h fd files)]
    rfl
  | error e =>
    right
    use rfl, openError path e
    rw [exec_bind_of_ok (exec_openCall_error flags e files)]
    rfl

theorem opensTo_openDescriptor (h : flags.creat = true) (files : Files) :
  OpensTo (openDescriptor kernel path flags) (openTarget kernel path flags) flags files
  := by
  have hflags : flags.forOpenat2.creat = true := h
  unfold openDescriptor openTarget
  cases kernel.openat2 path flags.forOpenat2 with
  | ok fd =>
    left
    use fd, rfl
    rw [exec_bind_of_ok (exec_openCall_ok hflags fd files)]
    rfl
  | error e =>
    unfold OpensTo
    rw [exec_bind_of_ok (exec_openCall_error flags.forOpenat2 e files)]
    cases e with
    | enosys | eperm => exact opensTo_openFallback kernel path h files
    | eloop | enoent | eacces | other message => exact .inr ⟨rfl, _, rfl⟩

theorem stable_safeOpenForCapability {mode : AccessMode} (hcreate : mode.flags.creat = true)
    (htrunc : mode.flags.trunc = false) :
  Stable Files.Untouched (safeOpenForCapability kernel path mode)
  := by
  unfold safeOpenForCapability
  apply Stable.bind
  · intro files
    obtain ⟨fd, -, hexec⟩ | ⟨-, e, hexec⟩ := opensTo_openDescriptor kernel path hcreate files
    · rw [hexec]
      exact untouched_opened htrunc files fd
    · rw [hexec]
      apply refl_of Files.Untouched
  · intro fd
    split
    · apply Stable.pure
    · apply Stable.throw

/-! ### The tools on open files -/

variable (content : Text) (append : Bool) (opened : OwnedFd × Text)

theorem neverRefuses_fileWriteOpened (h : ctx.permitsCanonicalFile now .write opened.2 = true)
    (files : Files) :
  NeverRefuses (fileWriteOpened kernel ctx now content append opened) files
  := by
  unfold fileWriteOpened NeverRefuses
  dsimp only
  rw [h, Bool.not_true, exec_bind_of_ok (exec_refuseIf_false _ _)]
  apply WriteStep.neverRefuses
  apply WriteStep.bind (WriteStep.of_writeAll kernel _ _ _ _)
  intro _
  apply WriteStep.bind (WriteStep.of_callOrFail _ _)
  intro _
  apply WriteStep.of_pure

theorem exec_fileWriteOpened (h : ctx.permitsCanonicalFile now .write opened.2 = false)
    (files : Files) :
  ∃ e, exec (fileWriteOpened kernel ctx now content append opened) files = (.error e, files)
  := by
  unfold fileWriteOpened
  dsimp only
  rw [h]
  exact ⟨_, exec_bind_of_error (exec_refuseIf_true _ _)⟩

theorem harmlessRefusal_fileWriteOpened (files : Files) :
  HarmlessRefusal (fileWriteOpened kernel ctx now content append opened) files
  := by
  cases h : ctx.permitsCanonicalFile now .write opened.2 with
  | true =>
    apply HarmlessRefusal.of_neverRefuses
    exact neverRefuses_fileWriteOpened kernel ctx now content append opened h files
  | false =>
    obtain ⟨e, hexec⟩ := exec_fileWriteOpened kernel ctx now content append opened h files
    exact HarmlessRefusal.of_exec hexec (refl_of Files.Untouched files)

variable (fd : OwnedFd)

theorem harmlessRefusal_rewriteFile {α : Type} (modified : Text) (result : α) (files : Files) :
  HarmlessRefusal (rewriteFile kernel fd modified >>= fun _ => pure result) files
  := by
  unfold rewriteFile
  rw [bind_assoc]
  apply HarmlessRefusal.of_neverRefuses
  apply WriteStep.neverRefuses
  apply WriteStep.bind
  · apply WriteStep.bind (WriteStep.of_callOrFail _ _)
    intro _
    apply WriteStep.bind (WriteStep.of_truncate fd.ino)
    intro _
    apply WriteStep.bind (WriteStep.of_callOrFail _ _)
    intro _
    apply WriteStep.bind (WriteStep.of_writeAll kernel _ _ _ _)
    intro _
    apply WriteStep.of_callOrFail
  · intro _
    apply WriteStep.of_pure

theorem stable_checkEditable (canonical : Text) :
  Stable Files.Untouched (checkEditable kernel ctx now fd canonical)
  := by
  unfold checkEditable
  refine bind (refuseIf _ _) fun _ => ?_
  refine bind (refuseIf _ _) fun _ => ?_
  refine bind (check _) fun _ => ?_
  refine bind (query _) fun isFile => ?_
  refine bind (refuseIf _ _) fun _ => ?_
  refine bind (query _) fun len => ?_
  refine bind (refuseIf _ _) fun _ => ?_
  apply Stable.pure

theorem stable_readToString :
  Stable Files.Untouched (readToString kernel fd)
  := by
  unfold readToString
  refine bind (query _) fun bytes => ?_
  split
  · apply Stable.pure
  · apply Stable.throw

theorem stable_checkMatches (canonical original oldString : Text) (replaceAll : Bool) :
  Stable Files.Untouched (checkMatches canonical original oldString replaceAll)
  := by
  unfold checkMatches
  dsimp only
  refine bind (refuseIf _ _) fun _ => ?_
  refine bind (refuseIf _ _) fun _ => ?_
  apply Stable.pure

theorem harmlessRefusal_fileEditOpened (oldString newString : Text) (replaceAll : Bool)
    (opened : OwnedFd × Text) (files : Files) :
  HarmlessRefusal (fileEditOpened kernel ctx now oldString newString replaceAll opened) files
  := by
  unfold fileEditOpened
  apply HarmlessRefusal.bind (stable_checkEditable kernel ctx now _ _)
  intro bytesBefore files _
  apply HarmlessRefusal.bind (stable_readToString kernel _)
  intro original files _
  apply HarmlessRefusal.bind (stable_checkMatches _ _ _ _)
  intro matchCount files _
  apply harmlessRefusal_rewriteFile

variable (input : Json)

theorem harmlessRefusal_fileEdit (files : Files) :
  HarmlessRefusal (fileEdit kernel ctx now input) files
  := by
  unfold fileEdit
  apply HarmlessRefusal.bind (require _ _)
  intro path files _
  apply HarmlessRefusal.bind (require _ _)
  intro oldString files _
  apply HarmlessRefusal.bind (require _ _)
  intro newString files _
  apply HarmlessRefusal.bind (refuseIf _ _)
  intro _ files _
  apply HarmlessRefusal.bind (refuseIf _ _)
  intro _ files _
  apply HarmlessRefusal.bind (stable_safeOpenForCapability kernel path rfl rfl)
  intro opened files _
  apply harmlessRefusal_fileEditOpened

/-! ### Writes that do not append -/

def writeRequest : Option (Text × Text × Bool) :=
  match (input.get "path").bind Json.asStr, (input.get "content").bind Json.asStr with
  | some path, some content =>
    if Text.utf8Len content > maxWriteBytes then none
    else some (path, content, flagParameter input "append")
  | _, _ => none

def parentCreated (path : Text) : Bool :=
  match pathParent path with
  | some parent => (kernel.createDirAll parent).2.isNone
  | none => true

def descriptorPermitted (fd : OwnedFd) : Bool :=
  match kernel.readlinkat fd with
  | .ok canonical => ctx.permitsCanonicalFile now .write canonical
  | .error _ => false

/-- The call writes, without appending, to a regular file with content that may be opened, but is
not permitted. -/
def EmptiesUnpermitted (files : Files) : Prop :=
  ∃ path content fd bytes, writeRequest input = some (path, content, false)
    ∧ parentCreated kernel path = true
    ∧ openTarget kernel path AccessMode.writeCreateTrunc.flags = some fd
    ∧ files.inode fd.ino = some (.regular bytes) ∧ bytes ≠ []
    ∧ descriptorPermitted kernel ctx now fd = false

theorem exec_fileWrite_of_none (h : writeRequest input = none) (files : Files) :
  ∃ e, exec (fileWrite kernel ctx now input) files = (.error e, files)
  := by
  unfold writeRequest at h
  unfold fileWrite textParameter
  split at h
  · rename_i path content hpath hcon
    rw [hpath, hcon, exec_bind_of_ok (exec_require_some _ _ _),
      exec_bind_of_ok (exec_require_some _ _ _)]
    have hsize : decide (Text.utf8Len content > maxWriteBytes) = true := by
      by_contra hsize
      simp only [decide_eq_true_eq] at hsize
      simp [hsize] at h
    dsimp only
    rw [hsize]
    exact ⟨_, exec_bind_of_error (exec_refuseIf_true _ _)⟩
  · rename_i hnot
    cases hpath : (input.get "path").bind Json.asStr with
    | none => exact ⟨_, exec_bind_of_error (exec_require_none _ _)⟩
    | some path =>
      rw [exec_bind_of_ok (exec_require_some _ _ _)]
      cases hcon : (input.get "content").bind Json.asStr with
      | none => exact ⟨_, exec_bind_of_error (exec_require_none _ _)⟩
      | some content => exact (hnot path content hpath hcon).elim

theorem exec_fileWrite_of_some {path content : Text} {append : Bool}
    (h : writeRequest input = some (path, content, append)) (files : Files) :
  exec (fileWrite kernel ctx now input) files
    = exec (createParent kernel path >>= fun _ =>
        safeOpenForCapability kernel path (writeMode append)
          >>= fileWriteOpened kernel ctx now content append) files
  := by
  unfold writeRequest at h
  unfold fileWrite textParameter
  split at h
  · rename_i path' content' hpath hcon
    rw [hpath, hcon, exec_bind_of_ok (exec_require_some _ _ _),
      exec_bind_of_ok (exec_require_some _ _ _)]
    split_ifs at h with hsize
    obtain ⟨rfl, rfl, rfl⟩ := by simpa using h
    have href : decide (Text.utf8Len content' > maxWriteBytes) = false := by
      simpa using hsize
    dsimp only
    rw [href]
    exact exec_bind_of_ok (exec_refuseIf_false _ _)
  · cases h

theorem exec_createParent (files : Files) :
  ∃ created,
    (parentCreated kernel path = true
      ∧ exec (createParent kernel path) files = (.ok (), files.makeDirs created))
    ∨ (parentCreated kernel path = false
      ∧ ∃ e, exec (createParent kernel path) files = (.error e, files.makeDirs created))
  := by
  unfold parentCreated createParent
  cases pathParent path with
  | none =>
    use []
    left
    simp [makeDirs]
  | some parent =>
    use (kernel.createDirAll parent).1
    cases hfail : (kernel.createDirAll parent).2 with
    | none =>
      left
      simp [createDirAll, hfail]
    | some e =>
      right
      simp [createDirAll, hfail]

section Opening

variable {path : Text} {mode : AccessMode} {fd : OwnedFd}

variable (hcreate : mode.flags.creat = true)

include hcreate

theorem exec_safeOpen_of_target (htar : openTarget kernel path mode.flags = some fd)
    (files : Files) :
  ((∃ e, kernel.readlinkat fd = .error e)
      ∧ ∃ e, exec (safeOpenForCapability kernel path mode) files
        = (.error e, (files.opened mode.flags fd).2))
    ∨ ∃ canonical, kernel.readlinkat fd = .ok canonical
      ∧ exec (safeOpenForCapability kernel path mode) files
        = (.ok (fd, canonical), (files.opened mode.flags fd).2)
  := by
  obtain ⟨fd', hfd', hexec⟩ | ⟨hnone, -⟩ := opensTo_openDescriptor kernel path hcreate files
  · obtain rfl := Option.some.inj (htar.symm.trans hfd')
    unfold safeOpenForCapability
    rw [exec_bind_of_ok hexec]
    cases hlink : kernel.readlinkat fd with
    | error e => exact .inl ⟨⟨e, rfl⟩, _, rfl⟩
    | ok canonical => exact .inr ⟨canonical, rfl, rfl⟩
  · rw [htar] at hnone
    cases hnone

theorem exec_write_of_not_permitted (htar : openTarget kernel path mode.flags = some fd)
    (hpermt : descriptorPermitted kernel ctx now fd = false) (content : Text) (append : Bool)
    (files : Files) :
  ∃ e, exec (safeOpenForCapability kernel path mode
        >>= fileWriteOpened kernel ctx now content append) files
      = (.error e, (files.opened mode.flags fd).2)
  := by
  obtain ⟨-, e, hexec⟩ | ⟨canonical, hlink, hexec⟩ :=
    exec_safeOpen_of_target kernel hcreate htar files
  · exact ⟨e, exec_bind_of_error hexec⟩
  · rw [exec_bind_of_ok hexec]
    rw [descriptorPermitted, hlink] at hpermt
    exact exec_fileWriteOpened kernel ctx now content append (fd, canonical) hpermt _

theorem neverRefuses_write_of_permitted (htar : openTarget kernel path mode.flags = some fd)
    (hpermt : descriptorPermitted kernel ctx now fd = true) (content : Text) (append : Bool)
    (files : Files) :
  NeverRefuses (safeOpenForCapability kernel path mode
    >>= fileWriteOpened kernel ctx now content append) files
  := by
  rw [descriptorPermitted] at hpermt
  obtain ⟨⟨e, hlink⟩, -⟩ | ⟨canonical, hlink, hexec⟩ :=
    exec_safeOpen_of_target kernel hcreate htar files
  · rw [hlink] at hpermt
    cases hpermt
  · rw [NeverRefuses, exec_bind_of_ok hexec]
    rw [hlink] at hpermt
    exact neverRefuses_fileWriteOpened kernel ctx now content append (fd, canonical) hpermt _

theorem exec_write_of_no_target (htar : openTarget kernel path mode.flags = none) (content : Text)
    (append : Bool) (files : Files) :
  ∃ e, exec (safeOpenForCapability kernel path mode
    >>= fileWriteOpened kernel ctx now content append) files = (.error e, files)
  := by
  obtain ⟨fd', hfd', -⟩ | ⟨-, e, hexec⟩ := opensTo_openDescriptor kernel path hcreate files
  · rw [htar] at hfd'
    cases hfd'
  · use e
    unfold safeOpenForCapability
    rw [bind_assoc, exec_bind_of_error hexec]

end Opening

theorem not_harmlessRefusal_of_empties {files : Files} (hwrit : files.writing = false)
    (h : EmptiesUnpermitted kernel ctx now input files) :
  ¬ HarmlessRefusal (fileWrite kernel ctx now input) files
  := by
  intro hhar
  obtain ⟨path, content, fd, bytes, hreq, hpar, htar, hbytes, hne, hpermt⟩ := h
  obtain ⟨created, ⟨-, hexec⟩ | ⟨hnot, -⟩⟩ := exec_createParent kernel path files
  · have hcreate : writeCreateTrunc.flags.creat = true := rfl
    obtain ⟨e, hopen⟩ := exec_write_of_not_permitted kernel ctx now hcreate htar hpermt
      content false (files.makeDirs created)
    have hwrite := exec_fileWrite_of_some kernel ctx now input hreq files
    rw [exec_bind_of_ok hexec] at hwrite
    have href : ((files.makeDirs created).opened writeCreateTrunc.flags fd).2.writing
        = false := by
      rwa [writing_opened]
    have hsame := hhar _ _ (hwrite.trans hopen) (.inr href)
    have hreg := hsame fd.ino _ hbytes
    have hbytes' := (makeDirs_regular files created fd.ino bytes).mpr hbytes
    have hnil : [] = bytes := by
      simpa [Files.opened, hbytes', flags, Files.set] using hreg
    exact hne hnil.symm
  · rw [hpar] at hnot
    cases hnot

theorem harmlessRefusal_of_not_empties {files : Files}
    (h : ¬ EmptiesUnpermitted kernel ctx now input files) :
  HarmlessRefusal (fileWrite kernel ctx now input) files
  := by
  cases hreq : writeRequest input with
  | none =>
    obtain ⟨e, hexec⟩ := exec_fileWrite_of_none kernel ctx now input hreq files
    exact HarmlessRefusal.of_exec hexec (refl_of Files.Untouched files)
  | some request =>
    obtain ⟨path, content, append⟩ := request
    unfold HarmlessRefusal
    rw [exec_fileWrite_of_some kernel ctx now input hreq files]
    apply HarmlessRefusal.bind (stable_createParent kernel path)
    intro _ after hpar
    cases append with
    | true =>
      apply HarmlessRefusal.bind (stable_safeOpenForCapability kernel path rfl rfl)
      intro opened after' _
      apply harmlessRefusal_fileWriteOpened
    | false =>
      have hcreate : writeCreateTrunc.flags.creat = true := rfl
      cases htar : openTarget kernel path writeCreateTrunc.flags with
      | none =>
        obtain ⟨e, hexec⟩ := exec_write_of_no_target kernel ctx now hcreate htar content false after
        exact HarmlessRefusal.of_exec hexec (refl_of Files.Untouched after)
      | some fd =>
        cases hpermt : descriptorPermitted kernel ctx now fd with
        | true =>
          apply HarmlessRefusal.of_neverRefuses
          exact neverRefuses_write_of_permitted kernel ctx now hcreate htar hpermt
            content false after
        | false =>
          obtain ⟨e, hexec⟩ := exec_write_of_not_permitted kernel ctx now hcreate htar hpermt
            content false after
          apply HarmlessRefusal.of_exec hexec
          rw [untouched_opened_iff rfl]
          intro bytes hbytes
          by_contra hne
          obtain ⟨created, ⟨hcreated, hexec'⟩ | ⟨-, e', hexec'⟩⟩ :=
            exec_createParent kernel path files
          · rw [hpar] at hexec'
            cases hexec'
            rw [makeDirs_regular] at hbytes
            exact h ⟨path, content, fd, bytes, hreq, hcreated, htar, hbytes, hne, hpermt⟩
          · rw [hpar] at hexec'
            cases hexec'

end Steps

/-! ### Both tools -/

/-- The tools that write files. -/
inductive WritingTool where
  | fileWrite
  | fileEdit
deriving DecidableEq

def invokeWriting (tool : WritingTool) (kernel : Kernel) (ctx : InvocationContext)
    (now : DateTime) (input : Json) : ToolM Json :=
  match tool with
  | .fileWrite => fileWrite kernel ctx now input
  | .fileEdit => fileEdit kernel ctx now input

/-- A refused call leaves every file as it was exactly when it does not empty a file that is not
permitted. -/
theorem harmlessRefusal_iff (tool : WritingTool) (kernel : Kernel) (ctx : InvocationContext)
    (now : DateTime) (input : Json) (inode : Ino → Option Inode) :
  HarmlessRefusal (invokeWriting tool kernel ctx now input) ⟨inode, false⟩
    ↔ ¬ (tool = .fileWrite ∧ EmptiesUnpermitted kernel ctx now input ⟨inode, false⟩)
  := by
  cases tool with
  | fileWrite =>
    constructor
    · rintro hhar ⟨-, hemp⟩
      exact not_harmlessRefusal_of_empties kernel ctx now input rfl hemp hhar
    · intro h
      apply harmlessRefusal_of_not_empties
      intro hemp
      exact h ⟨rfl, hemp⟩
  | fileEdit =>
    constructor
    · rintro - ⟨h, -⟩
      cases h
    · intro _
      apply harmlessRefusal_fileEdit

/-- An agent without tokens writes to a file: the write is denied and the file is
empty. -/
theorem not_harmlessRefusal_without_tokens :
  ¬ HarmlessRefusal
      (invokeWriting .fileWrite (Kernel.single 7 "/data/report".toList)
        ⟨⟨1⟩, [], CapabilityRegistry.new⟩ 0
        (.obj [("content".toList, .str "x".toList), ("path".toList, .str "/data/report".toList)]))
      ⟨fun ino => if ino = 7 then some (.regular [104, 105]) else none, false⟩
  := by
  apply not_harmlessRefusal_of_empties
  · rfl
  · use "/data/report", "x", ⟨3, 7⟩, [104, 105]
    refine ⟨by decide, by decide, rfl, by simp, by simp, by decide⟩
