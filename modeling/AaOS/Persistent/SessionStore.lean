import AaOS.Executor.Loop
import AaOS.Lib.LineLog

/-!
# The stores of sessions

`aaos-runtime/src/session.rs` has two stores for the histories of agents: one in memory, and one
with a file for each agent and a message on every line, which is replaced by renaming a temporary
file.  The codec of `serde_json` and the failures of the file system are parameters.
-/

open List

/-- The contents of the files in a directory. -/
abbrev SessionFiles : Type := Text → Option (List UInt8)

/-! ### Files of messages -/

/-- What fails when a session is loaded; reading may fail after some of the lines. -/
inductive LoadFault where
  | openFile (message : Text)
  | readLine (linesRead : Nat) (message : Text)

/-- What fails when messages are written to a file; some of the bytes may have been written. -/
inductive WriteFault where
  | openFile (message : Text)
  | writeLine (written : Nat) (message : Text)

/-- What fails when a session is replaced; after a failed rename the temporary file is removed if
possible. -/
inductive ReplaceFault where
  | writing (fault : WriteFault)
  | sync (message : Text)
  | rename (removed : Bool) (message : Text)

/-- The store with a file for each agent. -/
structure JsonlSessionStore where
  dataDir : Text
  uuidText : Uuid → Text
  uuidText_injective : Function.Injective uuidText
  codec : LineCodec Message

namespace JsonlSessionStore

variable (store : JsonlSessionStore)

def nameFor (agentId : AgentId) : Text := store.uuidText agentId.uuid ++ ".jsonl"

def tempFor (agentId : AgentId) : Text := store.uuidText agentId.uuid ++ ".jsonl.tmp"

def display (name : Text) : Text := store.dataDir ++ '/' :: name

def loadFile (bytes : List UInt8) : Except CoreError (List Message) :=
  match store.codec.read bytes with
  | .ok messages => .ok messages
  | .error .notUtf8 => .error (.ipc "read error: stream did not contain valid UTF-8")
  | .error (.parse message) => .error (.json message)

def load (files : SessionFiles) (agentId : AgentId) (fault : Option LoadFault) :
    Except CoreError (List Message) :=
  match files (store.nameFor agentId), fault with
  | none, _ => .ok []
  | some _, some (.openFile message) =>
    .error (.ipc ("failed to open session file: " ++ message))
  | some bytes, some (.readLine linesRead message) =>
    match store.codec.readLines ((LineLog.lines bytes).take linesRead) with
    | .ok _ => .error (.ipc ("read error: " ++ message))
    | .error .notUtf8 => .error (.ipc "read error: stream did not contain valid UTF-8")
    | .error (.parse message) => .error (.json message)
  | some bytes, none => store.loadFile bytes

def writeLines (failure : Text) (fault : Option (Nat × Text)) (messages : List Message) :
    Except CoreError Unit × List UInt8 :=
  let (result, bytes) := store.codec.write messages
  match fault with
  | some (written, message) =>
    if written < bytes.length then
      (.error (.ipc (failure ++ message)), bytes.take written)
    else (result.mapError .json, bytes)
  | none => (result.mapError .json, bytes)

/-- Append messages to the session of an agent. -/
def append (files : SessionFiles) (agentId : AgentId) (messages : List Message)
    (fault : Option WriteFault) : Except CoreError Unit × SessionFiles :=
  if messages.isEmpty then (.ok (), files)
  else
    let name := store.nameFor agentId
    let write fault :=
      let (result, bytes) :=
        store.writeLines "failed to write session line: " fault messages
      (result, Function.update files name (some ((files name).getD [] ++ bytes)))
    match fault with
    | some (.openFile message) =>
      (.error (.ipc ("failed to open session file for append: " ++ message)), files)
    | some (.writeLine written message) => write (some (written, message))
    | none => write none

def clear (files : SessionFiles) (agentId : AgentId) (fault : Option Text) :
    Except CoreError Unit × SessionFiles :=
  let name := store.nameFor agentId
  match files name, fault with
  | some _, some message =>
    (.error (.ipc ("failed to remove session file: " ++ message)), files)
  | _, _ => (.ok (), Function.update files name none)

def commit (files : SessionFiles) (agentId : AgentId) : SessionFiles :=
  let temp := store.tempFor agentId
  Function.update (Function.update files (store.nameFor agentId) (files temp)) temp none

/-- Replace the session of an agent. -/
def replace (files : SessionFiles) (agentId : AgentId) (messages : List Message)
    (fault : Option ReplaceFault) : Except CoreError Unit × SessionFiles :=
  let temp := store.tempFor agentId
  let write fault :=
    let (result, bytes) :=
      store.writeLines "failed to write session line to temp: " fault messages
    (result, Function.update files temp (some bytes))
  match fault with
  | some (.writing (.openFile message)) =>
    (.error (.ipc ("failed to open temp session file " ++ store.display temp
      ++ ": " ++ message)), files)
  | some (.writing (.writeLine written message)) =>
    match write (some (written, message)) with
    | (.error e, files) => (.error e, files)
    | (.ok (), files) => (.ok (), store.commit files agentId)
  | some (.sync message) =>
    match write none with
    | (.error e, files) => (.error e, files)
    | (.ok (), files) =>
      (.error (.ipc ("failed to fsync temp session file: " ++ message)), files)
  | some (.rename removed message) =>
    match write none with
    | (.error e, files) => (.error e, files)
    | (.ok (), files) =>
      (.error (.ipc ("failed to atomically rename " ++ store.display temp
          ++ " to " ++ store.display (store.nameFor agentId) ++ ": "
          ++ message)),
        if removed then Function.update files temp none else files)
  | none =>
    match write none with
    | (.error e, files) => (.error e, files)
    | (.ok (), files) => (.ok (), store.commit files agentId)

end JsonlSessionStore

/-! ### Sessions in memory -/

/-- The store with the messages of each agent in memory, under the texts of identifiers. -/
structure InMemorySessionStore where
  store : Text → Option (List Message) := fun _ => none

namespace InMemorySessionStore

variable (memory : InMemorySessionStore) (key : Text)

def load : List Message := (memory.store key).getD []

/-- Append messages to the session of an agent. -/
def append (messages : List Message) : InMemorySessionStore :=
  ⟨Function.update memory.store key (some (memory.load key ++ messages))⟩

def clear : InMemorySessionStore := ⟨Function.update memory.store key none⟩

/-- Replacing is clearing and appending when a store does nothing else. -/
def replace (messages : List Message) : InMemorySessionStore :=
  (memory.clear key).append key messages

end InMemorySessionStore

/-! ### Operations -/

/-- An operation on a store; a replacement may fail. -/
inductive SessionOp where
  | load (agentId : AgentId)
  | append (agentId : AgentId) (messages : List Message)
  | replace (agentId : AgentId) (messages : List Message) (fault : Option ReplaceFault)
  | clear (agentId : AgentId)

inductive SessionReply where
  | loaded (messages : List Message)
  | done
  | failed (e : CoreError)

namespace SessionReply

def ofLoad : Except CoreError (List Message) → SessionReply
  | .ok messages => loaded messages
  | .error e => failed e

def ofUnit : Except CoreError Unit → SessionReply
  | .ok () => done
  | .error e => failed e

end SessionReply

/-- What the operations return, one after the other. -/
def repliesOf {σ : Type} (exec : σ → SessionOp → SessionReply × σ) :
    σ → List SessionOp → List SessionReply
  | _, [] => []
  | s, op :: ops => (exec s op).1 :: repliesOf exec (exec s op).2 ops

/-- An operation on the files. -/
def JsonlSessionStore.exec (store : JsonlSessionStore) (files : SessionFiles) :
    SessionOp → SessionReply × SessionFiles
  | .load agentId => (.ofLoad (store.load files agentId none), files)
  | .append agentId messages =>
    let (result, files) := store.append files agentId messages none
    (.ofUnit result, files)
  | .replace agentId messages fault =>
    let (result, files) := store.replace files agentId messages fault
    (.ofUnit result, files)
  | .clear agentId =>
    let (result, files) := store.clear files agentId none
    (.ofUnit result, files)

/-- An operation on the sessions in memory, where no replacement fails. -/
def InMemorySessionStore.exec (uuidText : Uuid → Text) (memory : InMemorySessionStore) :
    SessionOp → SessionReply × InMemorySessionStore
  | .load agentId => (.loaded (memory.load (uuidText agentId.uuid)), memory)
  | .append agentId messages => (.done, memory.append (uuidText agentId.uuid) messages)
  | .replace agentId messages _ => (.done, memory.replace (uuidText agentId.uuid) messages)
  | .clear agentId => (.done, memory.clear (uuidText agentId.uuid))

/-! ### Texts of plain messages -/

namespace PlainMessage

def isPlain (c : Char) : Bool := 32 ≤ c.toNat && c ≠ '"' && c ≠ '\\'

/-- The beginning of a line. -/
def start : Text := "\x7b\"role\":\"user\",\"content\":\""

/-- The end of a line. -/
def stop : Text := "\"\x7d"

def print : Message → Except Text Text
  | .user content =>
    if content.all isPlain then .ok (start ++ content ++ stop)
    else .error "not a plain message"
  | _ => .error "not a plain message"

/-- The message with the given text. -/
def parse (text : Text) : Except Text Message :=
  match Text.stripPrefix start text with
  | none => .error "not a plain message"
  | some rest =>
    if rest.dropWhile isPlain = stop then .ok (.user (rest.takeWhile isPlain))
    else .error "not a plain message"

theorem start_append_ne_nil (text : Text) :
  start ++ text ≠ []
  := by
  apply append_ne_nil_of_left_ne_nil
  decide

theorem stop_ne_nil : stop ≠ [] := by decide

theorem exists_of_print_eq_ok {message : Message} {text : Text}
    (hprint : print message = .ok text) :
  ∃ content, message = .user content ∧ content.all isPlain = true
    ∧ text = start ++ content ++ stop
  := by
  rcases message with content | _ | _ | _
  · rw [print] at hprint
    split_ifs at hprint with hplain
    cases hprint
    exact ⟨content, rfl, hplain, rfl⟩
  all_goals cases hprint

theorem exists_of_parse_eq_ok {text : Text} {message : Message}
    (hparse : parse text = .ok message) :
  ∃ rest, text = start ++ rest ∧ rest.dropWhile isPlain = stop
  := by
  unfold parse Text.stripPrefix at hparse
  by_cases hstart : start.isPrefixOf text = true
  · rw [if_pos hstart] at hparse
    obtain ⟨rest, rfl⟩ := isPrefixOf_iff_prefix.mp hstart
    rw [drop_left] at hparse
    dsimp only at hparse
    split_ifs at hparse with hstop
    exact ⟨rest, rfl, hstop⟩
  · rw [if_neg hstart] at hparse
    cases hparse

/-- How plain messages are written on lines. -/
def codec : LineCodec Message where
  print := print
  parse := parse
  parse_print := by
    intro message text hprint
    obtain ⟨content, rfl, hplain, rfl⟩ := exists_of_print_eq_ok hprint
    have hdrop : (content ++ stop).dropWhile isPlain = stop := by
      rw [List.dropWhile_append_of_pos (List.all_eq_true.mp hplain)]
      rfl
    have htake : (content ++ stop).takeWhile isPlain = content := by
      rw [List.takeWhile_append_of_pos (List.all_eq_true.mp hplain)]
      exact List.append_nil content
    have hstart : start.isPrefixOf (start ++ (content ++ stop)) = true :=
      List.isPrefixOf_iff_prefix.mpr ⟨_, rfl⟩
    rw [List.append_assoc, parse, Text.stripPrefix, if_pos hstart, List.drop_left]
    dsimp only
    rw [if_pos hdrop, htake]
  oneLine := by
    intro message text hprint
    obtain ⟨content, rfl, hplain, rfl⟩ := exists_of_print_eq_ok hprint
    rw [List.mem_append, List.mem_append, not_or, not_or]
    constructor
    · constructor
      · decide
      · intro hmem
        have hline := List.all_eq_true.mp hplain _ hmem
        revert hline
        decide
    · decide
  trim_print := by
    intro message text hprint
    obtain ⟨content, rfl, -, rfl⟩ := exists_of_print_eq_ok hprint
    apply Text.trim_eq_self (List.append_ne_nil_of_right_ne_nil _ stop_ne_nil)
    · rfl
    · rw [List.getLast_append_of_ne_nil _ stop_ne_nil]
      rfl
  print_ne_nil := by
    intro message text hprint
    obtain ⟨content, rfl, -, rfl⟩ := exists_of_print_eq_ok hprint
    rw [List.append_assoc]
    apply start_append_ne_nil
  whitespace_of_append := by
    intro text rest message message' hparse hparse'
    obtain ⟨text, rfl, hstop⟩ := exists_of_parse_eq_ok hparse
    obtain ⟨text', heq, hstop'⟩ := exists_of_parse_eq_ok hparse'
    rw [List.append_assoc, List.append_cancel_left_eq] at heq
    subst heq
    rw [List.dropWhile_append, hstop] at hstop'
    have hrest : stop ++ rest = stop := by simpa [stop] using hstop'
    rw [List.append_right_eq_self.mp hrest]
    rintro c ⟨⟩

end PlainMessage

/-- The digits, with a hyphen after each group of the given sizes. -/
def hyphenate : List Nat → Text → Text
  | [], digits => digits
  | n :: sizes, digits => digits.take n ++ '-' :: hyphenate sizes (digits.drop n)

theorem filter_hyphenate (sizes : List Nat) (digits : Text) :
  (hyphenate sizes digits).filter Char.isDigit = digits.filter Char.isDigit
  := by
  induction sizes generalizing digits with
  | nil => rfl
  | cons n sizes ih =>
    rw [hyphenate, filter_append, filter_cons_of_neg (by decide), ih, ← filter_append,
      take_append_drop]

/-- The digits of an identifier in the groups of a UUID. -/
def plainUuidText (uuid : Uuid) : Text :=
  hyphenate [8, 4, 4, 4] ((Nat.toDigits 10 uuid).leftpad 32 '0')

theorem plainUuidText_injective : Function.Injective plainUuidText := by
  intro uuid uuid' heq
  have hdigit (uuid : Uuid) : (Nat.toDigits 10 uuid).filter Char.isDigit = Nat.toDigits 10 uuid :=
    filter_eq_self.mpr fun c hmem => Nat.isDigit_of_mem_toDigits (by decide) (by decide) hmem
  have hvalue := congrArg (fun text => Nat.ofDigitChars 10 (text.filter Char.isDigit) 0) heq
  simpa [plainUuidText, filter_hyphenate, leftpad, hdigit, Nat.ofDigitChars_append,
    Nat.ofDigitChars_replicate_zero] using hvalue

/-- A store of plain messages. -/
def plainStore : JsonlSessionStore where
  dataDir := "sessions"
  uuidText := plainUuidText
  uuidText_injective := plainUuidText_injective
  codec := PlainMessage.codec
