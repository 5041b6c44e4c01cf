import AaOS.Persistent.SessionStore

/-!
# Sessions after a crash

When the process stops while messages are appended to the file of a session, a beginning of the new
lines is in the file.  If it does not end with a whole line, the file cannot be loaded any more, or
not after the next append.
-/

namespace JsonlSessionStore

open LineCodec

variable (store : JsonlSessionStore) (files : SessionFiles) (agentId : AgentId)

/-- What is in the file of an agent, which is nothing if there is none. -/
def contents : List UInt8 := (files (store.nameFor agentId)).getD []

/-- The file of an agent holds its history. -/
def Holds (history : List Message) : Prop :=
  store.codec.write history = (.ok (), store.contents files agentId)

/-- The files when the process stops during an append, after some bytes of the new lines were
written. -/
def interruptAppend (messages : List Message) (written : Nat) : SessionFiles :=
  if messages.isEmpty then files
  else
    Function.update files (store.nameFor agentId)
      (some (store.contents files agentId ++ (store.codec.write messages).2.take written))

/-- The history is loaded with some of the messages, and with the further ones after an append. -/
def Consistent (history messages : List Message) : Prop :=
  ∃ n, store.load files agentId none = .ok (history ++ messages.take n)
    ∧ ∀ later, (store.append files agentId later none).1 = .ok () →
      store.load (store.append files agentId later none).2 agentId none
        = .ok (history ++ messages.take n ++ later)

variable {store files agentId}

/-! ### Loading and appending -/

theorem load_eq_loadFile :
  store.load files agentId none = store.loadFile (store.contents files agentId)
  := by
  unfold load contents
  rcases files (store.nameFor agentId) with _ | bytes
  · rfl
  · rfl

variable {bytes : List UInt8} {messages : List Message}

theorem loadFile_eq_ok_iff :
  store.loadFile bytes = .ok messages ↔ store.codec.read bytes = .ok messages
  := by
  unfold loadFile
  rcases store.codec.read bytes with (_ | message) | messages'
  · constructor <;> rintro ⟨⟩
  · constructor <;> rintro ⟨⟩
  · constructor <;> (rintro ⟨⟩; rfl)

theorem load_eq_ok_iff :
  store.load files agentId none = .ok messages
    ↔ store.codec.read (store.contents files agentId) = .ok messages
  := by
  rw [load_eq_loadFile, loadFile_eq_ok_iff]

theorem Holds.load_eq {history : List Message} (hholds : store.Holds files agentId history) :
  store.load files agentId none = .ok history
  := load_eq_ok_iff.mpr (read_write hholds)

theorem writeLines_of_write (hwrite : store.codec.write messages = (.ok (), bytes))
    (failure : Text) :
  store.writeLines failure none messages = (.ok (), bytes)
  := by
  rw [writeLines, hwrite]
  rfl

theorem append_of_write (hwrite : store.codec.write messages = (.ok (), bytes))
    (files : SessionFiles) (agentId : AgentId) :
  (store.append files agentId messages none).1 = .ok ()
    ∧ store.contents (store.append files agentId messages none).2 agentId
      = store.contents files agentId ++ bytes
  := by
  unfold append
  rcases messages with _ | ⟨message, messages⟩
  · cases hwrite
    constructor
    · rfl
    · exact (List.append_nil _).symm
  · rw [if_neg (by simp)]
    dsimp only
    rw [writeLines_of_write hwrite]
    constructor
    · rfl
    · simp [contents]

theorem exists_write_of_append (hok : (store.append files agentId messages none).1 = .ok ()) :
  ∃ bytes, store.codec.write messages = (.ok (), bytes)
  := by
  unfold append writeLines at hok
  rcases messages with _ | ⟨message, messages⟩
  · exact ⟨[], rfl⟩
  · rw [if_neg (by simp)] at hok
    rcases hwrite : store.codec.write (message :: messages) with ⟨e | _, bytes⟩
    · rw [hwrite] at hok
      cases hok
    · exact ⟨bytes, rfl⟩

/-! ### Crashes -/

theorem contents_interruptAppend (hwrite : store.codec.write messages = (.ok (), bytes))
    (written : Nat) :
  store.contents (store.interruptAppend files agentId messages written) agentId
    = store.contents files agentId ++ bytes.take written
  := by
  unfold interruptAppend
  rcases messages with _ | ⟨message, messages⟩
  · cases hwrite
    simp
  · rw [if_neg (by simp), hwrite]
    simp [contents]

theorem consistent_iff_recovers {history : List Message} :
  store.Consistent files agentId history messages
    ↔ store.codec.Recovers history messages (store.contents files agentId)
  := by
  constructor
  · rintro ⟨n, hload, hlater⟩
    use n, load_eq_ok_iff.mp hload
    intro later added hwrite
    obtain ⟨hok, hcon⟩ := append_of_write hwrite files agentId
    have hload' := load_eq_ok_iff.mp (hlater later hok)
    rwa [hcon] at hload'
  · rintro ⟨n, hread, hlater⟩
    use n, load_eq_ok_iff.mpr hread
    intro later hok
    obtain ⟨added, hwrite⟩ := exists_write_of_append hok
    obtain ⟨-, hcon⟩ := append_of_write hwrite files agentId
    rw [load_eq_ok_iff, hcon]
    apply hlater later added hwrite

/-- A session is consistent after a crash during an append exactly when whole lines were written. -/
theorem consistent_interruptAppend_iff {history messages : List Message} {bytes : List UInt8}
    (hholds : store.Holds files agentId history)
    (hwrite : store.codec.write messages = (.ok (), bytes)) (written : Nat) :
  store.Consistent (store.interruptAppend files agentId messages written) agentId history messages
    ↔ EndsLine (bytes.take written)
  := by
  rw [consistent_iff_recovers, contents_interruptAppend hwrite]
  apply recovers_iff_endsLine hholds hwrite (List.take_append_drop written bytes)

def noFiles : SessionFiles := fun _ => none

theorem holds_noFiles (store : JsonlSessionStore) (agentId : AgentId) :
  store.Holds noFiles agentId []
  := rfl

/-- A message, and its line. -/
def greeting : Message := .user "Hi"

def greetingLine : List UInt8 := (plainStore.codec.write [greeting]).2

theorem write_greeting :
  plainStore.codec.write [greeting] = (.ok (), greetingLine)
  := rfl

/-- The files after one agent was greeted. -/
def greetedFiles : SessionFiles :=
  Function.update noFiles (plainStore.nameFor ⟨1⟩) (some greetingLine)

theorem holds_greetedFiles :
  plainStore.Holds greetedFiles ⟨1⟩ [greeting]
  := by
  rw [Holds, contents, greetedFiles, Function.update_self]
  apply write_greeting

/-- After a crash that leaves the first of two lines in the file, the session is consistent. -/
theorem consistent_interruptAppend_greeting :
  plainStore.Consistent
    (plainStore.interruptAppend greetedFiles ⟨1⟩ [greeting, greeting] greetingLine.length) ⟨1⟩
    [greeting] [greeting, greeting]
  := by
  have hwrite : plainStore.codec.write [greeting, greeting]
      = (.ok (), greetingLine ++ greetingLine) := rfl
  rw [consistent_interruptAppend_iff holds_greetedFiles hwrite]
  decide

/-- After a crash that leaves five bytes of a line in the file, the session is lost. -/
theorem not_consistent_tornGreeting :
  ¬ plainStore.Consistent (plainStore.interruptAppend noFiles ⟨1⟩ [greeting] 5) ⟨1⟩ [] [greeting]
  := by
  rw [consistent_iff_recovers, contents_interruptAppend write_greeting]
  intro hrec
  have hsplit : greetingLine.take 5 ++ greetingLine.drop 5 = greetingLine :=
    List.take_append_drop 5 greetingLine
  have hnot : plainStore.codec.write [] = (.ok (), []) := rfl
  have hends := (recovers_iff_endsLine hnot write_greeting hsplit).mp hrec
  revert hends
  decide

end JsonlSessionStore
