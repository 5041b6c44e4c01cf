import AaOS.Persistent.SessionCrash

/-!
# The store with files refines the store in memory

A session in memory corresponds to the lines in the file of the agent.  Every operation keeps the
correspondence and returns the same with both stores; a failed replacement leaves a temporary file
at most, which is never read.
-/

open List InMemorySessionStore Function

namespace JsonlSessionStore

open LineCodec

variable {store : JsonlSessionStore} {files files' : SessionFiles} {agentId other : AgentId}

/-! ### Names -/

theorem agentId_eq (heq : store.uuidText agentId.uuid = store.uuidText other.uuid) :
  agentId = other
  := by
  rcases agentId with ⟨uuid⟩
  rcases other with ⟨uuid'⟩
  obtain rfl : uuid = uuid' := store.uuidText_injective heq
  rfl

theorem nameFor_injective (store : JsonlSessionStore) : Function.Injective store.nameFor := by
  intro agentId other heq
  apply agentId_eq (append_cancel_right heq)

theorem nameFor_ne_tempFor : store.nameFor other ≠ store.tempFor agentId := by
  intro heq
  have hlast := congrArg getLast? heq
  unfold nameFor tempFor at hlast
  rw [getLast?_append_of_ne_nil _ (by decide), getLast?_append_of_ne_nil _ (by decide)]
    at hlast
  revert hlast
  decide

/-! ### Sessions and temporary files -/

variable (store) in
def SameSessions (files files' : SessionFiles) : Prop :=
  ∀ agentId, files' (store.nameFor agentId) = files (store.nameFor agentId)

variable (store) in
structure Updates (agentId : AgentId) (contents : Option (List UInt8))
    (files files' : SessionFiles) : Prop where
  own : files' (store.nameFor agentId) = contents
  others : ∀ other, other ≠ agentId → files' (store.nameFor other) = files (store.nameFor other)

theorem sameSessions_update_tempFor (contents : Option (List UInt8)) :
  store.SameSessions files (Function.update files (store.tempFor agentId) contents)
  := by
  intro other
  apply update_of_ne nameFor_ne_tempFor

theorem updates_update_nameFor (contents : Option (List UInt8)) :
  store.Updates agentId contents files (Function.update files (store.nameFor agentId) contents)
  := by
  constructor
  case own => apply update_self
  case others =>
    intro other hne
    apply update_of_ne
    intro heq
    apply hne (store.nameFor_injective heq)

theorem SameSessions.trans {files'' : SessionFiles} (hsame : store.SameSessions files files')
    (hsame' : store.SameSessions files' files'') :
  store.SameSessions files files''
  := by
  intro agentId
  rw [hsame', hsame]

theorem updates_commit (bytes : List UInt8) :
  store.Updates agentId (some bytes) files
    (store.commit (Function.update files (store.tempFor agentId) (some bytes)) agentId)
  := by
  unfold commit
  dsimp only
  rw [update_self]
  constructor
  case own => rw [sameSessions_update_tempFor, update_self]
  case others =>
    intro other hne
    rw [sameSessions_update_tempFor, (updates_update_nameFor _).others other hne,
      sameSessions_update_tempFor]

theorem SameSessions.contents_eq (hsame : store.SameSessions files files') :
  store.contents files' agentId = store.contents files agentId
  := by
  unfold contents
  rw [hsame]

variable {contents : Option (List UInt8)}

theorem Updates.contents_own (hupd : store.Updates agentId contents files files') :
  store.contents files' agentId = contents.getD []
  := by
  unfold JsonlSessionStore.contents
  rw [hupd.own]

theorem Updates.contents_other (hupd : store.Updates agentId contents files files')
    (hne : other ≠ agentId) :
  store.contents files' other = store.contents files other
  := by
  unfold JsonlSessionStore.contents
  rw [hupd.others other hne]

theorem SameSessions.updates {after after' : SessionFiles} (hsame : store.SameSessions files files')
    (hupd : store.Updates agentId contents files after)
    (hupd' : store.Updates agentId contents files' after') :
  store.SameSessions after after'
  := by
  intro other
  by_cases hother : other = agentId
  · subst hother
    rw [hupd.own, hupd'.own]
  · rw [hupd.others other hother, hupd'.others other hother, hsame]

/-! ### Replacements -/

variable {messages : List Message}

theorem write_of_writeLines {failure : Text} {fault : Option (Nat × Text)} {bytes : List UInt8}
    (hok : store.writeLines failure fault messages = (.ok (), bytes)) :
  store.codec.write messages = (.ok (), bytes)
  := by
  unfold writeLines at hok
  rcases hwrite : store.codec.write messages with ⟨message | _, bytes'⟩
  · rw [hwrite] at hok
    rcases fault with _ | ⟨written, message'⟩
    · cases hok
    · dsimp only at hok
      split_ifs at hok <;> cases hok
  · rw [hwrite] at hok
    rcases fault with _ | ⟨written, message'⟩
    · cases hok
      rfl
    · dsimp only at hok
      split_ifs at hok <;> cases hok
      rfl

variable (store agentId) in
def FailsToReplace (messages : List Message) (fault : Option ReplaceFault) (e : CoreError) :
    Prop :=
  ∀ files, (store.replace files agentId messages fault).1 = .error e
    ∧ store.SameSessions files (store.replace files agentId messages fault).2

variable (store agentId) in
def Replaces (messages : List Message) (fault : Option ReplaceFault) (bytes : List UInt8) : Prop :=
  ∀ files, (store.replace files agentId messages fault).1 = .ok ()
    ∧ store.Updates agentId (some bytes) files (store.replace files agentId messages fault).2

theorem replace_cases (store : JsonlSessionStore) (agentId : AgentId) (messages : List Message)
    (fault : Option ReplaceFault) :
  (∃ e, store.FailsToReplace agentId messages fault e)
    ∨ ∃ bytes, store.codec.write messages = (.ok (), bytes)
      ∧ store.Replaces agentId messages fault bytes
  := by
  unfold FailsToReplace Replaces replace
  rcases fault with _ | (message | ⟨written, message⟩) | message | ⟨removed, message⟩
  case some.writing.openFile =>
    left
    exact ⟨_, fun files => ⟨rfl, fun _ => rfl⟩⟩
  case some.writing.writeLine =>
    dsimp only
    rcases hlines : store.writeLines "failed to write session line to temp: "
      (some (written, message)) messages with ⟨e | _, bytes⟩
    · left
      exact ⟨e, fun files => ⟨rfl, sameSessions_update_tempFor _⟩⟩
    · right
      exact ⟨bytes, write_of_writeLines hlines, fun files => ⟨rfl, updates_commit bytes⟩⟩
  all_goals
    dsimp only
    rcases hlines : store.writeLines "failed to write session line to temp: " none messages
      with ⟨e | _, bytes⟩
  case none.error =>
    left
    exact ⟨e, fun files => ⟨rfl, sameSessions_update_tempFor _⟩⟩
  case none.ok =>
    right
    exact ⟨bytes, write_of_writeLines hlines, fun files => ⟨rfl, updates_commit bytes⟩⟩
  case some.sync.error =>
    left
    exact ⟨e, fun files => ⟨rfl, sameSessions_update_tempFor _⟩⟩
  case some.sync.ok =>
    left
    exact ⟨_, fun files => ⟨rfl, sameSessions_update_tempFor _⟩⟩
  case some.rename.error =>
    left
    exact ⟨e, fun files => ⟨rfl, sameSessions_update_tempFor _⟩⟩
  case some.rename.ok =>
    left
    rcases removed
    · exact ⟨_, fun files => ⟨rfl, sameSessions_update_tempFor _⟩⟩
    · exact ⟨_, fun files =>
        ⟨rfl, (sameSessions_update_tempFor _).trans (sameSessions_update_tempFor _)⟩⟩

theorem replace_of_write (hok : (store.codec.write messages).1 = .ok ()) (files : SessionFiles)
    (agentId : AgentId) :
  (store.replace files agentId messages none).1 = .ok ()
    ∧ ∃ bytes, store.codec.write messages = (.ok (), bytes)
      ∧ store.Updates agentId (some bytes) files (store.replace files agentId messages none).2
  := by
  have hreply : (store.replace files agentId messages none).1 = .ok () := by
    rcases hwrite : store.codec.write messages with ⟨result, bytes⟩
    rw [hwrite] at hok
    cases hok
    unfold replace
    dsimp only
    rw [writeLines_of_write hwrite]
  constructor
  · apply hreply
  · obtain ⟨e, hfails⟩ | ⟨bytes, hwrite, hrep⟩ := store.replace_cases agentId messages none
    · rw [(hfails files).1] at hreply
      cases hreply
    · exact ⟨bytes, hwrite, (hrep files).2⟩

/-! ### Files that differ in temporary files -/

theorem SameSessions.append (hsame : store.SameSessions files files') (agentId : AgentId)
    (messages : List Message) :
  (store.append files' agentId messages none).1 = (store.append files agentId messages none).1
    ∧ store.SameSessions (store.append files agentId messages none).2
      (store.append files' agentId messages none).2
  := by
  unfold JsonlSessionStore.append
  by_cases hempty : messages.isEmpty = true
  · rw [if_pos hempty, if_pos hempty]
    exact ⟨rfl, hsame⟩
  · rw [if_neg hempty, if_neg hempty]
    dsimp only
    constructor
    · rfl
    · rw [hsame agentId]
      apply hsame.updates (updates_update_nameFor _) (updates_update_nameFor _)

theorem clear_eq :
  store.clear files agentId none
    = (.ok (), Function.update files (store.nameFor agentId) none)
  := by
  unfold clear
  dsimp only
  rcases files (store.nameFor agentId) with _ | bytes
  · rfl
  · rfl

theorem SameSessions.exec (hsame : store.SameSessions files files') (op : SessionOp) :
  (store.exec files' op).1 = (store.exec files op).1
    ∧ store.SameSessions (store.exec files op).2 (store.exec files' op).2
  := by
  rcases op with agentId | ⟨agentId, messages⟩ | ⟨agentId, messages, fault⟩ | agentId
  case load =>
    simp only [JsonlSessionStore.exec, load_eq_loadFile]
    rw [hsame.contents_eq]
    exact ⟨rfl, hsame⟩
  case append =>
    obtain ⟨hreply, hsame'⟩ := hsame.append agentId messages
    simp only [JsonlSessionStore.exec]
    rw [hreply]
    exact ⟨rfl, hsame'⟩
  case replace =>
    simp only [JsonlSessionStore.exec]
    obtain ⟨e, hfails⟩ | ⟨bytes, -, hrep⟩ := store.replace_cases agentId messages fault
    · obtain ⟨hreply, hafter⟩ := hfails files
      obtain ⟨hreply', hafter'⟩ := hfails files'
      rw [hreply, hreply']
      constructor
      · rfl
      · intro other
        rw [hafter', hsame, hafter]
    · obtain ⟨hreply, hafter⟩ := hrep files
      obtain ⟨hreply', hafter'⟩ := hrep files'
      rw [hreply, hreply']
      constructor
      · rfl
      · apply hsame.updates hafter hafter'
  case clear =>
    simp only [JsonlSessionStore.exec, clear_eq]
    constructor
    · trivial
    · apply hsame.updates (updates_update_nameFor _) (updates_update_nameFor _)

theorem SameSessions.replies (hsame : store.SameSessions files files') (ops : List SessionOp) :
  repliesOf store.exec files' ops = repliesOf store.exec files ops
  := by
  induction ops generalizing files files' with
  | nil => rfl
  | cons op ops ih =>
    obtain ⟨hreply, hsame'⟩ := hsame.exec op
    rw [repliesOf, repliesOf, hreply, ih hsame']

/-- What follows a replacement that failed is as if it had not been tried. -/
theorem replies_of_failed_replace {fault : Option ReplaceFault} {e : CoreError}
    (hfail : (store.replace files agentId messages fault).1 = .error e) (later : List SessionOp) :
  repliesOf store.exec (store.replace files agentId messages fault).2 later
    = repliesOf store.exec files later
  := by
  obtain ⟨e', hfails⟩ | ⟨bytes, -, hrep⟩ := store.replace_cases agentId messages fault
  · apply (hfails files).2.replies
  · rw [(hrep files).1] at hfail
    cases hfail

end JsonlSessionStore

/-! ### Sessions in memory and in files -/

namespace InMemorySessionStore

variable {memory : InMemorySessionStore} {key other : Text} {messages : List Message}

theorem load_append_self : (memory.append key messages).load key = memory.load key ++ messages := by
  simp [load, append]

theorem load_append_of_ne (hne : other ≠ key) :
  (memory.append key messages).load other = memory.load other
  := by
  simp [load, append, hne]

theorem load_clear_self : (memory.clear key).load key = [] := by simp [load, clear]

theorem load_clear_of_ne (hne : other ≠ key) :
  (memory.clear key).load other = memory.load other
  := by
  simp [load, clear, hne]

theorem load_replace_of_ne (hne : other ≠ key) :
  (memory.replace key messages).load other = memory.load other
  := by
  rw [replace, load_append_of_ne hne, load_clear_of_ne hne]

end InMemorySessionStore

namespace JsonlSessionStore

open LineCodec

variable {store : JsonlSessionStore} {files files' : SessionFiles} {agentId : AgentId}
  {memory memory' : InMemorySessionStore}

variable (store) in
/-- The messages of an operation can be written, and nothing fails. -/
def Performs : SessionOp → Prop
  | .load _ | .clear _ => True
  | .append _ messages => (store.codec.write messages).1 = .ok ()
  | .replace _ messages fault => (store.codec.write messages).1 = .ok () ∧ fault = none

variable (store) in
def Represents (files : SessionFiles) (memory : InMemorySessionStore) : Prop :=
  ∀ agentId, store.Holds files agentId (memory.load (store.uuidText agentId.uuid))

theorem represents_empty : store.Represents noFiles {} := by
  intro agentId
  apply holds_noFiles

theorem Represents.update (hrep : store.Represents files memory) (agentId : AgentId)
    (hown : store.Holds files' agentId (memory'.load (store.uuidText agentId.uuid)))
    (hcon : ∀ other, other ≠ agentId →
      store.contents files' other = store.contents files other)
    (hload : ∀ key, key ≠ store.uuidText agentId.uuid → memory'.load key = memory.load key) :
  store.Represents files' memory'
  := by
  intro other
  by_cases hother : other = agentId
  · subst hother
    apply hown
  · have hkey : store.uuidText other.uuid ≠ store.uuidText agentId.uuid := by
      intro heq
      apply hother (agentId_eq heq)
    rw [hload _ hkey, Holds, hcon other hother]
    apply hrep

theorem contents_append_of_ne {messages : List Message} {other : AgentId} (hne : other ≠ agentId) :
  store.contents (store.append files agentId messages none).2 other = store.contents files other
  := by
  unfold append
  by_cases hempty : messages.isEmpty = true
  · rw [if_pos hempty]
  · rw [if_neg hempty]
    apply (updates_update_nameFor _).contents_other hne

/-- An operation that is performed returns the same with both stores, and keeps the
correspondence. -/
theorem Represents.exec
    (hrep : store.Represents files memory) {op : SessionOp} (hper : store.Performs op) :
  (store.exec files op).1 = (memory.exec store.uuidText op).1
    ∧ store.Represents (store.exec files op).2 (memory.exec store.uuidText op).2
  := by
  rcases op with agentId | ⟨agentId, messages⟩ | ⟨agentId, messages, fault⟩ | agentId
  case load =>
    simp only [JsonlSessionStore.exec, InMemorySessionStore.exec, (hrep agentId).load_eq]
    exact ⟨rfl, hrep⟩
  case append =>
    rcases hwrite : store.codec.write messages with ⟨result, bytes⟩
    rw [Performs, hwrite] at hper
    cases hper
    obtain ⟨hreply, hcon⟩ := append_of_write hwrite files agentId
    simp only [JsonlSessionStore.exec, InMemorySessionStore.exec, hreply]
    constructor
    · rfl
    · apply hrep.update agentId
      · rw [InMemorySessionStore.load_append_self, Holds, hcon]
        apply write_append (hrep agentId) hwrite
      · intro other hne
        apply contents_append_of_ne hne
      · intro key hne
        apply load_append_of_ne hne
  case replace =>
    obtain ⟨hok, rfl⟩ := hper
    obtain ⟨hreply, bytes, hwrite, hupd⟩ := replace_of_write hok files agentId
    simp only [JsonlSessionStore.exec, InMemorySessionStore.exec, hreply]
    constructor
    · rfl
    · apply hrep.update agentId
      · rw [InMemorySessionStore.replace, load_append_self, load_clear_self, nil_append, Holds,
          hupd.contents_own]
        apply hwrite
      · intro other hne
        apply hupd.contents_other hne
      · intro key hne
        apply load_replace_of_ne hne
  case clear =>
    simp only [JsonlSessionStore.exec, InMemorySessionStore.exec, clear_eq]
    constructor
    · rfl
    · have hupd : store.Updates agentId none files
          (Function.update files (store.nameFor agentId) none) := updates_update_nameFor none
      apply hrep.update agentId
      · rw [InMemorySessionStore.load_clear_self, Holds, hupd.contents_own]
        rfl
      · intro other hne
        apply hupd.contents_other hne
      · intro key hne
        apply load_clear_of_ne hne

theorem Represents.replies (hrep : store.Represents files memory) {ops : List SessionOp}
    (hper : ∀ op ∈ ops, store.Performs op) :
  repliesOf store.exec files ops = repliesOf (InMemorySessionStore.exec store.uuidText) memory ops
  := by
  induction ops generalizing files memory with
  | nil => rfl
  | cons op ops ih =>
    rw [List.forall_mem_cons] at hper
    obtain ⟨hop, hops⟩ := hper
    obtain ⟨hreply, hrep'⟩ := hrep.exec hop
    rw [repliesOf, repliesOf, hreply, ih hrep' hops]

/-- Operations on messages that can be written return the same with both stores when nothing fails;
and after a replacement that fails, at whatever point, everything is as if it had not been tried. -/
theorem refines_inMemorySessionStore
    (store : JsonlSessionStore) {ops : List SessionOp} (hperforms : ∀ op ∈ ops, store.Performs op) :
  repliesOf store.exec noFiles ops
      = repliesOf (InMemorySessionStore.exec store.uuidText) {} ops
    ∧ ∀ files agentId messages fault e later,
      (store.replace files agentId messages fault).1 = .error e →
      repliesOf store.exec (store.replace files agentId messages fault).2 later
        = repliesOf store.exec files later
  := by
  constructor
  · apply represents_empty.replies hperforms
  · intro files agentId messages fault e later hfail
    apply replies_of_failed_replace hfail

def greetingOps : List SessionOp :=
  [.append ⟨1⟩ [greeting], .replace ⟨1⟩ [greeting, greeting] none, .load ⟨1⟩, .clear ⟨1⟩]

theorem performs_greetingOps : ∀ op ∈ greetingOps, plainStore.Performs op := by
  simp only [greetingOps, List.forall_mem_cons, not_mem_nil, false_imp_iff, implies_true, and_true]
  exact ⟨rfl, ⟨rfl, rfl⟩, trivial, trivial⟩

theorem refines_inMemorySessionStore_greetingOps :
  (∀ op ∈ greetingOps, plainStore.Performs op)
    ∧ repliesOf plainStore.exec noFiles greetingOps
      = repliesOf (InMemorySessionStore.exec plainStore.uuidText) {} greetingOps
    ∧ ∃ e, (plainStore.replace noFiles ⟨1⟩ [greeting] (some (.sync []))).1 = .error e
      ∧ repliesOf plainStore.exec
          (plainStore.replace noFiles ⟨1⟩ [greeting] (some (.sync []))).2 greetingOps
        = repliesOf plainStore.exec noFiles greetingOps
  := by
  obtain ⟨hrep, hfail⟩ := plainStore.refines_inMemorySessionStore performs_greetingOps
  constructor
  · apply performs_greetingOps
  constructor
  · apply hrep
  · exact ⟨_, rfl, hfail _ _ _ _ _ _ rfl⟩

end JsonlSessionStore
