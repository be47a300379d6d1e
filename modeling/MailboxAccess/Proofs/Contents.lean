import MailboxAccess.Proofs.Codec
import MailboxAccess.Proofs.Course

namespace MailboxAccess

/-- What a record stands for, if it can be decoded. -/
def Codec.versioned (codec : Codec) : Option Record → Except DecodeError (Option Versioned)
  | none => .ok none
  | some record => do return some ⟨← codec.decode record.acl, record.version⟩

def Versioned.list : Option Versioned → Acl
  | none => Acl.empty
  | some current => current.acl

theorem Codec.decode_within {codec : Codec} {keys : List EntryKey} {acl : Acl} (carried : codec.Carries keys)
    (within : acl.keys ⊆ keys) : codec.decode (codec.encode acl) = .ok acl :=
  decode_encode (carries_of_subset carried acl.nodup_keys within)

theorem Codec.versioned_some {codec : Codec} {record : Record} {state : Option Versioned}
    (decoded : codec.versioned (some record) = .ok state) :
    ∃ acl, codec.decode record.acl = .ok acl ∧ state = some ⟨acl, record.version⟩ := by
  cases read : codec.decode record.acl with
  | error e => simp [versioned, read, bind, Except.bind] at decoded
  | ok acl =>
      refine ⟨acl, rfl, ?_⟩
      simpa [versioned, read, bind, Except.bind, pure, Except.pure, eq_comm] using decoded

theorem Codec.version_eq {codec : Codec} {seen : Option Record} {state : Option Versioned}
    (decoded : codec.versioned seen = .ok state) : state.map Versioned.version = seen.map Record.version := by
  cases seen with
  | none =>
      cases decoded
      rfl
  | some record =>
      rcases versioned_some decoded with ⟨acl, -, rfl⟩
      rfl

theorem Codec.listOf_eq {codec : Codec} {seen : Option Record} {state : Option Versioned}
    (decoded : codec.versioned seen = .ok state) : codec.listOf seen = Versioned.list state := by
  cases seen with
  | none =>
      cases decoded
      rfl
  | some record =>
      rcases versioned_some decoded with ⟨acl, read, rfl⟩
      simp [listOf, Coder.base, Coder.ofCodec, read, Except.toOption, Versioned.list]

theorem Editor.found_eq {editor : Editor} {seen : Option Record} {state : Option Versioned}
    (decoded : editor.codec.versioned seen = .ok state) : editor.found seen = state := by
  cases seen with
  | none =>
      cases decoded
      rfl
  | some record =>
      have list := Codec.listOf_eq decoded
      rcases Codec.versioned_some decoded with ⟨acl, -, rfl⟩
      rw [found_some, base, list]
      rfl

/-- A task on the mailbox, in this format and with no other keys. -/
def Task.Fits (codec : Codec) (mailbox : MailboxId) (keys : List EntryKey) : Task → Prop
  | update editor place command => editor.codec = codec ∧ place = mailbox ∧ command.key ∈ keys
  | reset editor place acl => editor.codec = codec ∧ place = mailbox ∧ acl.keys ⊆ keys
  | read editor place => editor.codec = codec ∧ place = mailbox

theorem Task.Fits.mailbox_eq {task : Task} {codec : Codec} {mailbox : MailboxId} {keys : List EntryKey}
    (fits : task.Fits codec mailbox keys) : task.mailbox = mailbox := by
  cases task with
  | update => exact fits.2.1
  | reset => exact fits.2.1
  | read => exact fits.2

def Legible (codec : Codec) (keys : List EntryKey) (seen : Option Record) : Prop :=
  ∃ state, codec.versioned seen = .ok state ∧ (Versioned.list state).keys ⊆ keys

theorem Codec.versioned_encode {codec : Codec} {keys : List EntryKey} {acl : Acl} {version : UInt64}
    (carried : codec.Carries keys) (within : acl.keys ⊆ keys) :
    codec.versioned (some ⟨codec.encode acl, version⟩) = .ok (some ⟨acl, version⟩) := by
  rw [versioned, decode_within carried within]
  rfl

theorem Editor.keys_edited {editor : Editor} {command : Command} {seen : Option Record} {keys : List EntryKey}
    (legible : Legible editor.codec keys seen) (given : command.key ∈ keys) :
    (editor.edited command seen).keys ⊆ keys := by
  rcases legible with ⟨state, decoded, within⟩
  rw [edited, base, Codec.listOf_eq decoded]
  intro key member
  rcases List.mem_cons.mp (Acl.keys_apply _ _ member) with same | held
  · rw [same]
    exact given
  · exact within held

variable {tasks : List Task} {codec : Codec} {mailbox : MailboxId} {keys : List EntryKey} {view : View}

theorem Course.legible_prefix {history : List Happening} (course : Course tasks mailbox view history)
    (fits : ∀ task ∈ tasks, task.Fits codec mailbox keys) (carried : codec.Carries keys)
    (start : Legible codec keys view.record) (before : List Happening) (earlier : before <+: history) :
    Legible codec keys (view.replay mailbox before).record := by
  induction course generalizing before with
  | nil =>
      rw [List.prefix_nil.mp earlier]
      exact start
  | @concat history actor task x course present moves permitted ih =>
      rcases List.prefix_concat_iff.mp earlier with whole | within
      · rw [whole, View.replay_concat, View.record_next]
        cases stored : x.stored? mailbox with
        | none => exact ih history List.prefix_rfl
        | some record =>
            have stores := (course.concat present moves permitted).stores stored
            rw [Option.some_or]
            cases stores with
            | @update _ editor command seen _ present attempting call won current =>
                rcases fits _ (List.mem_of_getElem? present) with ⟨rfl, -, given⟩
                -- it edits what it was shown, which is the record of an earlier time
                rcases course.seen_before attempting with ⟨past, later, split, rfl⟩
                have shown := ih past ⟨later, split.symm⟩
                have kept := Editor.keys_edited shown given
                exact ⟨_, Codec.versioned_encode carried kept, kept⟩
            | @reset _ editor acl present first =>
                rcases fits _ (List.mem_of_getElem? present) with ⟨rfl, -, given⟩
                exact ⟨_, Codec.versioned_encode carried given, given⟩
      · exact ih before within

theorem Course.legible {history : List Happening} (course : Course tasks mailbox view history)
    (fits : ∀ task ∈ tasks, task.Fits codec mailbox keys) (carried : codec.Carries keys)
    (start : Legible codec keys view.record) : Legible codec keys (view.replay mailbox history).record :=
  course.legible_prefix fits carried start history List.prefix_rfl

end MailboxAccess
