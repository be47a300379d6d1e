import MailboxAccess.Proofs.Editor.Alone
import MailboxAccess.Proofs.Task

/-!
Ledgers remember what a mailbox was asked to become, and nothing else. They determine what a task returns that
has the store to itself, and what the store then holds of the mailbox (`Task.due_alone`).
-/
namespace MailboxAccess

def Task.keys : Task → List EntryKey
  | .update _ _ command => [command.key]
  | .reset _ _ acl => acl.keys
  | .read _ _ => []

/-- What a mailbox was last reset to, if ever, and the commands that it has been given since. -/
structure Ledger where
  base : Option Acl
  commands : List Command

namespace Ledger

def enter (mailbox : MailboxId) (ledger : Ledger) : Task → Ledger
  | .update _ place command =>
    if place = mailbox then ⟨ledger.base, ledger.commands ++ [command]⟩ else ledger
  | .reset _ place acl => if place = mailbox then ⟨some acl, []⟩ else ledger
  | .read _ _ => ledger

def after (mailbox : MailboxId) (tasks : List Task) : Ledger := tasks.foldl (enter mailbox) ⟨none, []⟩

def list (ledger : Ledger) : Acl := ledger.commands.foldl Acl.apply (ledger.base.getD Acl.empty)

/-- How many updates there were since the reset, or since the one that created the record. -/
def version? (ledger : Ledger) : Option Nat :=
  match ledger.base, ledger.commands with
  | none, [] => none
  | none, _ :: later => some later.length
  | some _, commands => some commands.length

def next (ledger : Ledger) : Nat := (ledger.version?.map (· + 1)).getD 0

def state (ledger : Ledger) : Option (Acl × Nat) := ledger.version?.map fun version => (ledger.list, version)

theorem after_concat (mailbox : MailboxId) (past : List Task) (task : Task) :
    after mailbox (past ++ [task]) = (after mailbox past).enter mailbox task := by
  simp [after]

theorem after_update (editor : Editor) (mailbox : MailboxId) (command : Command) (past : List Task) :
    after mailbox (past ++ [.update editor mailbox command]) =
      ⟨(after mailbox past).base, (after mailbox past).commands ++ [command]⟩ := by
  rw [after_concat, enter, if_pos rfl]

theorem after_reset (editor : Editor) (mailbox : MailboxId) (acl : Acl) (past : List Task) :
    after mailbox (past ++ [.reset editor mailbox acl]) = ⟨some acl, []⟩ := by
  rw [after_concat, enter, if_pos rfl]

theorem after_read (editor : Editor) (mailbox place : MailboxId) (past : List Task) :
    after mailbox (past ++ [.read editor place]) = after mailbox past :=
  after_concat ..

theorem enter_elsewhere {task : Task} {mailbox : MailboxId} (apart : task.mailbox ≠ mailbox) (ledger : Ledger) :
    ledger.enter mailbox task = ledger := by
  cases task with
  | update => exact if_neg apart
  | reset => exact if_neg apart
  | read => rfl

theorem enter_cases (mailbox : MailboxId) (ledger : Ledger) (task : Task) :
    ledger.enter mailbox task = ledger ∨
      (∃ editor command, task = .update editor mailbox command ∧
        ledger.enter mailbox task = ⟨ledger.base, ledger.commands ++ [command]⟩) ∨
      ∃ editor acl, task = .reset editor mailbox acl ∧ ledger.enter mailbox task = ⟨some acl, []⟩ := by
  by_cases here : task.mailbox = mailbox
  · subst here
    cases task with
    | update editor place command => exact .inr (.inl ⟨editor, command, rfl, if_pos rfl⟩)
    | reset editor place acl => exact .inr (.inr ⟨editor, acl, rfl, if_pos rfl⟩)
    | read => exact .inl rfl
  · exact .inl (enter_elsewhere here ledger)

theorem list_of_unwritten {ledger : Ledger} (unwritten : ledger.version? = none) : ledger.list = Acl.empty := by
  rcases ledger with ⟨base, commands⟩
  cases base with
  | none =>
      cases commands with
      | nil => rfl
      | cons => cases unwritten
  | some => cases unwritten

theorem list_concat (base : Option Acl) (commands : List Command) (command : Command) :
    (Ledger.mk base (commands ++ [command])).list = (Ledger.mk base commands).list.apply command := by
  simp [list]

theorem version_concat (base : Option Acl) (commands : List Command) (command : Command) :
    (Ledger.mk base (commands ++ [command])).version? = some (Ledger.mk base commands).next := by
  cases base with
  | none =>
      cases commands with
      | nil => rfl
      | cons => simp [version?, next]
  | some => simp [version?, next]

theorem next_of_version {ledger : Ledger} {n : Nat} (version : ledger.version? = some n) : ledger.next = n + 1 := by
  simp [next, version]

theorem next_le (mailbox : MailboxId) (past : List Task) : (after mailbox past).next ≤ past.length := by
  induction past using List.reverseRecOn with
  | nil => exact Nat.le_refl 0
  | append_singleton past task ih =>
      rw [List.length_append, List.length_singleton, after_concat]
      rcases enter_cases mailbox (after mailbox past) task with
        still | ⟨editor, command, -, entered⟩ | ⟨editor, acl, -, entered⟩
      · rw [still]
        exact Nat.le_succ_of_le ih
      · rw [entered, next_of_version (version_concat _ _ command)]
        exact Nat.succ_le_succ ih
      · rw [entered]
        exact Nat.succ_le_succ (Nat.zero_le past.length)

/-- A list has no keys but those that tasks came with. -/
theorem keys_after (mailbox : MailboxId) (past : List Task) :
    (after mailbox past).list.keys ⊆ past.flatMap Task.keys := by
  induction past using List.reverseRecOn with
  | nil => exact nofun
  | append_singleton past task ih =>
      rw [after_concat, List.flatMap_append, List.flatMap_singleton]
      intro key member
      rcases enter_cases mailbox (after mailbox past) task with
        still | ⟨editor, command, rfl, entered⟩ | ⟨editor, acl, rfl, entered⟩
      · rw [still] at member
        exact List.mem_append_left _ (ih member)
      · rw [entered, list_concat] at member
        rcases List.mem_cons.mp (Acl.keys_apply _ _ member) with same | held
        · exact List.mem_append_right _ (List.mem_singleton.mpr same)
        · exact List.mem_append_left _ (ih held)
      · rw [entered] at member
        exact List.mem_append_right _ member

theorem carries_after {codec : Codec} {past tasks : List Task} (carried : codec.Carries (tasks.flatMap Task.keys))
    (within : past <+: tasks) (mailbox : MailboxId) : codec.Carries (after mailbox past).list.keys := by
  apply Codec.carries_of_subset carried (Acl.nodup_keys _)
  intro key member
  rcases List.mem_flatMap.mp (keys_after mailbox past member) with ⟨task, among, given⟩
  exact List.mem_flatMap.mpr ⟨task, within.subset among, given⟩

end Ledger

structure Reflects (codec : Codec) (ledger : Ledger) (view : View) : Prop where
  record : codec.versioned view.record = .ok (view.record.map fun record => ⟨ledger.list, record.version⟩)
  version : view.record.map (fun record => record.version.toNat) = ledger.version?
  rows : view.rows = ledger.list.table

/-- What a task is to return when these have come before it. -/
inductive Due (past : List Task) : Task → Outcome → Prop where
  | committed {editor : Editor} {mailbox : MailboxId} {command : Command} {version : UInt64}
      (number : (Ledger.after mailbox (past ++ [.update editor mailbox command])).version? = some version.toNat) :
      Due past (.update editor mailbox command) (.committed ⟨mailbox, version, Diff.between
        (Ledger.after mailbox past).list (Ledger.after mailbox (past ++ [.update editor mailbox command])).list⟩)
  | replaced {editor : Editor} {mailbox : MailboxId} {acl : Acl} : Due past (.reset editor mailbox acl) .replaced
  | found {editor : Editor} {mailbox : MailboxId} {seen : Option Versioned}
      (same : seen.map (fun current => (current.acl, current.version.toNat)) = (Ledger.after mailbox past).state) :
      Due past (.read editor mailbox) (.found seen)

namespace Reflects

variable {codec : Codec} {editor : Editor} {ledger : Ledger} {view : View}

theorem base_eq (reflects : Reflects editor.codec ledger view) : editor.base view.record = ledger.list := by
  have decoded := reflects.record
  have version := reflects.version
  cases seen : view.record with
  | none =>
      rw [seen] at version
      exact (Ledger.list_of_unwritten version.symm).symm
  | some record =>
      rw [seen] at decoded
      exact Codec.listOf_eq decoded

theorem legible (reflects : Reflects editor.codec ledger view) (command : Command) :
    (editor.written command view.record).corrupt = false :=
  Editor.written_of_legible ⟨_, reflects.record, List.Subset.refl _⟩

theorem found_eq (reflects : Reflects editor.codec ledger view) :
    (editor.found view.record).map (fun current => (current.acl, current.version.toNat)) = ledger.state := by
  have base := reflects.base_eq
  rw [Ledger.state, ← reflects.version]
  cases seen : view.record with
  | none => rfl
  | some record =>
      rw [seen] at base
      simp [base]

theorem next_eq (reflects : Reflects codec ledger view) {record : Record} (present : view.record = some record) :
    ledger.next = record.version.toNat + 1 := by
  apply Ledger.next_of_version
  rw [← reflects.version, present, Option.map_some]

theorem room (reflects : Reflects codec ledger view) (few : ledger.next < 2 ^ 63) (record : Record)
    (present : view.record = some record) : record.version.toNat + 1 < 2 ^ 63 := by
  rwa [← reflects.next_eq present]

theorem nextVersion_eq (reflects : Reflects codec ledger view) (few : ledger.next < 2 ^ 63) :
    (Editor.nextVersion view.record).toNat = ledger.next := by
  have version := reflects.version
  cases seen : view.record with
  | none =>
      rw [seen] at version
      rw [Ledger.next, ← version]
      rfl
  | some record =>
      have next := reflects.next_eq seen
      calc
        (Editor.nextVersion (some record)).toNat = (record.version.toNat + 1) % 2 ^ 64 := by
          rw [Editor.nextVersion, UInt64.toNat_add]
          rfl
        _ = record.version.toNat + 1 := Nat.mod_eq_of_lt (by omega)
        _ = ledger.next := next.symm

theorem granting (reflects : Reflects editor.codec ledger view) (key : EntryKey) :
    view.rows.get? key ≠ some Rights.empty := by
  rw [reflects.rows]
  exact fun none => Acl.ne_empty_of_get? none rfl

/-- What an update or a reset leaves when it has stored the list of the ledger. -/
theorem of_encode {version : UInt64} (carried : codec.Carries ledger.list.keys)
    (number : ledger.version? = some version.toNat) :
    Reflects codec ledger ⟨some ⟨codec.encode ledger.list, version⟩, ledger.list.table⟩ where
  record := Codec.versioned_encode carried (List.Subset.refl _)
  version := number.symm
  rows := rfl

end Reflects

theorem update_due {editor : Editor} {mailbox : MailboxId} {command : Command} {past : List Task} {view : View}
    (allowed : 0 < editor.attempts) (reflects : Reflects editor.codec (Ledger.after mailbox past) view)
    (carried : editor.codec.Carries (Ledger.after mailbox (past ++ [.update editor mailbox command])).list.keys)
    (few : past.length < 2 ^ 63) :
    ∃ outcome next, (Task.update editor mailbox command).plan.Alone mailbox view outcome next ∧
      Due past (.update editor mailbox command) outcome ∧
      Reflects editor.codec (Ledger.after mailbox (past ++ [.update editor mailbox command])) next := by
  have room : (Ledger.after mailbox past).next < 2 ^ 63 := Nat.lt_of_le_of_lt (Ledger.next_le mailbox past) few
  have edited : editor.edited command view.record =
      (Ledger.after mailbox (past ++ [.update editor mailbox command])).list := by
    rw [Editor.edited, reflects.base_eq, Ledger.after_update, Ledger.list_concat]
  have number : (Ledger.after mailbox (past ++ [.update editor mailbox command])).version? =
      some (Editor.nextVersion view.record).toNat := by
    rw [reflects.nextVersion_eq room, Ledger.after_update, Ledger.version_concat]
  have rows : view.rows = (editor.base view.record).table := by rw [reflects.rows, reflects.base_eq]
  have updated : (editor.update mailbox command).Alone mailbox view (editor.commit mailbox command view.record)
      ⟨(editor.stored command view).record, (editor.edited command view.record).table⟩ :=
    Editor.update_alone allowed (reflects.room room) (reflects.legible command) rows
  refine ⟨_, _, updated.bind (Plan.pure_alone _), ?_, ?_⟩
  · rw [Editor.commit, reflects.base_eq, edited]
    exact .committed number
  · rw [Editor.stored, edited]
    exact .of_encode carried number

theorem reset_due {editor : Editor} {mailbox : MailboxId} {acl : Acl} {past : List Task} {view : View}
    (reflects : Reflects editor.codec (Ledger.after mailbox past) view)
    (carried : editor.codec.Carries (Ledger.after mailbox (past ++ [.reset editor mailbox acl])).list.keys) :
    ∃ outcome next, (Task.reset editor mailbox acl).plan.Alone mailbox view outcome next ∧
      Due past (.reset editor mailbox acl) outcome ∧
      Reflects editor.codec (Ledger.after mailbox (past ++ [.reset editor mailbox acl])) next := by
  have replaced : (editor.reset mailbox acl).Alone mailbox view ()
      ⟨some ⟨editor.codec.encode acl, Record.firstVersion⟩, acl.table⟩ :=
    Editor.reset_alone acl reflects.granting
  refine ⟨_, _, replaced.bind (Plan.pure_alone _), .replaced, ?_⟩
  rw [Ledger.after_reset] at carried ⊢
  exact .of_encode carried rfl

theorem read_due {editor : Editor} {mailbox : MailboxId} {past : List Task} {view : View}
    (reflects : Reflects editor.codec (Ledger.after mailbox past) view) :
    ∃ outcome next, (Task.read editor mailbox).plan.Alone mailbox view outcome next ∧
      Due past (.read editor mailbox) outcome ∧
      Reflects editor.codec (Ledger.after mailbox (past ++ [.read editor mailbox])) next := by
  refine ⟨_, view, Editor.getVersioned_alone.bind (Plan.pure_alone _), .found reflects.found_eq, ?_⟩
  rw [Ledger.after_read]
  exact reflects

theorem Task.due_alone {task : Task} {past : List Task} {view : View} (allowed : 0 < task.editor.attempts)
    (reflects : Reflects task.editor.codec (Ledger.after task.mailbox past) view)
    (carried : task.editor.codec.Carries (Ledger.after task.mailbox (past ++ [task])).list.keys)
    (few : past.length < 2 ^ 63) :
    ∃ outcome next, task.plan.Alone task.mailbox view outcome next ∧ Due past task outcome ∧
      Reflects task.editor.codec (Ledger.after task.mailbox (past ++ [task])) next := by
  cases task with
  | update => exact update_due allowed reflects carried few
  | reset => exact reset_due reflects carried
  | read => exact read_due reflects

end MailboxAccess
