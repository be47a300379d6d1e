import MailboxAccess.Proofs.Healing
import MailboxAccess.Proofs.Serial

/-!
Edits that do not stand in each other's way: those of different keys, those that all add, those that all take away,
and those that are the same. Two of them commute (`Acl.apply_comm`), so a list of them may be rearranged, and what
racing updates leave does not tell the order in which they were stored (`compatible_order_free`).
-/
namespace MailboxAccess

/-- It does not matter which of the two comes first. -/
def Command.Compatible (first second : Command) : Prop :=
  first.key ≠ second.key ∨ (first.mode = .add ∧ second.mode = .add) ∨
    (first.mode = .remove ∧ second.mode = .remove) ∨ first = second

instance (first second : Command) : Decidable (first.Compatible second) :=
  inferInstanceAs (Decidable (first.key ≠ second.key ∨ (first.mode = .add ∧ second.mode = .add) ∨
    (first.mode = .remove ∧ second.mode = .remove) ∨ first = second))

theorem Mode.edit_comm {mode : Mode} (keeps : mode ≠ .replace) (held given other : Rights) :
    mode.edit (mode.edit held given) other = mode.edit (mode.edit held other) given := by
  apply Rights.ext_contains
  intro right
  cases mode with
  | add => simp only [edit, Rights.contains_union, Bool.or_assoc, Bool.or_comm (given.contains right)]
  | remove => simp only [edit, Rights.contains_except, Bool.and_assoc, Bool.and_comm (!given.contains right)]
  | replace => exact absurd rfl keeps

namespace Acl

theorem apply_comm_of_edit {first second : Command}
    (swap : first.key = second.key → ∀ held, second.mode.edit (first.mode.edit held first.rights) second.rights =
      first.mode.edit (second.mode.edit held second.rights) first.rights) (acl : Acl) :
    (acl.apply first).apply second = (acl.apply second).apply first := by
  apply ext_rightsOf
  intro key
  simp only [rightsOf_apply]
  by_cases one : key = first.key
  · by_cases two : key = second.key
    · rw [if_pos one, if_pos one, if_pos two, if_pos two]
      exact swap (one.symm.trans two) _
    · rw [if_neg two, if_neg two]
  · rw [if_neg one, if_neg one]

theorem apply_comm {first second : Command} (compatible : first.Compatible second) (acl : Acl) :
    (acl.apply first).apply second = (acl.apply second).apply first := by
  rcases compatible with apart | ⟨adds, adds'⟩ | ⟨removes, removes'⟩ | rfl
  · exact apply_comm_of_edit (fun same => absurd same apart) acl
  · apply apply_comm_of_edit
    intro _ held
    rw [adds, adds']
    exact Mode.edit_comm (by decide) held _ _
  · apply apply_comm_of_edit
    intro _ held
    rw [removes, removes']
    exact Mode.edit_comm (by decide) held _ _
  · rfl

theorem apply_apply (acl : Acl) (command : Command) : (acl.apply command).apply command = acl.apply command := by
  apply ext_rightsOf
  intro key
  simp only [rightsOf_apply]
  by_cases same : key = command.key
  · rw [if_pos same, if_pos same, Mode.edit_edit]
  · rw [if_neg same, if_neg same]

end Acl

theorem Versioned.edit_comm {first second : Command} (compatible : first.Compatible second)
    (state : Option Versioned) : edit (edit state first) second = edit (edit state second) first := by
  cases state <;> simp only [edit, Acl.apply_comm compatible]

section Lists

variable {commands listed : List Command}

def AllCompatible (commands : List Command) : Prop :=
  ∀ first ∈ commands, ∀ second ∈ commands, first.Compatible second

theorem foldl_apply_perm (compatible : AllCompatible commands) (order : listed.Perm commands) (acl : Acl) :
    listed.foldl Acl.apply acl = commands.foldl Acl.apply acl :=
  order.foldl_eq' (fun first member second member' held =>
    Acl.apply_comm (compatible first (order.mem_iff.mp member) second (order.mem_iff.mp member')) held) acl

theorem Versioned.replay_perm (compatible : AllCompatible commands) (order : listed.Perm commands)
    (start : Option Versioned) : replay start listed = replay start commands :=
  order.foldl_eq' (fun first member second member' state =>
    Versioned.edit_comm (compatible first (order.mem_iff.mp member) second (order.mem_iff.mp member')) state) start

end Lists

section Tasks

variable {tasks : List Task}

theorem commandsOf_range (tasks : List Task) :
    commandsOf tasks (List.range tasks.length) = tasks.filterMap Task.command? := by
  induction tasks using List.reverseRecOn with
  | nil => rfl
  | append_singleton tasks newest ih =>
      have before : commandsOf (tasks ++ [newest]) (List.range tasks.length) =
          commandsOf tasks (List.range tasks.length) := by
        apply List.filterMap_congr
        intro actor member
        rw [List.getElem?_append_left (List.mem_range.mp member)]
      rw [List.length_append, List.length_singleton, List.range_succ, commandsOf, List.filterMap_append]
      rw [commandsOf] at before
      rw [before, ih, List.filterMap_append]
      simp [List.filterMap_cons]

theorem commandsOf_subset (actors : List Nat) : commandsOf tasks actors ⊆ tasks.filterMap Task.command? := by
  intro command member
  rcases List.mem_filterMap.mp member with ⟨actor, -, named⟩
  rcases Option.bind_eq_some_iff.mp named with ⟨task, present, told⟩
  exact List.mem_filterMap.mpr ⟨task, List.mem_of_getElem? present, told⟩

def updaters (tasks : List Task) : List Nat :=
  (List.range tasks.length).filter fun actor => (tasks[actor]?.bind Task.command?).isSome

theorem mem_updaters_iff {actor : Nat} :
    actor ∈ updaters tasks ↔ ∃ editor place command, tasks[actor]? = some (.update editor place command) := by
  rw [updaters, List.mem_filter, List.mem_range]
  constructor
  · intro ⟨bound, named⟩
    rcases Option.isSome_iff_exists.mp named with ⟨command, told⟩
    rcases Option.bind_eq_some_iff.mp told with ⟨task, present, updates⟩
    cases task with
    | update editor place command => exact ⟨editor, place, command, present⟩
    | reset => cases updates
    | read => cases updates
  · intro ⟨editor, place, command, present⟩
    exact ⟨(List.getElem?_eq_some_iff.mp present).1, by rw [present]; rfl⟩

theorem commandsOf_updaters (tasks : List Task) :
    commandsOf tasks (updaters tasks) = tasks.filterMap Task.command? := by
  rw [← commandsOf_range, commandsOf, updaters, List.filterMap_filter]
  apply List.filterMap_congr
  intro actor _
  cases tasks[actor]?.bind Task.command? <;> rfl

end Tasks

/-- Updates and reads of one mailbox, whose record stands for `start`, in a race that leaves room for their
versions. -/
structure Rivalry (store : Store) (tasks : List Task) (codec : Codec) (mailbox : MailboxId) (keys : List EntryKey)
    (start : Option Versioned) : Prop where
  fits : ∀ task ∈ tasks, task.Fits codec mailbox keys
  noReset : ∀ task ∈ tasks, ∀ editor acl, task ≠ .reset editor mailbox acl
  carried : codec.Carries keys
  legible : ∃ first, store.look (.read mailbox) = .ok first ∧ codec.versioned first = .ok start
  within : (Versioned.list start).keys ⊆ keys
  room : upcoming (start.map Versioned.version) + tasks.length ≤ 2 ^ 64

structure OrderFree (tasks : List Task) (codec : Codec) (mailbox : MailboxId) (start : Option Versioned)
    (history : List Happening) (last : Race Outcome) : Prop where
  /-- Those that were stored might have been stored in any other order. -/
  reordered : ∀ actors, actors.Perm (committers mailbox history) →
    ∃ record, last.store.look (.read mailbox) = .ok record ∧ codec.versioned record = .ok (serial tasks start actors)
  /-- When all updates have succeeded, it is the tasks alone that tell what is stored. -/
  complete : (∀ actor editor command, tasks[actor]? = some (.update editor mailbox command) →
      ∃ commit, last.result? actor = some (.ok (.committed commit))) →
    ∃ record, last.store.look (.read mailbox) = .ok record ∧
      codec.versioned record = .ok (Versioned.replay start (tasks.filterMap Task.command?))

section Race

variable {store : Store} {tasks : List Task} {codec : Codec} {mailbox : MailboxId} {keys : List EntryKey}
  {view : View} {start : Option Versioned} {turns : List Turn} {history : List Happening} {last : Race Outcome}

theorem Course.committers_subset (course : Course tasks mailbox view history)
    (calm : ∀ happening ∈ history, ¬ happening.Overwrites mailbox) : committers mailbox history ⊆ updaters tasks := by
  intro actor member
  rcases mem_committers_iff.mp member with ⟨x, record, within, stored⟩
  rcases List.append_of_mem within with ⟨before, after, rfl⟩
  cases course.upTo.stores stored with
  | update present attempting call won current => exact mem_updaters_iff.mpr ⟨_, _, _, present⟩
  | reset present first => exact absurd ⟨_, rfl⟩ (calm _ within)

theorem length_updaters_le (tasks : List Task) : (updaters tasks).length ≤ tasks.length := by
  rw [updaters]
  exact (List.length_filter_le _ _).trans_eq List.length_range

namespace Rivalry

theorem course (rivalry : Rivalry store tasks codec mailbox keys start)
    (ran : (Race.start store tasks).run turns = (history, last)) :
    Course tasks mailbox (store.viewOf mailbox) history ∧ (∀ happening ∈ history, ¬ happening.Overwrites mailbox) ∧
      codec.versioned (store.viewOf mailbox).record = .ok start ∧
      upcoming ((store.viewOf mailbox).record.map Record.version) + (storedRecords mailbox history).length ≤
        2 ^ 64 := by
  have course := Race.course_of_run ran mailbox
  have calm := course.calm rivalry.noReset
  rcases rivalry.legible with ⟨first, shown, decoded⟩
  rw [← Store.record_of_look shown] at decoded
  have few : (committers mailbox history).length ≤ tasks.length :=
    (course.nodup_committers.length_le_of_subset (course.committers_subset calm)).trans (length_updaters_le tasks)
  rw [length_committers] at few
  have room := rivalry.room
  rw [Codec.version_eq decoded] at room
  exact ⟨course, calm, decoded, by omega⟩

theorem record (rivalry : Rivalry store tasks codec mailbox keys start)
    (ran : (Race.start store tasks).run turns = (history, last)) :
    ∃ record, last.store.look (.read mailbox) = .ok record ∧
      codec.versioned record = .ok (serial tasks start (committers mailbox history)) := by
  rcases rivalry.course ran with ⟨course, calm, decoded, few⟩
  rcases rivalry.legible with ⟨first, shown, -⟩
  exact ⟨_, (Race.reaches_of_run ran).read shown,
    course.serial_record calm rivalry.fits rivalry.carried decoded rivalry.within few⟩

theorem committers_perm (rivalry : Rivalry store tasks codec mailbox keys start)
    (ran : (Race.start store tasks).run turns = (history, last))
    (succeeded : ∀ actor editor command, tasks[actor]? = some (.update editor mailbox command) →
      ∃ commit, last.result? actor = some (.ok (.committed commit))) :
    (updaters tasks).Perm (committers mailbox history) := by
  rcases rivalry.course ran with ⟨course, calm, decoded, few⟩
  have nodup : (updaters tasks).Nodup := List.nodup_range.filter _
  rw [List.perm_ext_iff_of_nodup nodup course.nodup_committers]
  intro actor
  constructor
  · intro member
    rcases mem_updaters_iff.mp member with ⟨editor, place, command, present⟩
    rcases rivalry.fits _ (List.mem_of_getElem? present) with ⟨-, rfl, -⟩
    rcases succeeded actor editor command present with ⟨commit, done⟩
    rcases Race.committed_of_told ran course (.inl done) with
      ⟨editor', place', command', seen, before, after, rfl, present', committed, -⟩
    rw [present] at present'
    cases present'
    rcases course.commit_place calm rivalry.fits rivalry.carried decoded rivalry.within few present committed with
      ⟨front, back, acl, order, -⟩
    rw [order]
    exact List.mem_append_right _ List.mem_cons_self
  · exact fun member => course.committers_subset calm member

theorem orderFree (rivalry : Rivalry store tasks codec mailbox keys start)
    (compatible : AllCompatible (tasks.filterMap Task.command?))
    (ran : (Race.start store tasks).run turns = (history, last)) :
    OrderFree tasks codec mailbox start history last := by
  rcases rivalry.record ran with ⟨record, shown, stands⟩
  have reordered (actors : List Nat) (order : actors.Perm (committers mailbox history)) :
      codec.versioned record = .ok (serial tasks start actors) := by
    have among : AllCompatible (commandsOf tasks (committers mailbox history)) :=
      fun first member second member' =>
        compatible first (commandsOf_subset _ member) second (commandsOf_subset _ member')
    have same : (commandsOf tasks actors).Perm (commandsOf tasks (committers mailbox history)) := order.filterMap _
    rw [stands, serial, serial, Versioned.replay_perm among same]
  constructor
  case reordered => exact fun actors order => ⟨record, shown, reordered actors order⟩
  case complete =>
    intro succeeded
    have all := reordered _ (rivalry.committers_perm ran succeeded)
    rw [serial, commandsOf_updaters] at all
    exact ⟨record, shown, all⟩

end Rivalry

end Race

/-- Compatible commands may come in any order, and each once more right after itself; and updates that race to make
them leave what does not depend on the schedule. -/
theorem compatible_order_free {commands : List Command} (compatible : AllCompatible commands) :
    (∀ (acl : Acl) (listed : List Command), listed.Perm commands →
        listed.foldl Acl.apply acl = commands.foldl Acl.apply acl) ∧
      (∀ (acl : Acl) (before : List Command) (command : Command) (after : List Command),
        commands = before ++ command :: after →
          (before ++ command :: command :: after).foldl Acl.apply acl = commands.foldl Acl.apply acl) ∧
      ∀ (store : Store) (tasks : List Task) (codec : Codec) (mailbox : MailboxId) (keys : List EntryKey)
        (start : Option Versioned) (turns : List Turn) (history : List Happening) (last : Race Outcome),
        Rivalry store tasks codec mailbox keys start → tasks.filterMap Task.command? = commands →
          (Race.start store tasks).run turns = (history, last) →
            OrderFree tasks codec mailbox start history last := by
  refine ⟨?_, ?_, ?_⟩
  · intro acl listed order
    exact foldl_apply_perm compatible order acl
  · intro acl before command after split
    rw [split, List.foldl_append, List.foldl_append, List.foldl_cons, List.foldl_cons, List.foldl_cons, Acl.apply_apply]
  · intro store tasks codec mailbox keys start turns history last rivalry same ran
    rw [← same] at compatible
    exact rivalry.orderFree compatible ran

def addPoster : Command := ⟨.anyone, .add, .only .post⟩

def sharingTasks : List Task :=
  [addReader, addPoster, giveOwner].map fun command => .update sampleEditor sampleMailbox command

def sharingRun (actors : List Nat) : List Happening × Race Outcome :=
  (Race.start Store.inMemory sharingTasks).run
    ([.act 0, .act 1, .act 2] ++ actors.flatMap fun actor => List.replicate 9 (.act actor))

theorem compatible_order_free_of_sharingRun :
    AllCompatible [addReader, addPoster, giveOwner] ∧
      [giveOwner, addPoster, addReader].foldl Acl.apply Acl.empty =
        [addReader, addPoster, giveOwner].foldl Acl.apply Acl.empty ∧
      committers sampleMailbox (sharingRun [2, 1, 0]).1 = [2, 1, 0] ∧
      committers sampleMailbox (sharingRun [0, 2, 1]).1 = [0, 2, 1] ∧
      OrderFree sharingTasks .json sampleMailbox none (sharingRun [2, 1, 0]).1 (sharingRun [2, 1, 0]).2 ∧
      OrderFree sharingTasks .json sampleMailbox none (sharingRun [0, 2, 1]).1 (sharingRun [0, 2, 1]).2 := by
  have compatible : AllCompatible [addReader, addPoster, giveOwner] := by
    unfold AllCompatible
    decide
  have rivalry : Rivalry Store.inMemory sharingTasks .json sampleMailbox [.anyone, .owner] none := by
    constructor
    case fits => simp [sharingTasks, Task.Fits, sampleEditor, addReader, addPoster, giveOwner]
    case noReset => simp [sharingTasks]
    case carried => trivial
    case legible => exact ⟨none, rfl, rfl⟩
    case within => exact List.nil_subset _
    case room => decide
  rcases compatible_order_free compatible with ⟨rearranged, -, raced⟩
  refine ⟨compatible, rearranged _ _ ?_, by decide +kernel, by decide +kernel, ?_, ?_⟩
  · exact List.reverse_perm [addReader, addPoster, giveOwner]
  · exact raced Store.inMemory _ _ _ _ _ _ _ _ rivalry rfl rfl
  · exact raced Store.inMemory _ _ _ _ _ _ _ _ rivalry rfl rfl

end MailboxAccess
