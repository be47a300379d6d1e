import MailboxAccess.Proofs.Contents
import MailboxAccess.Proofs.Versions

namespace MailboxAccess

namespace Versioned

def edit (state : Option Versioned) (command : Command) : Option Versioned :=
  match state with
  | none => some ⟨Acl.empty.apply command, Record.firstVersion⟩
  | some current => some ⟨current.acl.apply command, current.version + 1⟩

theorem list_edit (state : Option Versioned) (command : Command) :
    list (edit state command) = (list state).apply command := by
  cases state <;> rfl

def replay (start : Option Versioned) (commands : List Command) : Option Versioned :=
  commands.foldl edit start

end Versioned

def committers (mailbox : MailboxId) (history : List Happening) : List Nat :=
  history.filterMap fun happening => (happening.stored? mailbox).map fun _ => happening.actor

def commandsOf (tasks : List Task) (actors : List Nat) : List Command :=
  actors.filterMap fun actor => tasks[actor]?.bind Task.command?

def serial (tasks : List Task) (start : Option Versioned) (actors : List Nat) : Option Versioned :=
  Versioned.replay start (commandsOf tasks actors)

theorem committers_concat (mailbox : MailboxId) (history : List Happening) (newest : Happening) :
    committers mailbox (history ++ [newest]) =
      committers mailbox history ++ ((newest.stored? mailbox).map fun _ => newest.actor).toList := by
  rw [committers, List.filterMap_append]
  cases stored : newest.stored? mailbox <;> simp [committers, stored]

theorem mem_committers_iff {mailbox : MailboxId} {history : List Happening} {actor : Nat} :
    actor ∈ committers mailbox history ↔ ∃ x record, ⟨actor, x⟩ ∈ history ∧ x.stored? mailbox = some record := by
  constructor
  · intro member
    rcases List.mem_filterMap.mp member with ⟨⟨_, x⟩, within, named⟩
    rcases Option.map_eq_some_iff.mp named with ⟨record, stored, rfl⟩
    exact ⟨x, record, within, stored⟩
  · intro ⟨x, record, within, stored⟩
    exact List.mem_filterMap.mpr ⟨_, within, Option.map_eq_some_iff.mpr ⟨record, stored, rfl⟩⟩

theorem serial_concat (tasks : List Task) (start : Option Versioned) (actors : List Nat) {actor : Nat}
    {editor : Editor} {mailbox : MailboxId} {command : Command}
    (present : tasks[actor]? = some (.update editor mailbox command)) :
    serial tasks start (actors ++ [actor]) = Versioned.edit (serial tasks start actors) command := by
  have named : tasks[actor]?.bind Task.command? = some command := by rw [present]; rfl
  simp [serial, commandsOf, Versioned.replay, named]

theorem length_committers (mailbox : MailboxId) (history : List Happening) :
    (committers mailbox history).length = (storedRecords mailbox history).length := by
  induction history using List.reverseRecOn with
  | nil => rfl
  | append_singleton history newest ih =>
      rw [committers_concat, storedRecords_concat, List.length_append, List.length_append, ih]
      cases newest.stored? mailbox <;> rfl

theorem Versioned.edit_eq {codec : Codec} {seen : Option Record} {state : Option Versioned} (command : Command)
    (decoded : codec.versioned seen = .ok state) :
    Versioned.edit state command = some ⟨(Versioned.list state).apply command, Editor.nextVersion seen⟩ := by
  cases seen with
  | none =>
      cases decoded
      rfl
  | some record =>
      rcases Codec.versioned_some decoded with ⟨acl, -, rfl⟩
      rfl

/-- What holds of updates at every moment: `start` is what the mailbox held at first. -/
structure Serial (tasks : List Task) (codec : Codec) (mailbox : MailboxId) (start : Option Versioned)
    (history : List Happening) (last : Race Outcome) : Prop where
  once : (committers mailbox history).Nodup
  /-- Versions follow on from that of the first record, without gaps. -/
  numbered : (storedRecords mailbox history).map (fun record => record.version.toNat) =
    List.range' (upcoming (start.map Versioned.version)) (committers mailbox history).length
  record : ∃ record, last.store.look (.read mailbox) = .ok record ∧
    codec.versioned record = .ok (serial tasks start (committers mailbox history))
  /-- Whoever reads the record finds the updates up to then, and no others. -/
  reads : ∀ before actor seen after,
    history = before ++ ⟨actor, .store (.read mailbox), .ok seen⟩ :: after →
      codec.versioned seen = .ok (serial tasks start (committers mailbox before))
  found : ∀ actor state, last.result? actor = some (.ok (.found state)) →
    ∃ before seen after, history = before ++ ⟨actor, .store (.read mailbox), .ok seen⟩ :: after ∧
      state = serial tasks start (committers mailbox before)
  /-- A commit that was returned or announced took its turn among the others. -/
  commits : ∀ actor commit,
    (last.result? actor = some (.ok (.committed commit)) ∨
      ∃ listener coped, ⟨actor, .notify listener commit, coped⟩ ∈ history) →
    ∃ front back acl, committers mailbox history = front ++ actor :: back ∧ commit.mailbox = mailbox ∧
      commit.version.toNat = upcoming (start.map Versioned.version) + front.length ∧
      serial tasks start (front ++ [actor]) = some ⟨acl, commit.version⟩ ∧
      commit.diff = Diff.between (Versioned.list (serial tasks start front)) acl
  /-- An update that has failed was not stored, unless it was a request that failed. -/
  errors : ∀ actor e, last.result? actor = some (.error e) → actor ∈ committers mailbox history →
    ∃ x ∈ own actor history, x.Failed

section Course

variable {tasks : List Task} {codec : Codec} {mailbox : MailboxId} {keys : List EntryKey} {view : View}
  {start : Option Versioned}

theorem Course.replaced_eq {before : List Happening} {actor : Nat} {seen : Option Record}
    (course : Course tasks mailbox view before)
    (calm : ∀ happening ∈ before, ¬ happening.Overwrites mailbox)
    (few : upcoming (view.record.map Record.version) + (storedRecords mailbox before).length ≤ 2 ^ 64)
    (attempting : Editor.Attempting mailbox (own actor before) seen)
    (current : (view.replay mailbox before).record.map Record.version = seen.map Record.version) :
    (view.replay mailbox before).record = seen := by
  rcases course.seen_before attempting with ⟨earlier, later, rfl, rfl⟩
  exact course.record_eq calm few current

theorem Course.serial_record {history : List Happening} (course : Course tasks mailbox view history)
    (calm : ∀ happening ∈ history, ¬ happening.Overwrites mailbox)
    (fits : ∀ task ∈ tasks, task.Fits codec mailbox keys) (carried : codec.Carries keys)
    (decoded : codec.versioned view.record = .ok start) (within : (Versioned.list start).keys ⊆ keys)
    (few : upcoming (view.record.map Record.version) + (storedRecords mailbox history).length ≤ 2 ^ 64) :
    codec.versioned (view.replay mailbox history).record =
      .ok (serial tasks start (committers mailbox history)) := by
  induction course with
  | nil => exact decoded
  | @concat history actor task x course present moves permitted ih =>
      rw [storedRecords_append, List.length_append] at few
      have before (happening : Happening) (member : happening ∈ history) : ¬ happening.Overwrites mailbox :=
        calm happening (List.mem_append_left _ member)
      have soFar := ih before (by omega)
      rw [View.replay_concat, View.record_next, committers_concat, Happening.stored?]
      cases stored : x.stored? mailbox with
      | none =>
          rw [Option.none_or, Option.map_none, Option.toList_none, List.append_nil]
          exact soFar
      | some record =>
          have stores := (course.concat present moves permitted).stores stored
          rw [Option.some_or, Option.map_some, Option.toList_some]
          cases stores with
          | @update _ editor command seen _ present attempting call won current =>
              rcases fits _ (List.mem_of_getElem? present) with ⟨rfl, -, given⟩
              -- versions have not come back, so the list was made from the record that it replaces
              have replaced := course.replaced_eq before (by omega) attempting current
              have legible := course.legible fits carried ⟨start, decoded, within⟩
              rw [replaced] at soFar legible
              calc
                _ = .ok (some ⟨editor.edited command seen, Editor.nextVersion seen⟩) :=
                  Codec.versioned_encode carried (Editor.keys_edited legible given)
                _ = .ok (Versioned.edit (serial tasks start (committers mailbox history)) command) := by
                  rw [Versioned.edit_eq command soFar, Editor.edited, Editor.base, Codec.listOf_eq soFar]
                _ = _ := by rw [serial_concat tasks start _ present]
          | reset present first =>
              exact absurd ⟨_, rfl⟩ (calm _ (List.mem_append_right _ List.mem_cons_self))

/-- No task stores a record twice. -/
theorem Course.nodup_committers {history : List Happening} (course : Course tasks mailbox view history) :
    (committers mailbox history).Nodup := by
  induction course with
  | nil => exact List.nodup_nil
  | @concat history actor task x course present moves permitted ih =>
      rw [committers_concat, Happening.stored?]
      cases stored : x.stored? mailbox with
      | none =>
          rw [Option.map_none, Option.toList_none, List.append_nil]
          exact ih
      | some record =>
          rw [Option.map_some, Option.toList_some]
          refine List.nodup_append.mpr ⟨ih, List.nodup_singleton actor, ?_⟩
          intro other member same again
          rw [List.mem_singleton.mp again]
          intro same
          subst same
          rcases mem_committers_iff.mp member with ⟨y, older, within, storedOlder⟩
          have earlier := mem_own_iff.mpr within
          have stores := (course.concat present moves permitted).stores stored
          cases stores with
          | update present attempting call won current =>
              -- an update attempts nothing after it has stored its list
              rw [(attempting.idle y earlier).stored] at storedOlder
              cases storedOlder
          | reset present first =>
              rw [first] at earlier
              cases earlier

theorem Course.numbered {history : List Happening} (course : Course tasks mailbox view history)
    (calm : ∀ happening ∈ history, ¬ happening.Overwrites mailbox)
    (few : upcoming (view.record.map Record.version) + (storedRecords mailbox history).length ≤ 2 ^ 64) :
    (storedRecords mailbox history).map (fun record => record.version.toNat) =
      List.range' (upcoming (view.record.map Record.version)) (storedRecords mailbox history).length := by
  induction course with
  | nil => rfl
  | @concat history actor task x course present moves permitted ih =>
      have before (happening : Happening) (member : happening ∈ history) : ¬ happening.Overwrites mailbox :=
        calm happening (List.mem_append_left _ member)
      rw [storedRecords_concat, Happening.stored?] at few ⊢
      cases stored : x.stored? mailbox with
      | none =>
          rw [stored, Option.toList_none, List.append_nil] at few
          rw [Option.toList_none, List.append_nil]
          exact ih before few
      | some record =>
          rw [stored, Option.toList_some, List.length_append, List.length_singleton] at few
          have version := ((course.concat present moves permitted).stores stored).version
            (calm _ (List.mem_append_right _ List.mem_cons_self))
          have number := course.upcoming_eq before (by omega)
          have next : record.version.toNat = upcoming ((view.replay mailbox history).record.map Record.version) := by
            apply toNat_of_bump (n := 0)
            · rw [number]
              omega
            · exact version.symm
          rw [Option.toList_some, List.map_append, List.length_append, List.length_singleton,
            List.range'_concat, ih before (by omega), List.map_singleton, next, number, Nat.one_mul]

theorem Course.committed_of_notify {before after : List Happening} {actor listener : Nat} {commit : Commit}
    {coped : Call.Answer (.notify listener commit)}
    (course : Course tasks mailbox view (before ++ ⟨actor, .notify listener commit, coped⟩ :: after)) :
    ∃ editor place command seen, tasks[actor]? = some (.update editor place command) ∧
      editor.Committed place command seen (own actor before) ∧ commit = editor.commit place command seen := by
  rcases course.upTo.concat_cases with ⟨-, ⟨task, present, moves⟩, -⟩
  dsimp only at present moves
  generalize own actor before = past at moves
  cases moves with
  | update moves =>
      cases moves with
      | notify committed => exact ⟨_, _, _, _, present, committed, rfl⟩
  | repair began upkeep => cases upkeep

theorem Task.committed_of_ends {task : Task} {past : List Exchange} {commit : Commit}
    (ends : task.Ends past (.ok (.committed commit))) :
    ∃ editor place command seen, task = .update editor place command ∧
      editor.Committed place command seen past ∧ commit = editor.commit place command seen := by
  generalize told : (Except.ok (Outcome.committed commit) : Except AccessError Outcome) = result at ends
  cases ends with
  | @update _ _ _ _ result ends =>
      cases result with
      | error e => cases told
      | ok made =>
          cases told
          cases ends with
          | committed committed => exact ⟨_, _, _, _, rfl, committed, rfl⟩
  | @reset _ _ _ _ result => cases result <;> cases told
  | found => cases told
  | unread => cases told

theorem Task.found_of_ends {task : Task} {past : List Exchange} {state : Option Versioned}
    (ends : task.Ends past (.ok (.found state))) :
    ∃ editor place seen, task = .read editor place ∧ past = [⟨.store (.read place), .ok seen⟩] ∧
      state = editor.found seen := by
  generalize told : (Except.ok (Outcome.found state) : Except AccessError Outcome) = result at ends
  cases ends with
  | @update _ _ _ _ result => cases result <;> cases told
  | @reset _ _ _ _ result => cases result <;> cases told
  | found =>
      cases told
      exact ⟨_, _, _, rfl, rfl, rfl⟩
  | unread => cases told

theorem Race.committed_of_told {store : Store} {turns : List Turn} {history : List Happening} {last : Race Outcome}
    (ran : (Race.start store tasks).run turns = (history, last)) (course : Course tasks mailbox view history)
    {actor : Nat} {commit : Commit}
    (told : last.result? actor = some (.ok (.committed commit)) ∨
      ∃ listener coped, ⟨actor, .notify listener commit, coped⟩ ∈ history) :
    ∃ editor place command seen before after, history = before ++ after ∧
      tasks[actor]? = some (.update editor place command) ∧
      editor.Committed place command seen (own actor before) ∧ commit = editor.commit place command seen := by
  rcases told with returned | ⟨listener, coped, member⟩
  · rcases Race.ends_of_run ran returned with ⟨task, present, ends⟩
    rcases Task.committed_of_ends ends with ⟨editor, place, command, seen, rfl, committed, made⟩
    exact ⟨editor, place, command, seen, history, [], by simp, present, committed, made⟩
  · rcases List.append_of_mem member with ⟨before, after, split⟩
    rw [split] at course
    rcases course.committed_of_notify with ⟨editor, place, command, seen, present, committed, made⟩
    exact ⟨editor, place, command, seen, before, _, split, present, committed, made⟩

theorem Race.failed_of_committer {store : Store} {turns : List Turn} {history : List Happening} {last : Race Outcome}
    (ran : (Race.start store tasks).run turns = (history, last)) (fits : ∀ task ∈ tasks, task.Fits codec mailbox keys)
    {actor : Nat} {e : AccessError} (failed : last.result? actor = some (.error e))
    (member : actor ∈ committers mailbox history) : ∃ x ∈ own actor history, x.Failed := by
  rcases Race.ends_of_run ran failed with ⟨task, present, ends⟩
  rcases List.mem_filterMap.mp member with ⟨⟨other, x⟩, within, named⟩
  rcases Option.map_eq_some_iff.mp named with ⟨record, stored, rfl⟩
  refine Task.failed_of_ends ends (mem_own_iff.mpr within) ?_
  intro idle
  rw [(fits _ (List.mem_of_getElem? present)).mailbox_eq] at idle
  rw [show Happening.stored? mailbox ⟨other, x⟩ = none from idle.stored] at stored
  cases stored

theorem Course.commit_place {before after : List Happening} {actor : Nat} {editor : Editor} {command : Command}
    {seen : Option Record} (course : Course tasks mailbox view (before ++ after))
    (calm : ∀ happening ∈ before ++ after, ¬ happening.Overwrites mailbox)
    (fits : ∀ task ∈ tasks, task.Fits codec mailbox keys) (carried : codec.Carries keys)
    (decoded : codec.versioned view.record = .ok start) (within : (Versioned.list start).keys ⊆ keys)
    (few : upcoming (view.record.map Record.version) + (storedRecords mailbox (before ++ after)).length ≤ 2 ^ 64)
    (present : tasks[actor]? = some (.update editor mailbox command))
    (committed : editor.Committed mailbox command seen (own actor before)) :
    ∃ front back acl, committers mailbox (before ++ after) = front ++ actor :: back ∧
      (Editor.nextVersion seen).toNat = upcoming (view.record.map Record.version) + front.length ∧
      serial tasks start (front ++ [actor]) = some ⟨acl, Editor.nextVersion seen⟩ ∧
      (editor.commit mailbox command seen).diff =
        Diff.between (Versioned.list (serial tasks start front)) acl := by
  rcases committed with ⟨past, x, later, split, replaced⟩
  rcases exists_of_own split with ⟨earlier, rest, rfl, rfl, -⟩
  rw [List.append_assoc, List.cons_append] at course calm few ⊢
  have stored := Editor.stored_of_won replaced.call replaced.won
  have before (happening : Happening) (member : happening ∈ earlier) : ¬ happening.Overwrites mailbox :=
    calm happening (List.mem_append_left _ member)
  rw [storedRecords_append, List.length_append] at few
  have atMost : 1 ≤ (storedRecords mailbox (⟨actor, x⟩ :: (rest ++ after))).length := by
    rw [storedRecords, List.filterMap_cons_some (show Happening.stored? mailbox ⟨actor, x⟩ = _ from stored),
      List.length_cons]
    exact Nat.le_add_left 1 _
  have upTo := course.upTo
  have current := of_decide_eq_true
    (Editor.won_eq replaced.call replaced.won upTo.concat_cases.2.2).symm
  have same := upTo.earlier.replaced_eq before (by omega) replaced.attempting current
  have state := upTo.earlier.serial_record before fits carried decoded within (by omega)
  have number := upTo.earlier.upcoming_eq before (by omega)
  rw [same] at state number
  rcases fits _ (List.mem_of_getElem? present) with ⟨rfl, -, -⟩
  refine ⟨committers mailbox earlier, committers mailbox (rest ++ after), editor.edited command seen,
    ?_, ?_, ?_, ?_⟩
  · rw [committers, List.filterMap_append, List.filterMap_cons_some]
    · rfl
    · exact congrArg (Option.map fun _ => actor) stored
  · rw [length_committers, ← number]
    apply toNat_of_bump (n := 0)
    · rw [number]
      omega
    · cases seen <;> rfl
  · rw [serial_concat tasks start _ present, Versioned.edit_eq command state, Editor.edited,
      Editor.base, Codec.listOf_eq state]
  · rw [Editor.commit, Editor.base, Codec.listOf_eq state]

end Course

/-- Whatever the order in which updates and reads of a mailbox take their turns, and whatever goes wrong on
some of them, the updates that were stored are as good as made one by one. -/
theorem updates_serial {store : Store} {tasks : List Task} {codec : Codec} {mailbox : MailboxId}
    {keys : List EntryKey} {first : Option Record} {start : Option Versioned} {turns : List Turn}
    {history : List Happening} {last : Race Outcome}
    (fits : ∀ task ∈ tasks, task.Fits codec mailbox keys)
    (noReset : ∀ task ∈ tasks, ∀ editor acl, task ≠ .reset editor mailbox acl)
    (carried : codec.Carries keys) (shown : store.look (.read mailbox) = .ok first)
    (decoded : codec.versioned first = .ok start) (within : (Versioned.list start).keys ⊆ keys)
    (ran : (Race.start store tasks).run turns = (history, last))
    (few : upcoming (start.map Versioned.version) + (committers mailbox history).length ≤ 2 ^ 64) :
    Serial tasks codec mailbox start history last := by
  have course := Race.course_of_run ran mailbox
  have calm := course.calm noReset
  rw [← Store.record_of_look shown] at decoded
  rw [Codec.version_eq decoded, length_committers] at few
  have state (before after : List Happening) (split : history = before ++ after) :
      codec.versioned ((store.viewOf mailbox).replay mailbox before).record =
        .ok (serial tasks start (committers mailbox before)) := by
    subst split
    rw [storedRecords_append, List.length_append] at few
    exact course.earlier.serial_record (fun happening member => calm happening (List.mem_append_left _ member))
      fits carried decoded within (by omega)
  have reads (before : List Happening) (actor : Nat) (seen : Option Record) (after : List Happening)
      (split : history = before ++ ⟨actor, .store (.read mailbox), .ok seen⟩ :: after) :
      codec.versioned seen = .ok (serial tasks start (committers mailbox before)) := by
    have now := state before _ split
    rw [split] at course
    rwa [← course.seen_eq] at now
  constructor
  case once => exact course.nodup_committers
  case numbered =>
    rw [Codec.version_eq decoded, length_committers]
    exact course.numbered calm few
  case record => exact ⟨_, (Race.reaches_of_run ran).read shown, state history [] (by simp)⟩
  case reads => exact reads
  case found =>
    intro actor value done
    rcases Race.ends_of_run ran done with ⟨task, present, ends⟩
    rcases Task.found_of_ends ends with ⟨editor, place, seen, rfl, only, rfl⟩
    rcases fits _ (List.mem_of_getElem? present) with ⟨rfl, rfl⟩
    rcases exists_of_own (show own actor history = [] ++ _ :: [] from only) with ⟨before, after, split, -, -⟩
    exact ⟨before, seen, after, split, Editor.found_eq (reads before actor seen after split)⟩
  case commits =>
    intro actor commit told
    rcases Race.committed_of_told ran course told with
      ⟨editor, place, command, seen, before, after, split, present, committed, rfl⟩
    rcases fits _ (List.mem_of_getElem? present) with ⟨-, rfl, -⟩
    subst split
    rcases course.commit_place calm fits carried decoded within few present committed with
      ⟨front, back, acl, order, number, stands, diff⟩
    exact ⟨front, back, acl, order, rfl, Codec.version_eq decoded ▸ number, stands, diff⟩
  case errors => exact fun actor e failed member => Race.failed_of_committer ran fits failed member

def sampleMailbox : MailboxId := ⟨List.replicate 16 1, rfl⟩

def sampleEditor : Editor := ⟨⟨5⟩, .json, false, 0⟩

def addReader : Command := ⟨.anyone, .add, .only .lookup⟩

def giveOwner : Command := ⟨.owner, .replace, .full⟩

def sampleTasks : List Task :=
  [.update sampleEditor sampleMailbox addReader, .update sampleEditor sampleMailbox giveOwner,
    .read sampleEditor sampleMailbox]

/-- Both updates read before either writes, so that the first one has to begin again. -/
def sampleTurns : List Turn := [.act 0, .act 1, .act 1, .act 0, .act 0, .act 0, .act 2]

theorem updates_serial_of_two :
    committers sampleMailbox ((Race.start Store.inMemory sampleTasks).run sampleTurns).1 = [1, 0] ∧
      Serial sampleTasks .json sampleMailbox none ((Race.start Store.inMemory sampleTasks).run sampleTurns).1
        ((Race.start Store.inMemory sampleTasks).run sampleTurns).2 := by
  have order : committers sampleMailbox ((Race.start Store.inMemory sampleTasks).run sampleTurns).1 = [1, 0] := by
    decide +kernel
  have fits : ∀ task ∈ sampleTasks, task.Fits .json sampleMailbox [.anyone, .owner] := by
    simp [sampleTasks, Task.Fits, sampleEditor, addReader, giveOwner]
  refine ⟨order, updates_serial fits ?_ trivial rfl rfl ?_ rfl ?_⟩
  · simp [sampleTasks]
  · decide
  · rw [order]
    decide

end MailboxAccess
