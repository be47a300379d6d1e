import MailboxAccess.Proofs.Editor.Knowledge

/-!
Runs that have come to an end, with every request answered. Each operation has by then told the index what
it stored, and knows of the rows what the record says that it found in the end.
-/
namespace MailboxAccess

/-- All tasks are done, no request has failed, and each operation that succeeded has found the record at a
version that its rows were brought up to; one that runs out of rounds ends with requests for rows. The rows
agreed with the record at first. -/
structure Finished (tasks : List Task) (codec : Codec) (mailbox : MailboxId) (keys : List EntryKey) (view : View)
    (start : Option Versioned) (history : List Happening) (last : Race Outcome) : Prop where
  fits : ∀ task ∈ tasks, task.Fits codec mailbox keys
  carried : codec.Carries keys
  decoded : codec.versioned view.record = .ok start
  within : (Versioned.list start).keys ⊆ keys
  rows : view.rows = (Versioned.list start).table
  returned : ∀ actor < tasks.length, ∃ result, last.result? actor = some result
  answered : ∀ happening ∈ history, ¬ happening.exchange.Failed
  settled : ∀ actor outcome, last.result? actor = some (.ok outcome) →
    (∀ editor place, tasks[actor]? ≠ some (.read editor place)) →
      ∃ front record, Settled mailbox front record (own actor history)

section Tasks

variable {codec : Codec} {mailbox : MailboxId} {keys : List EntryKey}

def Task.Learned (codec : Codec) (mailbox : MailboxId) (keys : List EntryKey) (past : List Exchange) : Task → Prop
  | update editor _ command =>
    (∃ seen, Legible codec keys seen ∧ editor.Reflected mailbox command seen past) ∧
      Confirmed editor mailbox past
  | reset editor _ acl =>
    (∀ key, ∃ y ∈ past, y.knows? mailbox key = some (acl.get? key)) ∧ Confirmed editor mailbox past
  | read _ _ => True

theorem Task.plan_learns {task : Task} (fits : task.Fits codec mailbox keys) (carried : codec.Carries keys) :
    task.plan.Meets (Readable codec mailbox keys) (fun _ _ => True)
      (Plan.Returns fun past _ => task.Learned codec mailbox keys past) [] := by
  cases task with
  | update editor place command =>
      rcases fits with ⟨rfl, rfl, given⟩
      refine (Editor.update_learns carried given).bind_returns ?_
      intro past commit learned
      exact Plan.returns_ok learned
  | reset editor place acl =>
      rcases fits with ⟨rfl, rfl, within⟩
      refine (Editor.reset_learns carried within).bind_returns ?_
      intro past done learned
      exact Plan.returns_ok learned
  | read editor place =>
      refine Coder.getVersioned_bind (fun _ _ => trivial) ?_ (fun _ => Plan.returns_error)
      intro seen _
      exact Plan.returns_ok trivial

variable {store : Store} {tasks : List Task} {view : View} {start : Option Versioned} {turns : List Turn}
  {history : List Happening} {last : Race Outcome}

theorem Finished.learned (finished : Finished tasks codec mailbox keys view start history last)
    (ran : (Race.start store tasks).run turns = (history, last)) (shown : store.view? mailbox = .ok view)
    {actor : Nat} {outcome : Outcome} (done : last.result? actor = some (.ok outcome)) :
    ∃ task, tasks[actor]? = some task ∧ task.Learned codec mailbox keys (own actor history) := by
  rcases Race.leads_of_run ran done with ⟨task, present, led⟩
  have fits := finished.fits task (List.mem_of_getElem? present)
  refine ⟨task, present, (led.meets (Task.plan_learns fits finished.carried) ?_).2 outcome rfl⟩
  intro x member seen read
  subst read
  have course := Race.course_of_view ran shown
  rcases List.append_of_mem (mem_own_iff.mp member) with ⟨before, after, rfl⟩
  rw [course.seen_eq]
  exact course.legible_prefix finished.fits finished.carried ⟨start, finished.decoded, finished.within⟩ before
    (List.prefix_append _ _)

theorem Finished.succeeded (finished : Finished tasks codec mailbox keys view start history last)
    (ran : (Race.start store tasks).run turns = (history, last)) {actor : Nat} {task : Task} {x : Exchange}
    (present : tasks[actor]? = some task) (member : x ∈ own actor history) (touched : ¬ x.Idle mailbox) :
    ∃ outcome, last.result? actor = some (.ok outcome) := by
  rcases finished.returned actor (List.getElem?_eq_some_iff.mp present).1 with ⟨result, done⟩
  cases result with
  | ok outcome => exact ⟨outcome, done⟩
  | error e =>
      rcases Race.ends_of_run ran done with ⟨other, present', ends⟩
      rw [present] at present'
      cases present'
      rw [← (finished.fits task (List.mem_of_getElem? present)).mailbox_eq] at touched
      rcases Task.failed_of_ends ends member touched with ⟨y, asked, failed⟩
      exact absurd failed (finished.answered _ (mem_own_iff.mp asked))

theorem Finished.learned_of_touched (finished : Finished tasks codec mailbox keys view start history last)
    (ran : (Race.start store tasks).run turns = (history, last)) (shown : store.view? mailbox = .ok view)
    {actor : Nat} {task : Task} {x : Exchange} (present : tasks[actor]? = some task) (member : x ∈ own actor history)
    (touched : ¬ x.Idle mailbox) : task.Learned codec mailbox keys (own actor history) := by
  rcases finished.succeeded ran present member touched with ⟨outcome, done⟩
  rcases finished.learned ran shown done with ⟨other, found, learned⟩
  rw [present] at found
  cases found
  exact learned

theorem Course.not_read {before after : List Happening} {actor : Nat} {x : Exchange}
    (course : Course tasks mailbox view (before ++ ⟨actor, x⟩ :: after)) (touched : ¬ x.Idle mailbox) :
    ∀ editor place, tasks[actor]? ≠ some (.read editor place) := by
  intro editor place reads
  rcases course.upTo.concat_cases with ⟨-, ⟨task, present, moves⟩, -⟩
  dsimp only at present moves
  rw [reads] at present
  cases present
  generalize own actor before = past at moves
  generalize called : x.call = c at moves
  cases moves with
  | read =>
      rcases x with ⟨c, answer⟩
      cases called
      exact touched (Editor.idle_read place answer)

theorem Finished.confirmed (finished : Finished tasks codec mailbox keys view start history last)
    (ran : (Race.start store tasks).run turns = (history, last)) (shown : store.view? mailbox = .ok view)
    {actor : Nat} {x : Exchange} (member : ⟨actor, x⟩ ∈ history) (touched : ¬ x.Idle mailbox) :
    ∃ front record older, Settled mailbox front record (own actor history) ∧
      latest (Exchange.shown? mailbox) front = some older ∧ older.version = record.version ∧
      ∀ key value, latest (Exchange.knows? mailbox key) front = some value →
        value = (codec.listOf (some older)).get? key := by
  have course := Race.course_of_view ran shown
  have notRead : ∀ editor place, tasks[actor]? ≠ some (.read editor place) := by
    rcases List.append_of_mem member with ⟨before, after, split⟩
    rw [split] at course
    exact course.not_read touched
  rcases (Race.reaches_of_run ran).exists_plan member with ⟨plan, planned⟩
  rcases Race.exists_task planned with ⟨task, present, -⟩
  dsimp only at present
  rcases finished.succeeded ran present (mem_own_iff.mpr member) touched with ⟨outcome, done⟩
  have learned := finished.learned_of_touched ran shown present (mem_own_iff.mpr member) touched
  rcases finished.settled actor outcome done notRead with ⟨front, record, settled⟩
  have confirmed : ∃ editor, editor.codec = codec ∧ Confirmed editor mailbox (own actor history) := by
    have fits := finished.fits task (List.mem_of_getElem? present)
    cases task with
    | update editor place command => exact ⟨editor, fits.1, learned.2⟩
    | reset editor place acl => exact ⟨editor, fits.1, learned.2⟩
    | read editor place => exact absurd present (notRead editor place)
  rcases confirmed with ⟨editor, rfl, confirms⟩
  rcases confirms front record settled with ⟨older, synced, version⟩
  exact ⟨front, record, older, settled, synced.shown, version, synced.known⟩

/-- Where a stored list differs from the one that it was made from, the row was brought up to date after
that, or found to be. -/
theorem Finished.covered (finished : Finished tasks codec mailbox keys view start history last)
    (ran : (Race.start store tasks).run turns = (history, last)) (shown : store.view? mailbox = .ok view)
    {before after : List Happening} {actor : Nat} {x : Exchange} {record : Record}
    (split : history = before ++ ⟨actor, x⟩ :: after) (stored : x.stored? mailbox = some record)
    (key : EntryKey) :
    (∃ y ∈ own actor after, y.knows? mailbox key = some ((codec.listOf (some record)).get? key)) ∨
      ∃ seen, Editor.Attempting mailbox (own actor before) seen ∧ x.won? = some true ∧
        (codec.listOf seen).get? key = (codec.listOf (some record)).get? key := by
  have course := Race.course_of_view ran shown
  have member : x ∈ own actor history := by
    rw [split, own_append, own_cons_self]
    simp
  have touched : ¬ x.Idle mailbox := by
    intro idle
    rw [idle.stored] at stored
    cases stored
  have stores : Stores tasks mailbox view before ⟨actor, x⟩ record := by
    rw [split] at course
    exact course.upTo.stores stored
  have ownSplit : own actor history = own actor before ++ x :: own actor after := by
    rw [split, own_append, own_cons_self]
  cases stores with
  | @update _ editor command seen _ present attempting call won current =>
      rcases finished.fits _ (List.mem_of_getElem? present) with ⟨rfl, -, given⟩
      rcases finished.learned_of_touched ran shown present member touched with ⟨⟨read, legible, reflected⟩, -⟩
      rw [ownSplit] at reflected
      rcases reflected.known_later (by rw [stored]; exact nofun) key with ⟨reading, same, known⟩
      rw [stored] at same
      have list : editor.base (some ⟨editor.codec.encode (editor.edited command seen), Editor.nextVersion seen⟩) =
          editor.edited command read := by
        rw [Option.some.inj same]
        exact Editor.base_encode finished.carried (Editor.keys_edited legible given)
      rw [Editor.base] at list
      rw [list]
      rcases known with later | unchanged
      · exact .inl later
      · exact .inr ⟨read, reading, won, unchanged⟩
  | @reset _ editor acl present first =>
      rcases finished.fits _ (List.mem_of_getElem? present) with ⟨rfl, -, within⟩
      rcases finished.learned_of_touched ran shown present member touched with ⟨told, -⟩
      have list : editor.base (some ⟨editor.codec.encode acl, Record.firstVersion⟩) = acl :=
        Editor.base_encode finished.carried within
      rw [Editor.base] at list
      rw [list]
      rcases told key with ⟨y, known, knows⟩
      rw [ownSplit, first, List.nil_append] at known
      rcases List.mem_cons.mp known with rfl | after
      · cases knows
      · exact .inl ⟨y, after, knows⟩

end Tasks

end MailboxAccess
