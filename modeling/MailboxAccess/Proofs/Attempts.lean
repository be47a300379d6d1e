import MailboxAccess.Proofs.Serial

/-!
What becomes of the attempts of updates when others write the record too, resets included. An attempt whose
record was written in the meantime loses, except where the record has come back to the version that was
read: a reset begins the versions anew, and they wrap around (`Course.version_eq_iff`).
-/
namespace MailboxAccess

/-- In the meantime the record was written, and in the end it had the version of `seen` again. -/
inductive Reappears (mailbox : MailboxId) (seen : Option Record) : List Happening → Prop where
  /-- As many updates followed the last reset as the version says. -/
  | reset {earlier later : List Happening} {reset : Happening} (overwrites : reset.Overwrites mailbox)
      (calm : ∀ happening ∈ later, ¬ happening.Overwrites mailbox)
      (again : seen.map Record.version = some (UInt64.ofNat (storedRecords mailbox later).length)) :
      Reappears mailbox seen (earlier ++ reset :: later)
  /-- The versions have wrapped around. -/
  | wrapped {between : List Happening} (calm : ∀ happening ∈ between, ¬ happening.Overwrites mailbox)
      (there : seen ≠ none) (written : storedRecords mailbox between ≠ [])
      (round : 2 ^ 64 ∣ (storedRecords mailbox between).length) : Reappears mailbox seen between

structure Retries (mailbox : MailboxId) (editor : Editor) (actor : Nat) (after : List Happening)
    (last : Race Outcome) : Prop where
  next : ∀ middle x later, after = middle ++ ⟨actor, x⟩ :: later → own actor middle = [] →
    x.call = .store (.read mailbox)
  result : ∀ result, own actor after = [] → last.result? actor = some result →
    result = .error (.retriesExhausted mailbox editor.attempts)

variable {tasks : List Task} {mailbox : MailboxId} {view : View}

theorem Happening.Overwrites.stored {happening : Happening} (overwrites : happening.Overwrites mailbox) :
    ∃ record, happening.stored? mailbox = some record ∧ record.version = Record.firstVersion := by
  rcases overwrites with ⟨acl, same⟩
  refine ⟨⟨acl, Record.firstVersion⟩, ?_, rfl⟩
  rw [Happening.stored?, same]
  exact if_pos rfl

theorem Course.version_since_reset {earlier later : List Happening} {reset : Happening}
    (course : Course tasks mailbox view (earlier ++ reset :: later)) (overwrites : reset.Overwrites mailbox)
    (calm : ∀ happening ∈ later, ¬ happening.Overwrites mailbox) :
    (view.replay mailbox (earlier ++ reset :: later)).record.map Record.version =
      some (UInt64.ofNat (storedRecords mailbox later).length) := by
  rcases overwrites.stored with ⟨record, stored, version⟩
  have since : (view.replay mailbox (earlier ++ [reset])).record = some record := by
    rw [View.replay_concat, View.record_next, show reset.exchange.stored? mailbox = some record from stored,
      Option.some_or]
  rw [List.append_cons] at course ⊢
  calc
    _ = bump^[(storedRecords mailbox later).length]
        ((view.replay mailbox (earlier ++ [reset])).record.map Record.version) := course.version_eq calm
    _ = bump^[(storedRecords mailbox later).length] (some Record.firstVersion) := by
      rw [since, Option.map_some, version]
    _ = some (UInt64.ofNat (storedRecords mailbox later).length) := by
      rw [bump_iterate_some]
      simp [Record.firstVersion]

/-- The record is back at the version that was read just in case nobody wrote it, or it reappears. -/
theorem Course.version_eq_iff {earlier between : List Happening}
    (course : Course tasks mailbox view (earlier ++ between)) :
    (view.replay mailbox (earlier ++ between)).record.map Record.version =
        (view.replay mailbox earlier).record.map Record.version ↔
      storedRecords mailbox between = [] ∨ Reappears mailbox (view.replay mailbox earlier).record between := by
  constructor
  · intro same
    -- versions have counted the commits since the last reset, if there was one
    rcases never_or_last (Happening.Overwrites mailbox) between with
      calm | ⟨front, reset, later, rfl, overwrites, calm⟩
    · rw [course.version_eq calm] at same
      by_cases written : storedRecords mailbox between = []
      · exact .inl written
      · cases seen : (view.replay mailbox earlier).record with
        | none =>
            rw [seen, Option.map_none, bump_iterate_none_eq_iff, List.length_eq_zero_iff] at same
            exact absurd same written
        | some record =>
            rw [seen, Option.map_some, bump_iterate_some_eq_iff] at same
            exact .inr (.wrapped calm nofun written same)
    · rw [← List.append_assoc] at course same
      rw [course.version_since_reset overwrites calm] at same
      exact .inr (.reset overwrites calm same.symm)
  · intro either
    rcases either with quiet | reappears
    · rw [record_replay_append quiet]
    · cases reappears with
      | @reset front later reset overwrites calm again =>
          rw [← List.append_assoc] at course ⊢
          rw [course.version_since_reset overwrites calm, again]
      | wrapped calm there written round =>
          rcases Option.ne_none_iff_exists'.mp there with ⟨record, seen⟩
          rw [course.version_eq calm, seen, Option.map_some, bump_iterate_some_eq_iff]
          exact round

/-- What becomes of an attempt, seen from its conditional write: `seen` is the record that it has read, and
`between` is what has happened since. -/
structure Attempt (mailbox : MailboxId) (editor : Editor) (command : Command) (view : View) (actor : Nat)
    (before : List Happening) (x : Exchange) (won : Bool) (seen : Option Record)
    (earlier between : List Happening) : Prop where
  read : before = earlier ++ ⟨actor, .store (.read mailbox), .ok seen⟩ :: between
  hooked : ∀ y ∈ own actor between, ∃ attempt, y.call = .hook mailbox attempt
  call : x.call = .store (Editor.replacing mailbox (editor.codec.encode (editor.edited command seen)) seen)
  decided : won = true ↔ storedRecords mailbox between = [] ∨ Reappears mailbox seen between
  stored : won = true → ¬ Reappears mailbox seen between →
    x.stored? mailbox = some
      ⟨editor.codec.encode ((editor.base (view.replay mailbox before).record).apply command),
        Editor.nextVersion (view.replay mailbox before).record⟩

variable {store : Store} {turns : List Turn} {history : List Happening} {last : Race Outcome}

theorem Course.moves_of_update {before after : List Happening} {actor : Nat} {editor : Editor}
    {command : Command} {x : Exchange} (course : Course tasks mailbox view (before ++ ⟨actor, x⟩ :: after))
    (present : tasks[actor]? = some (.update editor mailbox command)) :
    editor.Moves mailbox command (own actor before) x.call := by
  rcases course.upTo.concat_cases with ⟨-, ⟨task, found, moves⟩, -⟩
  dsimp only at found moves
  rw [present] at found
  cases found
  cases moves with
  | update moves => exact moves

theorem Editor.Moves.attempting {editor : Editor} {command : Command} {past : List Exchange} {x : Exchange}
    {won : Bool} (moves : editor.Moves mailbox command past x.call) (told : x.won? = some won) :
    ∃ seen, Editor.Attempting mailbox past seen ∧
      x.call = .store (Editor.replacing mailbox (editor.codec.encode (editor.edited command seen)) seen) := by
  have silent (nothing : x.won? = none) :
      ∃ seen, Editor.Attempting mailbox past seen ∧
        x.call = .store (Editor.replacing mailbox (editor.codec.encode (editor.edited command seen)) seen) := by
    rw [nothing] at told
    cases told
  rcases x with ⟨c, answer⟩
  cases moves with
  | read => exact silent (by cases answer <;> rfl)
  | hook => exact silent rfl
  | notify => exact silent rfl
  | index committed rowwise => exact silent (@Upkeep.quiet mailbox mailbox ⟨_, answer⟩ (.rows rowwise)).2
  | replace attempting => exact ⟨_, attempting, rfl⟩

theorem Course.attempt {before : List Happening} {actor : Nat} {editor : Editor} {command : Command}
    {x : Exchange} {won : Bool} {seen : Option Record} (course : Course tasks mailbox view (before ++ [⟨actor, x⟩]))
    (attempting : Editor.Attempting mailbox (own actor before) seen)
    (call : x.call = .store (Editor.replacing mailbox (editor.codec.encode (editor.edited command seen)) seen))
    (told : x.won? = some won) :
    ∃ earlier between, Attempt mailbox editor command view actor before x won seen earlier between := by
  have permitted := course.concat_cases.2.2
  rcases attempting.read with ⟨past, hooks, ownSplit, hooked⟩
  rcases exists_of_own ownSplit with ⟨earlier, between, rfl, -, rfl⟩
  have asked := course.earlier
  have same : (view.replay mailbox (earlier ++ [⟨actor, .store (.read mailbox), .ok seen⟩])).record = seen := by
    rw [View.replay_concat, View.record_next, show Exchange.stored? mailbox _ = none from rfl, Option.none_or]
    exact asked.seen_eq.symm
  rw [List.append_cons] at asked
  have version := asked.version_eq_iff
  rw [same, ← List.append_cons] at version
  have outcome := Editor.won_eq call told permitted
  refine ⟨earlier, between, rfl, hooked, call, ?_, ?_⟩
  · rw [outcome, decide_eq_true_iff]
    exact version
  · intro taken genuine
    have quiet : storedRecords mailbox between = [] := by
      rw [outcome, decide_eq_true_iff, version] at taken
      exact taken.resolve_right genuine
    have current : (view.replay mailbox
        (earlier ++ ⟨actor, .store (.read mailbox), .ok seen⟩ :: between)).record = seen := by
      rw [List.append_cons, record_replay_append quiet, same]
    rw [current]
    exact Editor.stored_of_won call (taken ▸ told)

theorem Race.retries_of_lost {before after : List Happening} {actor : Nat} {editor : Editor} {command : Command}
    {x : Exchange} (ran : (Race.start store tasks).run turns = (before ++ ⟨actor, x⟩ :: after, last))
    (present : tasks[actor]? = some (.update editor mailbox command))
    (lost : x.won? = some false) : Retries mailbox editor actor after last := by
  constructor
  case next =>
    intro middle y later parts idle
    have course := Race.course_of_run ran mailbox
    rw [parts, ← List.cons_append, ← List.append_assoc] at course
    have moves := course.moves_of_update present
    rw [own_append, own_cons_self, idle] at moves
    exact moves.after_lost lost
  case result =>
    intro result idle done
    rcases Race.ends_of_run ran done with ⟨task, found, ends⟩
    rw [present] at found
    cases found
    rw [own_append, own_cons_self, idle] at ends
    cases ends with
    | update ends =>
        rw [ends.after_lost lost]
        rfl

/-- An attempt is lost if the record was written in the meantime, unless it reappears; if it is won and the
record has not reappeared, the command was applied to what was stored at that very moment; and if it is
lost, the update tries again, or reports that it may not. -/
theorem attempt_outcome {before after : List Happening} {actor : Nat} {editor : Editor} {command : Command}
    {x : Exchange} {won : Bool} (ran : (Race.start store tasks).run turns = (history, last))
    (split : history = before ++ ⟨actor, x⟩ :: after)
    (present : tasks[actor]? = some (.update editor mailbox command)) (told : x.won? = some won) :
    (∃ seen earlier between,
        Attempt mailbox editor command (store.viewOf mailbox) actor before x won seen earlier between) ∧
      (won = false → Retries mailbox editor actor after last) := by
  have course := Race.course_of_run ran mailbox
  subst split
  rcases (course.moves_of_update present).attempting told with ⟨seen, attempting, call⟩
  constructor
  · exact ⟨seen, course.upTo.attempt attempting call told⟩
  · intro lost
    subst lost
    exact Race.retries_of_lost ran present told

def undoneTasks : List Task :=
  [.update sampleEditor sampleMailbox giveOwner, .update sampleEditor sampleMailbox addReader,
    .reset sampleEditor sampleMailbox Acl.empty]

/-- The second update reads what the first one has stored, and then the reset takes its course. -/
def resetTurns : List Turn :=
  [.act 0, .act 0, .act 0, .act 0, .act 1, .act 2, .act 2, .act 2, .act 2]

def resetRun : List Happening × Race Outcome :=
  (Race.start Store.inMemory undoneTasks).run resetTurns

def undoneRun : List Happening × Race Outcome :=
  (Race.start Store.inMemory undoneTasks).run (resetTurns ++ [.act 1, .act 1, .act 1])

theorem attempt_outcome_after_reset :
    ∃ before x after, undoneRun.1 = before ++ ⟨1, x⟩ :: after ∧ x.won? = some true ∧
      ∃ seen earlier between, Attempt sampleMailbox sampleEditor addReader ⟨none, SortedMap.empty⟩ 1 before x
        true seen earlier between := by
  have taken : undoneRun.1.any (fun happening =>
      happening.actor = 1 && happening.exchange.won? == some true) = true := by
    decide +kernel
  rcases List.any_eq_true.mp taken with ⟨⟨actor, x⟩, member, won⟩
  simp only [Bool.and_eq_true, decide_eq_true_eq, beq_iff_eq] at won
  rcases won with ⟨rfl, told⟩
  rcases List.append_of_mem member with ⟨before, after, split⟩
  exact ⟨before, x, after, split, told,
    (attempt_outcome (show _ = (undoneRun.1, undoneRun.2) from rfl) split rfl told).1⟩

theorem reset_undone :
    resetRun.2.result? 2 = some (.ok .replaced) ∧
      resetRun.2.store.view? sampleMailbox =
        .ok ⟨some ⟨Codec.json.encode .empty, 0⟩, SortedMap.empty⟩ ∧
      undoneRun.2.result? 1 = some (.ok (.committed ⟨sampleMailbox, 1,
        Diff.between (Acl.empty.apply giveOwner) ((Acl.empty.apply giveOwner).apply addReader)⟩)) ∧
      (undoneRun.2.store.view? sampleMailbox).map View.record =
        .ok (some ⟨Codec.json.encode ((Acl.empty.apply giveOwner).apply addReader), 1⟩) ∧
      (Acl.empty.apply giveOwner).apply addReader ≠ Acl.empty.apply addReader := by
  decide +kernel

end MailboxAccess
