import MailboxAccess.Proofs.Finished
import MailboxAccess.Proofs.Serial

/-!
When all operations on a mailbox are over, its rows are those of its list (`Finished.rows_eq`), provided that
no task took a version for another one of the same number (`Genuine`). Each row is what the last writer of
the row found in the list that it synchronised with (`Finished.last_row`).
-/
namespace MailboxAccess

/-- Wherever a task took a version that it knew for the one that was there, their lists agreed. -/
structure Genuine (codec : Codec) (mailbox : MailboxId) (view : View) (history : List Happening) : Prop where
  replaced : ∀ before actor x after seen record, history = before ++ ⟨actor, x⟩ :: after →
    x.stored? mailbox = some record → Editor.Attempting mailbox (own actor before) seen →
      codec.listOf (view.replay mailbox before).record = codec.listOf seen
  settled : ∀ actor front record older, Settled mailbox front record (own actor history) →
    latest (Exchange.shown? mailbox) front = some older → older.version = record.version →
      codec.listOf (some older) = codec.listOf (some record)

theorem Exchange.knows_cases {mailbox : MailboxId} {key : EntryKey} {x : Exchange} {value : Option Rights}
    (knows : x.knows? mailbox key = some value) :
    x.row? mailbox key = some value ∨
      ∃ rows : SortedMap EntryKey Rights, x = ⟨.store (.listMailbox mailbox), .ok rows⟩ ∧
        (Acl.ofEntries rows.entries).get? key = value := by
  unfold knows? at knows
  split at knows
  · next place rows =>
      split at knows
      · next here =>
          subst here
          exact .inr ⟨rows, rfl, Option.some.inj knows⟩
      · cases knows
  · exact .inl knows

theorem Exchange.knows_of_row {mailbox : MailboxId} {key : EntryKey} {x : Exchange} {value : Option Rights}
    (row : x.row? mailbox key = some value) : x.knows? mailbox key = some value := by
  unfold knows?
  split
  · cases row
  · exact row

theorem rows_still {mailbox : MailboxId} {view : View} {key : EntryKey} {earlier later : List Happening}
    (still : ∀ happening ∈ later, happening.row? mailbox key = none) :
    (view.replay mailbox (earlier ++ later)).rows.get? key = (view.replay mailbox earlier).rows.get? key := by
  calc
    _ = ((view.replay mailbox earlier).replay mailbox later).rows.get? key := by rw [View.replay_append]
    _ = (latest (Happening.row? mailbox key) later).getD ((view.replay mailbox earlier).rows.get? key) :=
      View.rows_replay ..
    _ = (view.replay mailbox earlier).rows.get? key := by rw [latest_eq_none_iff.mpr still, Option.getD_none]

section Course

variable {tasks : List Task} {codec : Codec} {mailbox : MailboxId} {keys : List EntryKey} {store : Store}
  {view : View} {start : Option Versioned} {turns : List Turn} {history : List Happening} {last : Race Outcome}

theorem Course.granting {before after : List Happening} {actor : Nat} {x : Exchange} {key : EntryKey}
    {value : Option Rights} (course : Course tasks mailbox view (before ++ ⟨actor, x⟩ :: after))
    (row : x.row? mailbox key = some value) : value ≠ some Rights.empty := by
  rcases course.upTo.concat_cases with ⟨-, ⟨task, present, moves⟩, -⟩
  dsimp only at present moves
  have kept (place : MailboxId) (upkeep : Upkeep place x.call) : value ≠ some Rights.empty := upkeep.granting row
  generalize called : x.call = c at moves kept
  generalize own actor before = past at moves
  cases moves with
  | @update editor place command _ _ moves =>
      cases moves with
      | read => exact kept place .read
      | index committed rowwise => exact kept place (.rows rowwise)
      | hook =>
          rcases x with ⟨c, answer⟩
          cases called
          cases row
      | notify =>
          rcases x with ⟨c, answer⟩
          cases called
          cases row
      | replace attempting =>
          have knows := Exchange.knows_of_row row
          rw [Editor.knows_replacing called key] at knows
          cases knows
  | overwrite =>
      rcases x with ⟨c, answer⟩
      cases called
      cases answer <;> cases row
  | repair began upkeep => exact kept _ upkeep
  | read => exact kept _ .read

theorem Course.known_still {earlier later : List Happening} {key : EntryKey} {value told : Option Rights}
    (course : Course tasks mailbox view (earlier ++ later))
    (still : ∀ happening ∈ later, happening.row? mailbox key = none) (granting : value ≠ some Rights.empty)
    (row : (view.replay mailbox earlier).rows.get? key = value) {actor : Nat} {y : Exchange}
    (member : ⟨actor, y⟩ ∈ later) (knows : y.knows? mailbox key = some told) : told = value := by
  have quiet : y.row? mailbox key = none := still ⟨actor, y⟩ member
  rcases Exchange.knows_cases knows with written | ⟨rows, rfl, listed⟩
  · rw [quiet] at written
    cases written
  · rcases List.append_of_mem member with ⟨front, back, rfl⟩
    rw [← List.append_assoc] at course
    have answered : rows = (view.replay mailbox (earlier ++ front)).rows := course.upTo.concat_cases.2.2 rfl
    have held : rows.get? key = value := by
      rw [answered, rows_still fun happening within => still happening (List.mem_append_left _ within)]
      exact row
    rw [← listed, Acl.get?_ofEntries_table (held ▸ granting), held]

/-- The list stays what it is for a key whose row nobody writes: whoever changes the entry sees to the row. -/
theorem Finished.stays (finished : Finished tasks codec mailbox keys view start history last)
    (ran : (Race.start store tasks).run turns = (history, last)) (shown : store.view? mailbox = .ok view)
    (genuine : Genuine codec mailbox view history) {earlier later : List Happening} {key : EntryKey}
    {value : Option Rights} (split : history = earlier ++ later)
    (still : ∀ happening ∈ later, happening.row? mailbox key = none) (granting : value ≠ some Rights.empty)
    (row : (view.replay mailbox earlier).rows.get? key = value)
    (agrees : (codec.listOf (view.replay mailbox earlier).record).get? key = value) (middle rest : List Happening)
    (parts : later = middle ++ rest) :
    (codec.listOf (view.replay mailbox (earlier ++ middle)).record).get? key = value := by
  -- on what has happened since: only a stored list can change the entry
  induction middle using List.reverseRecOn generalizing rest with
  | nil =>
      rw [List.append_nil]
      exact agrees
  | append_singleton middle newest ih =>
      rw [List.append_assoc] at parts
      have before := ih (newest :: rest) parts
      rcases newest with ⟨actor, x⟩
      rw [← List.append_assoc, View.replay_concat, View.record_next]
      cases stored : x.stored? mailbox with
      | none => exact before
      | some record =>
          have place : history = (earlier ++ middle) ++ ⟨actor, x⟩ :: rest := by
            rw [split, parts, List.append_assoc]
            rfl
          rw [Option.some_or]
          rcases finished.covered ran shown place stored key with
            ⟨y, member, knows⟩ | ⟨seen, attempting, won, same⟩
          · have course := Race.course_of_view ran shown
            rw [split] at course
            have within : ⟨actor, y⟩ ∈ later := by
              rw [parts]
              simp [mem_own_iff.mp member]
            exact course.known_still still granting row within knows
          · rw [← same, ← genuine.replaced _ actor x rest seen record place stored attempting]
            exact before

theorem Course.latest_knows {before between : List Happening} {actor : Nat} {x : Exchange} {key : EntryKey}
    {value : Option Rights} (course : Course tasks mailbox view (before ++ ⟨actor, x⟩ :: between))
    (row : x.row? mailbox key = some value) (still : ∀ happening ∈ between, happening.row? mailbox key = none) :
    latest (Exchange.knows? mailbox key) (own actor (before ++ ⟨actor, x⟩ :: between)) = some value := by
  have knows := Exchange.knows_of_row row
  have written : (view.replay mailbox (before ++ [⟨actor, x⟩])).rows.get? key = value := by
    rw [View.replay_concat, View.rows_next, row, Option.getD_some]
  have granting := course.granting row
  rw [List.append_cons] at course
  have all (y : Exchange) (told : Option Rights) (member : y ∈ x :: own actor between)
      (learned : y.knows? mailbox key = some told) : told = value := by
    rcases List.mem_cons.mp member with rfl | later
    · rw [knows] at learned
      exact (Option.some.inj learned).symm
    · exact course.known_still still granting written (mem_own_iff.mp later) learned
  rw [own_append, own_cons_self, latest_append]
  cases learned : latest (Exchange.knows? mailbox key) (x :: own actor between) with
  | none =>
      rw [latest_eq_none_iff.mp learned x List.mem_cons_self] at knows
      cases knows
  | some told =>
      rcases exists_of_latest learned with ⟨front, y, back, place, told', -⟩
      rw [all y told (by rw [place]; simp) told', Option.some_or]

theorem Settled.row_before {before after : List Happening} {actor : Nat} {x : Exchange} {key : EntryKey}
    {value : Option Rights} {front : List Exchange} {record : Record}
    (settled : Settled mailbox front record (own actor (before ++ ⟨actor, x⟩ :: after)))
    (row : x.row? mailbox key = some value) :
    ∃ between rest, after = between ++ ⟨actor, .store (.read mailbox), .ok (some record)⟩ :: rest ∧
      front = own actor (before ++ ⟨actor, x⟩ :: between) := by
  rcases settled with ⟨tail, ownSplit, announced⟩
  rcases exists_of_own ownSplit with ⟨earlier, rest, place, rfl, rfl⟩
  rcases split_cases place with ⟨between, rfl, rest'⟩ | ⟨-, same, -⟩ | ⟨between, -, last⟩
  · exact ⟨between, rest, rest', rfl⟩
  · cases same
    cases row
  · have late : x ∈ own actor rest := mem_own_iff.mpr (by rw [last]; simp)
    rcases announced x late with ⟨listener, commit, call⟩
    rcases x with ⟨c, answer⟩
    cases call
    cases row

/-- A row that was written holds what its last writer found in the list that it synchronised with. -/
theorem Finished.last_row (finished : Finished tasks codec mailbox keys view start history last)
    (ran : (Race.start store tasks).run turns = (history, last)) (shown : store.view? mailbox = .ok view)
    {before after : List Happening} {actor : Nat} {x : Exchange} {key : EntryKey} {value : Option Rights}
    (split : history = before ++ ⟨actor, x⟩ :: after) (row : x.row? mailbox key = some value)
    (still : ∀ happening ∈ after, happening.row? mailbox key = none) :
    ∃ between rest front record older,
      after = between ++ ⟨actor, .store (.read mailbox), .ok (some record)⟩ :: rest ∧
        Settled mailbox front record (own actor history) ∧
        latest (Exchange.shown? mailbox) front = some older ∧ older.version = record.version ∧
        (codec.listOf (some older)).get? key = value := by
  have course := Race.course_of_view ran shown
  have touched : ¬ x.Idle mailbox := by
    intro idle
    have knows := Exchange.knows_of_row row
    rw [idle.knows key] at knows
    cases knows
  have member : ⟨actor, x⟩ ∈ history := by
    rw [split]
    simp
  rcases finished.confirmed ran shown member touched with ⟨front, record, older, settled, latestShown, version, known⟩
  rcases (split ▸ settled).row_before row with ⟨between, rest, rfl, rfl⟩
  rw [split, ← List.cons_append, ← List.append_assoc] at course
  have knows := course.earlier.latest_knows row fun happening within =>
    still happening (List.mem_append_left _ within)
  exact ⟨between, rest, _, record, older, rfl, settled, latestShown, version, (known key value knows).symm⟩

theorem Finished.rows_eq (finished : Finished tasks codec mailbox keys view start history last)
    (ran : (Race.start store tasks).run turns = (history, last)) (shown : store.view? mailbox = .ok view)
    (genuine : Genuine codec mailbox view history) :
    (view.replay mailbox history).rows = (codec.listOf (view.replay mailbox history).record).table := by
  have course := Race.course_of_view ran shown
  have stays {earlier later : List Happening} {key : EntryKey} {value : Option Rights}
      (split : history = earlier ++ later) (still : ∀ happening ∈ later, happening.row? mailbox key = none)
      (granting : value ≠ some Rights.empty) (row : (view.replay mailbox earlier).rows.get? key = value)
      (agrees : (codec.listOf (view.replay mailbox earlier).record).get? key = value) :
      (codec.listOf (view.replay mailbox history).record).get? key = value := by
    have stayed := finished.stays ran shown genuine split still granting row agrees later [] (by simp)
    rwa [← split] at stayed
  apply SortedMap.ext_get?
  intro key
  change _ = (codec.listOf (view.replay mailbox history).record).get? key
  rw [View.rows_replay]
  cases written : latest (Happening.row? mailbox key) history with
  | none =>
      have held : view.rows.get? key = (codec.listOf view.record).get? key := by
        rw [Codec.listOf_eq finished.decoded, finished.rows]
        rfl
      have granting : view.rows.get? key ≠ some Rights.empty := by
        rw [held]
        intro none
        exact Acl.ne_empty_of_get? none rfl
      exact (stays (List.nil_append history).symm (latest_eq_none_iff.mp written) granting rfl held.symm).symm
  | some value =>
      rcases exists_of_latest written with ⟨before, ⟨actor, x⟩, after, split, row, still⟩
      rcases finished.last_row ran shown split row still with
        ⟨between, rest, front, record, older, rfl, settled, latestShown, version, value_eq⟩
      have granting : value ≠ some Rights.empty := by
        intro none
        rw [none] at value_eq
        exact Acl.ne_empty_of_get? value_eq rfl
      have place : history = (before ++ ⟨actor, x⟩ :: between) ++
          ⟨actor, .store (.read mailbox), .ok (some record)⟩ :: rest := by
        rw [split]
        simp
      have stored : some record = (view.replay mailbox (before ++ ⟨actor, x⟩ :: between)).record := by
        rw [place] at course
        exact course.seen_eq
      have held : (view.replay mailbox (before ++ ⟨actor, x⟩ :: between)).rows.get? key = value := by
        rw [List.append_cons, rows_still fun happening within => still happening (List.mem_append_left _ within),
          View.replay_concat, View.rows_next, show x.row? mailbox key = some value from row, Option.getD_some]
      -- row and list agreed when the writer read the record for the last time
      refine (stays place (fun happening within => still happening (List.mem_append_right _ within)) granting
        held ?_).symm
      rw [← stored, ← genuine.settled actor front record older settled latestShown version]
      exact value_eq

theorem Course.exists_shown {actor : Nat} {older : Record} (course : Course tasks mailbox view history)
    (latestShown : latest (Exchange.shown? mailbox) (own actor history) = some older) :
    ∃ earlier later, history = earlier ++ later ∧ (view.replay mailbox earlier).record = some older := by
  rcases exists_of_latest latestShown with ⟨front, y, back, ownSplit, told, -⟩
  rcases exists_of_own ownSplit with ⟨before, after, rfl, -, -⟩
  exact ⟨before ++ [⟨actor, y⟩], after, List.append_cons .., course.upTo.shown_eq told⟩

theorem Course.genuine (course : Course tasks mailbox view history)
    (calm : ∀ happening ∈ history, ¬ happening.Overwrites mailbox)
    (few : upcoming (view.record.map Record.version) + (storedRecords mailbox history).length ≤ 2 ^ 64) :
    Genuine codec mailbox view history := by
  constructor
  case replaced =>
    intro before actor x after seen record split stored attempting
    subst split
    have stores := course.upTo.stores stored
    rw [storedRecords_append, List.length_append] at few
    have earlier (happening : Happening) (member : happening ∈ before) : ¬ happening.Overwrites mailbox :=
      calm happening (List.mem_append_left _ member)
    cases stores with
    | update present attempting' call won current =>
        cases attempting.unique attempting'
        rw [course.earlier.replaced_eq earlier (by omega) attempting current]
    | reset present first => exact absurd ⟨_, rfl⟩ (calm _ (List.mem_append_right _ List.mem_cons_self))
  case settled =>
    intro actor front record older settled latestShown version
    rcases settled with ⟨tail, ownSplit, -⟩
    rcases exists_of_own ownSplit with ⟨before, after, rfl, rfl, -⟩
    rcases course.earlier.exists_shown latestShown with ⟨earlier, later, rfl, shown⟩
    have found : some record = (view.replay mailbox (earlier ++ later)).record := course.seen_eq
    -- without a reset in between two readings of one version are of one record
    rw [storedRecords_append, List.length_append] at few
    have same : (view.replay mailbox (earlier ++ later)).record = (view.replay mailbox earlier).record := by
      refine course.earlier.record_eq (fun happening member => calm happening (List.mem_append_left _ member))
        (by omega) ?_
      rw [← found, shown, Option.map_some, Option.map_some, version]
    rw [found, same, shown]

end Course

/-- When all updates of a mailbox are over, its rows are the entries of its list, whatever the order in
which they took their turns. -/
theorem updates_rows_consistent {store : Store} {tasks : List Task} {codec : Codec} {mailbox : MailboxId}
    {keys : List EntryKey} {view : View} {start : Option Versioned} {turns : List Turn}
    {history : List Happening} {last : Race Outcome}
    (noReset : ∀ task ∈ tasks, ∀ editor acl, task ≠ .reset editor mailbox acl)
    (shown : store.view? mailbox = .ok view) (ran : (Race.start store tasks).run turns = (history, last))
    (finished : Finished tasks codec mailbox keys view start history last)
    (few : upcoming (start.map Versioned.version) + (committers mailbox history).length ≤ 2 ^ 64) :
    ∃ final state, last.store.view? mailbox = .ok final ∧ codec.versioned final.record = .ok state ∧
      final.rows = (Versioned.list state).table := by
  have course := Race.course_of_view ran shown
  have calm := course.calm noReset
  rw [Codec.version_eq finished.decoded, length_committers] at few
  rcases course.legible finished.fits finished.carried ⟨start, finished.decoded, finished.within⟩ with
    ⟨state, decoded, -⟩
  refine ⟨_, state, (Race.reaches_of_run ran).shows shown, decoded, ?_⟩
  rw [← Codec.listOf_eq decoded]
  exact finished.rows_eq ran shown (course.genuine calm few)

def lastReading (mailbox : MailboxId) : (newestFirst : List Exchange) → Option Record
  | ⟨.notify _ _, _⟩ :: rest => lastReading mailbox rest
  | ⟨.store (.read place), .ok (some record)⟩ :: _ => if place = mailbox then some record else none
  | _ => none

theorem settled_of_lastReading {mailbox : MailboxId} {past : List Exchange} {record : Record}
    (found : lastReading mailbox past.reverse = some record) : ∃ front, Settled mailbox front record past := by
  induction past using List.reverseRecOn with
  | nil => cases found
  | append_singleton past newest ih =>
      rw [List.reverse_append, List.reverse_singleton, List.singleton_append] at found
      unfold lastReading at found
      split at found
      · next listener commit coped rest same =>
          cases same
          rcases ih found with ⟨front, tail, split, announced⟩
          refine ⟨front, tail ++ [⟨.notify listener commit, coped⟩], by rw [split]; simp, ?_⟩
          intro x member
          rcases List.mem_append.mp member with earlier | last
          · exact announced x earlier
          · rw [List.mem_singleton.mp last]
            exact ⟨listener, commit, rfl⟩
      · next place read rest same =>
          cases same
          split at found
          · next here =>
              cases found
              subst here
              exact ⟨past, [], rfl, nofun⟩
          · cases found
      · cases found

/-- The second update begins again, and the index hears of the first one last. -/
def lateTurns : List Turn :=
  [.act 0, .act 1, .act 1, .act 0, .act 0, .act 0, .act 1, .act 1, .act 1, .act 1, .act 1, .act 0, .act 0, .act 2]

def lateRun : List Happening × Race Outcome := (Race.start Store.inMemory sampleTasks).run lateTurns

theorem finished_lateRun :
    Finished sampleTasks .json sampleMailbox [.anyone, .owner] ⟨none, SortedMap.empty⟩ none lateRun.1
      lateRun.2 := by
  have returned : ∀ actor < 3, (lateRun.2.result? actor).isSome = true := by decide +kernel
  have answered : ∀ happening ∈ lateRun.1, ¬ happening.exchange.Failed := by decide +kernel
  have readings : ∀ actor < 2, (lastReading sampleMailbox (own actor lateRun.1).reverse).isSome = true := by
    decide +kernel
  constructor
  case fits => simp [sampleTasks, Task.Fits, sampleEditor, addReader, giveOwner]
  case carried => trivial
  case decoded => rfl
  case within => decide
  case rows => rfl
  case returned => exact fun actor bound => Option.isSome_iff_exists.mp (returned actor bound)
  case answered => exact answered
  case settled =>
    intro actor outcome done notRead
    rcases Race.ends_of_run (show _ = (lateRun.1, lateRun.2) from rfl) done with ⟨task, present, -⟩
    have bound : actor < 2 := by
      have within := (List.getElem?_eq_some_iff.mp present).1
      have apart : actor ≠ 2 := by
        intro third
        subst third
        exact notRead sampleEditor sampleMailbox rfl
      have length : sampleTasks.length = 3 := rfl
      omega
    rcases Option.isSome_iff_exists.mp (readings actor bound) with ⟨record, found⟩
    rcases settled_of_lastReading found with ⟨front, settled⟩
    exact ⟨front, record, settled⟩

theorem updates_rows_consistent_of_two :
    ∃ final state, lateRun.2.store.view? sampleMailbox = .ok final ∧
      Codec.json.versioned final.record = .ok state ∧ final.rows = (Versioned.list state).table := by
  have order : committers sampleMailbox lateRun.1 = [1, 0] := by decide +kernel
  refine updates_rows_consistent ?_ rfl (show _ = (lateRun.1, lateRun.2) from rfl) finished_lateRun ?_
  · simp [sampleTasks]
  · rw [order]
    decide

end MailboxAccess
