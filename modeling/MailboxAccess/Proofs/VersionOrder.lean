import MailboxAccess.Proofs.Editor.Run
import MailboxAccess.Proofs.Editor.Strict
import MailboxAccess.Proofs.Failures

/-!
The versions of a mailbox in the order in which they are stored. A commit takes the next number, a number that the
store cannot hold is refused, and only a reset goes back (`versions_ordered`). A store in memory holds every number
there is, and there zero follows the greatest one (`version_wraps`).
-/
namespace MailboxAccess

def versionAfter (store : Store) (mailbox : MailboxId) (history : List Happening) : Option UInt64 :=
  ((store.viewOf mailbox).replay mailbox history).record.map Record.version

/-- The version that a commit has put in the place of another one. -/
inductive Store.Succeeds (store : Store) (old : Option UInt64) (new : UInt64) : Prop where
  | next (number : new.toNat = upcoming old) : Succeeds store old new
  | wrapped {memory : Memory} (inMemory : store = .memory memory) (greatest : upcoming old = 2 ^ 64)
      (zero : new = 0) : Succeeds store old new

section Answers

variable {α : Type} {race : Race α} {turns : List Turn} {actor : Nat} {request : Request}

theorem Turn.limit_answer (turn : Turn) (c : Call) (store : Store) :
    (turn.answer c store).2.limit = store.limit := by
  rcases turn.answer_cases c store with ⟨same, -⟩ | ⟨request, reply, done, -⟩
  · rw [same]
  · exact Store.limit_execute done

theorem Turn.execute_of_answer {turn : Turn} {store : Store} {reply : request.Reply}
    (answered : (turn.answer (.store request) store).1 = .ok reply) :
    ∃ next, store.execute request = .ok (reply, next) := by
  rcases turn.answer_cases (.store request) store with ⟨-, void⟩ | ⟨other, told, done, exchange⟩
  · rw [answered] at void
    cases void
  · rw [answered] at exchange
    cases exchange
    exact ⟨_, done⟩

theorem Turn.answer_of_refused (turn : Turn) {store : Store} {e : StoreError}
    (refused : store.execute request = .error e) :
    ∃ cause, (turn.answer (.store request) store).1 = .error cause ∧ (cause = e ∨ turn = .fault turn.actor cause) := by
  have usual : (Store.answer (.store request) store).1 = .error e := by
    simp only [Store.answer, refused]
    rfl
  cases turn with
  | act actor => exact ⟨e, usual, .inl rfl⟩
  | fault actor cause => exact ⟨cause, rfl, .inr rfl⟩
  | refuse actor cause => exact ⟨e, usual, .inl rfl⟩

namespace Race

theorem limit_run (race : Race α) (turns : List Turn) : (race.run turns).2.store.limit = race.store.limit := by
  induction turns using List.reverseRecOn with
  | nil => rfl
  | append_singleton turns turn ih =>
      rcases race.run_concat_cases turns turn with same | ⟨c, -, after⟩
      · rw [same]
        exact ih
      · rw [after, Turn.limit_answer]
        exact ih

theorem exists_answer {answer : Call.Answer (.store request)}
    (member : ⟨actor, .store request, answer⟩ ∈ (race.run turns).1) :
    ∃ turn ∈ turns, turn.actor = actor ∧
      ∃ store : Store, store.limit = race.store.limit ∧ (turn.answer (.store request) store).1 = answer := by
  rcases List.append_of_mem member with ⟨earlier, later, split⟩
  rcases exists_turn split with ⟨front, turn, back, c, rfl, brings⟩
  cases brings.here
  refine ⟨turn, List.mem_append_right _ List.mem_cons_self, rfl, _, race.limit_run front, rfl⟩

theorem stored_lt_limit {happening : Happening} (member : happening ∈ (race.run turns).1) {mailbox : MailboxId}
    {record : Record} (stored : happening.stored? mailbox = some record) :
    record.version.toNat < race.store.limit := by
  rcases happening with ⟨actor, c, answer⟩
  cases c with
  | store request =>
      cases answer with
      | error e => cases stored
      | ok reply =>
          rcases exists_answer member with ⟨turn, -, -, store, same, answered⟩
          rcases Turn.execute_of_answer answered with ⟨next, done⟩
          rw [← same]
          exact Store.stored_lt_limit done stored
  | hook => cases stored
  | notify => cases stored

theorem expected_lt_limit {mailbox : MailboxId} {acl : Bytes} {new expected : UInt64} {swapped : Bool}
    (member : ⟨actor, .store (.swap mailbox acl new expected), .ok swapped⟩ ∈ (race.run turns).1) :
    expected.toNat < race.store.limit := by
  rcases exists_answer member with ⟨turn, -, -, store, same, answered⟩
  rcases Turn.execute_of_answer answered with ⟨next, done⟩
  rw [← same]
  exact (Store.fits_of_swap done).2

end Race

end Answers

section Order

variable {store : Store} {tasks : List Task} {mailbox : MailboxId} {turns : List Turn} {history : List Happening}
  {last : Race Outcome}

theorem Race.found_lt_limit (ran : (Race.start store tasks).run turns = (history, last))
    {before after : List Happening} {happening : Happening} {record found : Record}
    (split : history = before ++ happening :: after)
    (stores : Stores tasks mailbox (store.viewOf mailbox) before happening record)
    (kept : ¬ happening.Overwrites mailbox)
    (old : ((store.viewOf mailbox).replay mailbox before).record = some found) :
    found.version.toNat < store.limit := by
  have member : happening ∈ ((Race.start store tasks).run turns).1 := by
    rw [ran, split]
    exact List.mem_append_right _ List.mem_cons_self
  cases stores with
  | @update actor editor command seen x present attempting call won current =>
      rw [old] at current
      cases seen with
      | none => cases current
      | some expected =>
          have version : found.version = expected.version := Option.some.inj current
          rcases x with ⟨c, answer⟩
          cases call
          cases answer with
          | error e => cases won
          | ok swapped =>
              rw [version]
              exact expected_lt_limit member
  | reset present first => exact absurd ⟨_, rfl⟩ kept

theorem Race.succeeds_of_stored (ran : (Race.start store tasks).run turns = (history, last))
    {before after : List Happening} {happening : Happening} {record : Record}
    (split : history = before ++ happening :: after) (stored : happening.stored? mailbox = some record)
    (kept : ¬ happening.Overwrites mailbox) :
    store.Succeeds (versionAfter store mailbox before) record.version := by
  have course : Course tasks mailbox (store.viewOf mailbox) history := course_of_run ran mailbox
  rw [split] at course
  have stores := course.upTo.stores stored
  have bumped := stores.version kept
  rw [versionAfter]
  cases old : ((store.viewOf mailbox).replay mailbox before).record with
  | none =>
      rw [old] at bumped
      exact .next (congrArg UInt64.toNat (Option.some.inj bumped))
  | some found =>
      rw [old] at bumped
      have sum : record.version = found.version + 1 := Option.some.inj bumped
      by_cases room : found.version.toNat + 1 < 2 ^ 64
      · refine .next ?_
        rw [sum, UInt64.toNat_add]
        exact Nat.mod_eq_of_lt room
      · -- only a store in memory can have been asked for the version after this one
        have greatest : found.version.toNat + 1 = 2 ^ 64 := by
          have small := found.version.toNat_lt
          omega
        have whole : 2 ^ 64 ≤ store.limit + 1 := by
          have fits := found_lt_limit ran split stores kept old
          omega
        cases store with
        | memory memory =>
            refine .wrapped rfl greatest ?_
            rw [sum]
            apply UInt64.toNat_inj.mp
            rw [UInt64.toNat_add, UInt64.toNat_one, greatest]
            rfl
        | database db => exact absurd whole (by decide : ¬ 2 ^ 64 ≤ Database.versionLimit + 1)

theorem Race.update_of_swap (ran : (Race.start store tasks).run turns = (history, last)) {actor : Nat} {bytes : Bytes}
    {new expected : UInt64} {answer : Call.Answer (.store (.swap mailbox bytes new expected))}
    {before after : List Exchange}
    (split : own actor history = before ++ ⟨.store (.swap mailbox bytes new expected), answer⟩ :: after) :
    ∃ editor place command encoded seen, tasks[actor]? = some (.update editor place command) ∧
      Request.swap mailbox bytes new expected = Editor.replacing place encoded seen := by
  rcases exists_of_own split with ⟨earlier, later, whole, -, -⟩
  have course : Course tasks mailbox (store.viewOf mailbox) history := course_of_run ran mailbox
  rw [whole] at course
  rcases course.upTo.concat_cases with ⟨-, ⟨task, present, moves⟩, -⟩
  dsimp only at present moves
  generalize called : Call.store (.swap mailbox bytes new expected) = c at moves
  generalize own actor earlier = past at moves
  cases moves with
  | @update editor place command _ _ moves =>
      cases moves with
      | replace attempting =>
          exact ⟨editor, place, command, _, _, present, Call.store.inj called⟩
      | index committed rowwise =>
          cases called
          cases rowwise
      | _ => cases called
  | repair began upkeep =>
      cases upkeep with
      | read => cases called
      | rows rowwise =>
          cases called
          cases rowwise
  | _ => cases called

theorem Race.refused_of_swap (ran : (Race.start store tasks).run turns = (history, last)) {actor : Nat}
    {bytes : Bytes} {new expected : UInt64} {answer : Call.Answer (.store (.swap mailbox bytes new expected))}
    (member : ⟨.store (.swap mailbox bytes new expected), answer⟩ ∈ own actor history)
    (large : store.limit ≤ new.toNat) :
    ∃ e, (e = .outOfRange new.toNat ∨ .fault actor e ∈ turns) ∧
      last.result? actor = some (.error (.store e)) ∧ (Race.start store tasks).Keeps Eq actor turns := by
  have happened : (⟨actor, .store (.swap mailbox bytes new expected), answer⟩ : Happening) ∈
      ((Race.start store tasks).run turns).1 := by
    rw [ran]
    exact mem_own_iff.mp member
  rcases exists_answer happened with ⟨turn, among, rfl, current, same, answered⟩
  have beyond : current.limit ≤ new.toNat := same ▸ large
  rcases turn.answer_of_refused (Store.swap_out_of_range beyond) with ⟨e, failed, why⟩
  rw [answered] at failed
  subst failed
  rcases List.append_of_mem member with ⟨before, after, split⟩
  rcases result_of_failed ran split with ⟨rfl, done⟩
  have told : e = .outOfRange new.toNat ∨ .fault turn.actor e ∈ turns := by
    rcases why with same | faulty
    · exact .inl same
    · right
      rwa [← faulty]
  refine ⟨e, told, done, ?_⟩
  rcases update_of_swap ran split with ⟨editor, place, command, encoded, seen, present, asked⟩
  have planned : (Race.start store tasks).plans[turn.actor]? =
      some ((Coder.ofCodec editor.codec).task editor place command) := by
    rw [Race.start, List.getElem?_map, present, Coder.task_ofCodec]
    rfl
  cases Coder.failed_of_run planned ran done with
  | barred barred unnoticed inert => exact inert
  | unfinished whole unfinished =>
      -- the failed write is the last exchange, and not one of those that bring rows up to date
      have last : own turn.actor history = before ++ [⟨.store (Editor.replacing place encoded seen), .error e⟩] := by
        rw [split]
        exact congrArg (fun request => before ++ [⟨.store request, .error e⟩]) asked
      have traceless : Coder.Traceless place (own turn.actor history) (.store e) := .unwritten last
      rw [whole] at traceless
      exact absurd traceless unfinished.not_traceless

/-- How a version goes back: a reset begins anew, or a store in memory has used up the numbers. -/
inductive Restarts (store : Store) (tasks : List Task) (mailbox : MailboxId) (before : List Happening)
    (happening : Happening) : Prop where
  | reset {editor : Editor} {acl : Acl} (present : tasks[happening.actor]? = some (.reset editor mailbox acl))
      (overwrites : happening.Overwrites mailbox) : Restarts store tasks mailbox before happening
  | wrapped {memory : Memory} {record : Record} (inMemory : store = .memory memory)
      (greatest : upcoming (versionAfter store mailbox before) = 2 ^ 64)
      (stored : happening.stored? mailbox = some record) (zero : record.version = 0) :
      Restarts store tasks mailbox before happening

theorem versionAfter_concat (store : Store) (mailbox : MailboxId) (before : List Happening) (newest : Happening) :
    versionAfter store mailbox (before ++ [newest]) =
      ((newest.stored? mailbox).map Record.version).or (versionAfter store mailbox before) := by
  rw [versionAfter, View.replay_concat, View.record_next, Option.map_or]
  rfl

theorem Race.reset_of_overwrites (ran : (Race.start store tasks).run turns = (history, last))
    {before after : List Happening} {happening : Happening} (split : history = before ++ happening :: after)
    (overwrites : happening.Overwrites mailbox) :
    ∃ editor acl, tasks[happening.actor]? = some (.reset editor mailbox acl) := by
  have course : Course tasks mailbox (store.viewOf mailbox) history := course_of_run ran mailbox
  rw [split] at course
  rcases happening with ⟨actor, x⟩
  rcases overwrites with ⟨bytes, rfl⟩
  have stores : ∃ record, Stores tasks mailbox (store.viewOf mailbox) before
      ⟨actor, .store (.overwrite mailbox bytes), .ok ()⟩ record := ⟨_, course.upTo.stores (if_pos rfl)⟩
  rcases stores with ⟨record, stores⟩
  cases stores with
  | update present attempting call won current => cases won
  | reset present first => exact ⟨_, _, present⟩

theorem Race.restarts_of_lower (ran : (Race.start store tasks).run turns = (history, last))
    {earlier between later : List Happening} (split : history = earlier ++ (between ++ later))
    (lower : upcoming (versionAfter store mailbox (earlier ++ between)) <
      upcoming (versionAfter store mailbox earlier)) :
    ∃ before happening after, between = before ++ happening :: after ∧
      Restarts store tasks mailbox (earlier ++ before) happening := by
  induction between using List.reverseRecOn generalizing later with
  | nil =>
      rw [List.append_nil] at lower
      exact absurd lower (Nat.lt_irrefl _)
  | append_singleton between newest ih =>
      have sooner (lower : upcoming (versionAfter store mailbox (earlier ++ between)) <
          upcoming (versionAfter store mailbox earlier)) : ∃ before happening after,
          between ++ [newest] = before ++ happening :: after ∧
            Restarts store tasks mailbox (earlier ++ before) happening := by
        have onward : history = earlier ++ (between ++ newest :: later) := by simp [split]
        rcases ih onward lower with ⟨before, happening, after, rfl, restarts⟩
        exact ⟨before, happening, after ++ [newest], by simp, restarts⟩
      have whole : history = (earlier ++ between) ++ newest :: later := by simp [split]
      rw [← List.append_assoc, versionAfter_concat] at lower
      cases stored : newest.stored? mailbox with
      | none =>
          rw [stored] at lower
          exact sooner lower
      | some record =>
          rw [stored] at lower
          by_cases overwrites : newest.Overwrites mailbox
          · rcases reset_of_overwrites ran whole overwrites with ⟨editor, acl, present⟩
            exact ⟨between, newest, [], rfl, .reset present overwrites⟩
          · cases succeeds_of_stored ran whole stored overwrites with
            | next number =>
                -- a commit has only raised the version, so it was lower already before
                apply sooner
                have raised : upcoming (some record.version) =
                    upcoming (versionAfter store mailbox (earlier ++ between)) + 1 := congrArg Nat.succ number
                rw [Option.map_some, Option.some_or, raised] at lower
                omega
            | wrapped inMemory greatest zero =>
                exact ⟨between, newest, [], rfl, .wrapped inMemory greatest stored zero⟩

/-- The versions of a mailbox in a run. -/
structure VersionsOrdered (store : Store) (tasks : List Task) (mailbox : MailboxId) (turns : List Turn)
    (history : List Happening) (last : Race Outcome) : Prop where
  /-- What the history says of the record is what can be read, if it could be read at first. -/
  shown : ∀ seen, store.look (.read mailbox) = .ok seen →
    last.store.look (.read mailbox) = .ok ((store.viewOf mailbox).replay mailbox history).record
  raised : ∀ before happening after record, history = before ++ happening :: after →
    happening.stored? mailbox = some record → ¬ happening.Overwrites mailbox →
      record.version.toNat < store.limit ∧ store.Succeeds (versionAfter store mailbox before) record.version
  /-- An update returns the version that it has stored. -/
  returned : ∀ actor commit, last.result? actor = some (.ok (.committed commit)) → commit.mailbox = mailbox →
    ∃ before x after bytes, history = before ++ ⟨actor, x⟩ :: after ∧
      x.stored? mailbox = some ⟨bytes, commit.version⟩ ∧
      store.Succeeds (versionAfter store mailbox before) commit.version
  /-- Where the next version cannot be stored the update fails, and none of its turns has changed the store. -/
  refused : ∀ actor bytes new expected answer,
    ⟨.store (.swap mailbox bytes new expected), answer⟩ ∈ own actor history → store.limit ≤ new.toNat →
      ∃ e, (e = .outOfRange new.toNat ∨ .fault actor e ∈ turns) ∧
        last.result? actor = some (.error (.store e)) ∧ (Race.start store tasks).Keeps Eq actor turns
  lowered : ∀ earlier between later, history = earlier ++ (between ++ later) →
    upcoming (versionAfter store mailbox (earlier ++ between)) < upcoming (versionAfter store mailbox earlier) →
      ∃ before happening after, between = before ++ happening :: after ∧
        Restarts store tasks mailbox (earlier ++ before) happening

theorem Race.stored_of_committed (ran : (Race.start store tasks).run turns = (history, last)) {actor : Nat}
    {commit : Commit} (done : last.result? actor = some (.ok (.committed commit))) :
    ∃ before x after bytes, history = before ++ ⟨actor, x⟩ :: after ∧
      x.stored? commit.mailbox = some ⟨bytes, commit.version⟩ ∧ x.won? = some true := by
  rcases ends_of_run ran done with ⟨task, present, ends⟩
  rcases Task.committed_of_ends ends with ⟨editor, place, command, seen, -, committed, rfl⟩
  rcases committed with ⟨before, x, after, split, replaced⟩
  rcases exists_of_own split with ⟨earlier, later, whole, -, -⟩
  exact ⟨earlier, x, later, _, whole, Editor.stored_of_won replaced.call replaced.won, replaced.won⟩

/-- In every run a commit takes the version after that of the record that it replaces, and returns it. A version that
the store cannot hold is refused, with nothing changed, whether the update is alone or not. Only a reset takes a
version back, unless a store in memory has used up the numbers. -/
theorem versions_ordered (ran : (Race.start store tasks).run turns = (history, last)) (mailbox : MailboxId) :
    VersionsOrdered store tasks mailbox turns history last ∧
      ∀ (editor : Editor) (command : Command) (record : Record), 0 < editor.attempts →
        store.look (.read mailbox) = .ok (some record) → record.version.toNat + 1 < 2 ^ 64 →
        store.limit ≤ record.version.toNat + 1 →
          (editor.update mailbox command).run Store.answer store =
            (.error (.store (.outOfRange (record.version.toNat + 1))), store) := by
  refine ⟨⟨?_, ?_, ?_, ?_, ?_⟩, ?_⟩
  · intro seen read
    exact (Race.reaches_of_run ran).read read
  · intro before happening after record split stored kept
    have member : happening ∈ ((Race.start store tasks).run turns).1 := by
      rw [ran, split]
      exact List.mem_append_right _ List.mem_cons_self
    exact ⟨Race.stored_lt_limit member stored, Race.succeeds_of_stored ran split stored kept⟩
  · intro actor commit done here
    rcases Race.stored_of_committed ran done with ⟨before, x, after, bytes, split, stored, won⟩
    rw [here] at stored
    refine ⟨before, x, after, bytes, split, stored, Race.succeeds_of_stored ran split stored ?_⟩
    intro overwrites
    rcases overwrites with ⟨acl, rfl⟩
    cases won
  · intro actor bytes new expected answer member large
    exact Race.refused_of_swap ran member large
  · intro earlier between later split lower
    exact Race.restarts_of_lower ran split lower
  · intro editor command record allowed read small large
    exact Editor.update_refused allowed read small large

end Order

def fullStore : Store :=
  .database { Database.fresh with
    records := some (SortedMap.empty.insert sampleMailbox (Codec.json.encode Acl.empty, Int64.maxValue)) }

def fullRecord : Record := ⟨Codec.json.encode Acl.empty, 0x7fffffffffffffff⟩

def fullRun : List Happening × Race Outcome :=
  (Race.start fullStore [.update sampleEditor sampleMailbox addReader]).run [.act 0, .act 0]

theorem versions_ordered_of_fullRun :
    fullRun.2.result? 0 = some (.error (.store (.invalidData "version 9223372036854775808 out of range"))) ∧
      (fullRun.2.store.view? sampleMailbox).map View.record = .ok (some fullRecord) ∧
      VersionsOrdered fullStore [.update sampleEditor sampleMailbox addReader] sampleMailbox [.act 0, .act 0]
        fullRun.1 fullRun.2 ∧
      (sampleEditor.update sampleMailbox addReader).run Store.answer fullStore =
        (.error (.store (.outOfRange (fullRecord.version.toNat + 1))), fullStore) := by
  rcases versions_ordered (show _ = (fullRun.1, fullRun.2) from rfl) sampleMailbox with ⟨ordered, refused⟩
  have shown : fullStore.view? sampleMailbox = .ok ⟨some fullRecord, SortedMap.empty⟩ := by decide +kernel
  have read : fullStore.look (.read sampleMailbox) = .ok (some fullRecord) := (Store.view_eq_ok_iff.mp shown).1
  have number : fullRecord.version.toNat + 1 = 0x8000000000000000 := by decide
  refine ⟨by decide +kernel, by decide +kernel, ordered, ?_⟩
  refine refused sampleEditor addReader fullRecord (by decide) read ?_ ?_
  · rw [number]
    decide
  · rw [number]
    exact Nat.le_refl _

def lastVersionStore : Store :=
  .memory (Memory.empty.putRecord sampleMailbox ⟨Codec.json.encode Acl.empty, 0xffffffffffffffff⟩)

theorem version_wraps :
    ∃ last, (sampleEditor.update sampleMailbox addReader).run Store.answer lastVersionStore =
        (.ok ⟨sampleMailbox, 0, Diff.between Acl.empty (Acl.empty.apply addReader)⟩, last) ∧
      lastVersionStore.view? sampleMailbox =
        .ok ⟨some ⟨Codec.json.encode Acl.empty, 0xffffffffffffffff⟩, SortedMap.empty⟩ ∧
      last.view? sampleMailbox =
        .ok ⟨some ⟨Codec.json.encode (Acl.empty.apply addReader), 0⟩, (Acl.empty.apply addReader).table⟩ := by
  refine ⟨((sampleEditor.update sampleMailbox addReader).run Store.answer lastVersionStore).2, ?_, ?_, ?_⟩
  · refine Prod.ext ?_ rfl
    decide +kernel
  · decide +kernel
  · decide +kernel

end MailboxAccess
