import MailboxAccess.Proofs.Consistency

/-!
Rows after runs in which the record was also reset. Every reset stores the first version, so that an
operation may find the version that its rows are up to while the list is another one. The rows are those of
the list just in case this has misled no last writer of a row (`Finished.upToDate_iff`).
-/
namespace MailboxAccess

/-- For every row, the list that its last writer has synchronised with has the entry of the final list; and
rows that nobody wrote have it from the first list. -/
structure UpToDate (codec : Codec) (mailbox : MailboxId) (start : Acl) (history : List Happening) (final : Acl) :
    Prop where
  written : ∀ key before actor x after value front record older, history = before ++ ⟨actor, x⟩ :: after →
    x.row? mailbox key = some value → (∀ later ∈ after, later.row? mailbox key = none) →
      Settled mailbox front record (own actor history) →
        latest (Exchange.shown? mailbox) front = some older →
          (codec.listOf (some older)).get? key = final.get? key
  untouched : ∀ key, (∀ happening ∈ history, happening.row? mailbox key = none) →
    start.get? key = final.get? key

theorem Settled.unique {mailbox : MailboxId} {front front' past : List Exchange} {record record' : Record}
    (first : Settled mailbox front record past) (second : Settled mailbox front' record' past) :
    front = front' ∧ record = record' := by
  rcases first with ⟨tail, split, announced⟩
  rcases second with ⟨tail', split', announced'⟩
  rcases split_cases (split.symm.trans split') with ⟨between, -, rfl⟩ | ⟨same, read, -⟩ | ⟨between, -, rfl⟩
  · rcases announced ⟨.store (.read mailbox), .ok (some record')⟩ (by simp) with ⟨listener, commit, call⟩
    cases call
  · cases read
    exact ⟨same, rfl⟩
  · rcases announced' ⟨.store (.read mailbox), .ok (some record)⟩ (by simp) with ⟨listener, commit, call⟩
    cases call

theorem Finished.upToDate_iff {store : Store} {tasks : List Task} {codec : Codec} {mailbox : MailboxId}
    {keys : List EntryKey} {view : View} {start : Option Versioned} {turns : List Turn}
    {history : List Happening} {last : Race Outcome}
    (finished : Finished tasks codec mailbox keys view start history last)
    (ran : (Race.start store tasks).run turns = (history, last)) (shown : store.view? mailbox = .ok view)
    (final : Acl) :
    (view.replay mailbox history).rows = final.table ↔
      UpToDate codec mailbox (Versioned.list start) history final := by
  constructor
  · intro same
    constructor
    case written =>
      intro key before actor x after value front record older split row still settled latestShown
      rcases finished.last_row ran shown split row still with
        ⟨_, _, front', record', older', _, settled', latestShown', _, value_eq⟩
      rcases settled.unique settled' with ⟨rfl, rfl⟩
      rw [latestShown] at latestShown'
      cases latestShown'
      have held : (view.replay mailbox history).rows.get? key = value := by
        rw [split, List.append_cons, rows_still still, View.replay_concat, View.rows_next, row, Option.getD_some]
      rw [value_eq, ← held, same]
      rfl
    case untouched =>
      intro key never
      have held : (view.replay mailbox history).rows.get? key = view.rows.get? key := by
        rw [View.rows_replay, latest_eq_none_iff.mpr never, Option.getD_none]
      rw [same, finished.rows] at held
      exact held.symm
  · intro upToDate
    apply SortedMap.ext_get?
    intro key
    rw [View.rows_replay]
    cases written : latest (Happening.row? mailbox key) history with
    | none =>
        rw [Option.getD_none, finished.rows]
        exact upToDate.untouched key (latest_eq_none_iff.mp written)
    | some value =>
        rcases exists_of_latest written with ⟨before, ⟨actor, x⟩, after, split, row, still⟩
        rcases finished.last_row ran shown split row still with
          ⟨_, _, front, record, older, _, settled, latestShown, _, value_eq⟩
        rw [Option.getD_some, ← value_eq]
        exact upToDate.written key before actor x after value front record older split row still settled latestShown

/-- In the end the rows are those of the list just in case each is up to date with it, and they are if no
version was taken for another one of the same number. -/
theorem rows_consistent_iff {store : Store} {tasks : List Task} {codec : Codec} {mailbox : MailboxId}
    {keys : List EntryKey} {view : View} {start : Option Versioned} {turns : List Turn}
    {history : List Happening} {last : Race Outcome} (shown : store.view? mailbox = .ok view)
    (ran : (Race.start store tasks).run turns = (history, last))
    (finished : Finished tasks codec mailbox keys view start history last) :
    ∃ final state, last.store.view? mailbox = .ok final ∧ codec.versioned final.record = .ok state ∧
      (final.rows = (Versioned.list state).table ↔
        UpToDate codec mailbox (Versioned.list start) history (Versioned.list state)) ∧
      (Genuine codec mailbox view history → final.rows = (Versioned.list state).table) := by
  have course := Race.course_of_view ran shown
  rcases course.legible finished.fits finished.carried ⟨start, finished.decoded, finished.within⟩ with
    ⟨state, decoded, -⟩
  refine ⟨_, state, (Race.reaches_of_run ran).shows shown, decoded,
    finished.upToDate_iff ran shown (Versioned.list state), ?_⟩
  intro genuine
  rw [← Codec.listOf_eq decoded]
  exact finished.rows_eq ran shown genuine

def staleTasks : List Task :=
  [.reset sampleEditor sampleMailbox (Acl.empty.apply addReader),
    .reset sampleEditor sampleMailbox (Acl.empty.apply giveOwner)]

/-- The second reset is over before the first one sees to the rows. -/
def staleTurns : List Turn :=
  [.act 0, .act 1, .act 1, .act 1, .act 1, .act 0, .act 0, .act 0, .act 0]

def staleRun : List Happening × Race Outcome :=
  (Race.start Store.inMemory staleTasks).run staleTurns

theorem finished_staleRun :
    Finished staleTasks .json sampleMailbox [.anyone, .owner] ⟨none, SortedMap.empty⟩ none staleRun.1
      staleRun.2 := by
  have returned : ∀ actor < 2, (staleRun.2.result? actor).isSome = true := by decide +kernel
  have answered : ∀ happening ∈ staleRun.1, ¬ happening.exchange.Failed := by decide +kernel
  have readings : ∀ actor < 2, (lastReading sampleMailbox (own actor staleRun.1).reverse).isSome = true := by
    decide +kernel
  constructor
  case fits =>
    have readers : (Acl.empty.apply addReader).keys ⊆ [.anyone, .owner] := by decide +kernel
    have owners : (Acl.empty.apply giveOwner).keys ⊆ [.anyone, .owner] := by decide +kernel
    simp [staleTasks, Task.Fits, sampleEditor, readers, owners]
  case carried => trivial
  case decoded => rfl
  case within => decide
  case rows => rfl
  case returned => exact fun actor bound => Option.isSome_iff_exists.mp (returned actor bound)
  case answered => exact answered
  case settled =>
    intro actor outcome done _
    rcases Race.ends_of_run (show _ = (staleRun.1, staleRun.2) from rfl) done with ⟨task, present, -⟩
    rcases Option.isSome_iff_exists.mp (readings actor (List.getElem?_eq_some_iff.mp present).1) with ⟨record, found⟩
    rcases settled_of_lastReading found with ⟨front, settled⟩
    exact ⟨front, record, settled⟩

theorem rows_consistent_iff_of_resets :
    ∃ final state, staleRun.2.store.view? sampleMailbox = .ok final ∧
      Codec.json.versioned final.record = .ok state ∧
      (final.rows = (Versioned.list state).table ↔
        UpToDate .json sampleMailbox .empty staleRun.1 (Versioned.list state)) ∧
      (Genuine .json sampleMailbox ⟨none, SortedMap.empty⟩ staleRun.1 →
        final.rows = (Versioned.list state).table) :=
  rows_consistent_iff rfl (show _ = (staleRun.1, staleRun.2) from rfl) finished_staleRun

theorem stale_rows :
    Finished staleTasks .json sampleMailbox [.anyone, .owner] ⟨none, SortedMap.empty⟩ none staleRun.1
        staleRun.2 ∧
      staleRun.2.result? 0 = some (.ok .replaced) ∧ staleRun.2.result? 1 = some (.ok .replaced) ∧
      ∃ final state, staleRun.2.store.view? sampleMailbox = .ok final ∧
        Codec.json.versioned final.record = .ok state ∧ final.rows ≠ (Versioned.list state).table := by
  have shown : staleRun.2.store.view? sampleMailbox = .ok
      ⟨some ⟨Codec.json.encode (Acl.empty.apply giveOwner), 0⟩, (Acl.empty.apply addReader).table⟩ := by
    decide +kernel
  have decoded : Codec.json.versioned (some ⟨Codec.json.encode (Acl.empty.apply giveOwner), 0⟩) =
      .ok (some ⟨Acl.empty.apply giveOwner, 0⟩) :=
    Codec.versioned_encode trivial (List.Subset.refl _)
  refine ⟨finished_staleRun, by decide +kernel, by decide +kernel, _, _, shown, decoded, ?_⟩
  decide +kernel

end MailboxAccess
