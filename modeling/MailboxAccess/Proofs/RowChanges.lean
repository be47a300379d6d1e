import MailboxAccess.Proofs.Changes
import MailboxAccess.Proofs.Editor.Run
import MailboxAccess.Proofs.Failures
import MailboxAccess.Proofs.Store.Cells

namespace MailboxAccess

variable {mailbox : MailboxId} {store : Store} {changes : List Change} {acl : Acl}

def Change.granted (change : Change) : Option Rights :=
  match change.new with
  | some rights => if rights.isEmpty then none else some rights
  | none => none

def Store.follow (mailbox : MailboxId) (store : Store) (change : Change) : Store :=
  store.setRow change.key mailbox change.granted

theorem Index.written_eq (rows : SortedMap EntryKey Rights) (change : Change) :
    written rows change =
      match change.granted with
      | some rights => rows.insert change.key rights
      | none => rows.erase change.key := by
  unfold written Change.granted
  cases change.new with
  | none => rfl
  | some rights =>
      by_cases none : rights.isEmpty = true
      · simp only [if_pos none]
      · simp only [if_neg none]

theorem Index.applyChange_eq (mailbox : MailboxId) (change : Change) :
    applyChange mailbox change =
      match change.granted with
      | some rights => Plan.ask (.upsert change.key mailbox rights)
      | none => Plan.ask (.delete change.key mailbox) := by
  unfold applyChange Change.granted
  cases change.new with
  | none => rfl
  | some rights =>
      by_cases none : rights.isEmpty = true
      · simp only [if_pos none]
        exact if_pos none
      · simp only [if_neg none]
        exact if_neg none

theorem Plan.bind_unit (plan : Plan Unit) : (plan >>= fun _ => pure ()) = plan := by
  rw [bind_eq]
  induction plan with
  | done result => cases result <;> rfl
  | call c next ih => exact congrArg (Plan.call c) (funext ih)

structure Makes (store : Store) (mailbox : MailboxId) (change : Change) (request : Request) (reply : request.Reply) :
    Prop where
  asked : Index.applyChange mailbox change = Plan.ask request >>= fun _ => pure ()
  done : store.execute request = .ok (reply, store.follow mailbox change)
  about : request.mailbox? = some mailbox
  quiet : ∀ place, request.stored? place reply = none
  writes : ∀ rows, View.rowsAfter mailbox rows request = Index.written rows change

namespace Store

theorem Indexed.follow (indexed : store.Indexed) (change : Change) : (store.follow mailbox change).Indexed :=
  indexed.setRow _ _ _

theorem exists_makes (indexed : store.Indexed) (mailbox : MailboxId) (change : Change) :
    ∃ request reply, Makes store mailbox change request reply := by
  have asked := Index.applyChange_eq mailbox change
  have written (rows : SortedMap EntryKey Rights) := Index.written_eq rows change
  have followed : store.follow mailbox change = store.setRow change.key mailbox change.granted := rfl
  cases granted : change.granted with
  | none =>
      simp only [granted] at asked written followed
      refine ⟨.delete change.key mailbox, (), asked.trans (Plan.bind_unit _).symm, ?_, rfl, fun _ => rfl, ?_⟩
      · rw [followed]
        exact execute_delete indexed change.key mailbox
      · intro rows
        rw [written]
        exact if_pos rfl
  | some rights =>
      simp only [granted] at asked written followed
      refine ⟨.upsert change.key mailbox rights, (), asked.trans (Plan.bind_unit _).symm, ?_, rfl, fun _ => rfl, ?_⟩
      · rw [followed]
        exact execute_upsert indexed change.key mailbox rights
      · intro rows
        rw [written]
        exact if_pos rfl

theorem indexed_foldl (indexed : store.Indexed) (changes : List Change) :
    (changes.foldl (follow mailbox) store).Indexed := by
  induction changes generalizing store with
  | nil => exact indexed
  | cons change changes ih => exact ih (indexed.follow change)

theorem alike_foldl (indexed : store.Indexed) (changes : List Change) {place : MailboxId} (apart : place ≠ mailbox) :
    Alike place (changes.foldl (follow mailbox) store) store := by
  induction changes generalizing store with
  | nil => exact .refl place store
  | cons change changes ih =>
      rcases exists_makes indexed mailbox change with ⟨request, reply, makes⟩
      refine (ih (indexed.follow change)).trans (alike_of_execute makes.done ?_)
      rw [makes.about]
      exact fun same => apart (Option.some.inj same).symm

theorem sameRecords_foldl (indexed : store.Indexed) (changes : List Change) :
    SameRecords store (changes.foldl (follow mailbox) store) := by
  induction changes generalizing store with
  | nil => exact fun place => rfl
  | cons change changes ih =>
      rcases exists_makes indexed mailbox change with ⟨request, reply, makes⟩
      intro place
      exact (ih (indexed.follow change) place).trans (sameRecords_of_execute makes.done makes.quiet place)

theorem listed_foldl (indexed : store.Indexed) (changes : List Change) {rows : SortedMap EntryKey Rights}
    (listed : store.look (.listMailbox mailbox) = .ok rows) :
    (changes.foldl (follow mailbox) store).look (.listMailbox mailbox) =
      .ok (changes.foldl Index.written rows) := by
  induction changes generalizing store rows with
  | nil => exact listed
  | cons change changes ih =>
      rcases exists_makes indexed mailbox change with ⟨request, reply, makes⟩
      refine ih (indexed.follow change) ?_
      rw [list_after listed makes.done, (execute_view makes.done).2, View.after, makes.writes, rows_of_look listed]

theorem cell_foldl_of_apart (indexed : store.Indexed) {identity : String} {place : Bytes}
    (apart : ∀ change ∈ changes, ¬ (identity = change.key.text ∧ place = mailbox.bytes)) :
    (changes.foldl (follow mailbox) store).cell identity place = store.cell identity place := by
  induction changes generalizing store with
  | nil => rfl
  | cons change changes ih =>
      have first : (store.follow mailbox change).cell identity place = store.cell identity place := by
        rw [follow, cell_setRow indexed, if_neg (apart change List.mem_cons_self)]
      exact (ih (indexed.follow change) fun other later => apart other (List.mem_cons_of_mem _ later)).trans first

theorem cell_foldl_of_mem (indexed : store.Indexed)
    (granted : ∀ change ∈ changes, change.granted = acl.get? change.key) {change : Change}
    (member : change ∈ changes) :
    (changes.foldl (follow mailbox) store).cell change.key.text mailbox.bytes =
      (acl.get? change.key).map Rights.text := by
  induction changes using List.reverseRecOn with
  | nil => cases member
  | append_singleton earlier newest ih =>
      rw [List.foldl_append]
      change ((earlier.foldl (follow mailbox) store).follow mailbox newest).cell _ _ = _
      rw [follow, cell_setRow (indexed_foldl indexed earlier)]
      split
      · next same =>
          rw [granted newest List.mem_concat_self, EntryKey.text_injective same.1]
      · next other =>
          rcases List.mem_append.mp member with before | last
          · exact ih (fun change among => granted change (List.mem_append_left _ among)) before
          · rw [List.mem_singleton.mp last] at other
            exact absurd ⟨rfl, rfl⟩ other

theorem foldl_follow_idle
    (made : ∀ change ∈ changes, store.cell change.key.text mailbox.bytes = change.granted.map Rights.text) :
    changes.foldl (follow mailbox) store = store := by
  induction changes with
  | nil => rfl
  | cons change changes ih =>
      have first : store.follow mailbox change = store := setRow_idle (made change List.mem_cons_self)
      rw [List.foldl_cons, first]
      exact ih fun other later => made other (List.mem_cons_of_mem _ later)

/-- Changes some of which have been made may be made again from the start. -/
theorem foldl_follow_resumed (indexed : store.Indexed) (mailbox : MailboxId) {made : List Change} (rest : List Change)
    (granted : ∀ change ∈ made, change.granted = acl.get? change.key) :
    (made ++ rest).foldl (follow mailbox) (made.foldl (follow mailbox) store) =
      (made ++ rest).foldl (follow mailbox) store := by
  have again : made.foldl (follow mailbox) (made.foldl (follow mailbox) store) =
      made.foldl (follow mailbox) store := by
    apply foldl_follow_idle
    intro change member
    rw [cell_foldl_of_mem indexed granted member, granted change member]
  rw [List.foldl_append, again, List.foldl_append]

end Store

namespace Index

theorem run_applyChange (indexed : store.Indexed) (change : Change) :
    (applyChange mailbox change).run Store.answer store = (.ok (), store.follow mailbox change) := by
  rcases Store.exists_makes indexed mailbox change with ⟨request, reply, makes⟩
  rw [makes.asked, Plan.bind_eq, Plan.run_bind, Plan.run_ask makes.done]
  rfl

theorem run_applyChanges (indexed : store.Indexed) (changes : List Change) :
    (applyChanges mailbox changes).run Store.answer store = (.ok (), changes.foldl (Store.follow mailbox) store) := by
  induction changes generalizing store with
  | nil => rfl
  | cons change changes ih =>
      rw [applyChanges, Plan.bind_eq, Plan.run_bind, run_applyChange indexed]
      exact ih (indexed.follow change)

theorem applyChanges_turn (indexed : store.Indexed) (mailbox : MailboxId) (change : Change) (changes : List Change)
    (turn : Turn) :
    ∃ c resume, applyChanges mailbox (change :: changes) = .call c resume ∧
      (((turn.answer c store).2 = store.follow mailbox change ∧
          resume (turn.answer c store).1 = applyChanges mailbox changes) ∨
        ((turn.answer c store).2 = store ∧ ∃ e, resume (turn.answer c store).1 = .done (.error e))) := by
  rcases Store.exists_makes indexed mailbox change with ⟨request, reply, makes⟩
  have shape : applyChanges mailbox (change :: changes) =
      Plan.ask request >>= fun _ => applyChanges mailbox changes := by
    rw [applyChanges, makes.asked, Plan.bind_eq, Plan.bind_eq, Plan.bind_assoc]
    rfl
  have usual : Store.answer (.store request) store = (.ok reply, store.follow mailbox change) := by
    simp only [Store.answer, makes.done]
  have answers : turn.answer (.store request) store = (.ok reply, store.follow mailbox change) ∨
      ∃ e, turn.answer (.store request) store = (.error e, store) := by
    cases turn with
    | act actor => exact .inl usual
    | fault actor e => exact .inr ⟨e, rfl⟩
    | refuse actor e => exact .inl usual
  refine ⟨.store request, _, shape, ?_⟩
  rcases answers with made | ⟨e, failed⟩
  · rw [made]
    exact .inl ⟨rfl, rfl⟩
  · rw [failed]
    exact .inr ⟨rfl, _, rfl⟩

theorem made_of_run {turns : List Turn} {history : List Happening} {cut : Race Unit} (indexed : store.Indexed)
    (ran : (⟨store, [applyChanges mailbox changes]⟩ : Race Unit).run turns = (history, cut)) :
    ∃ made rest, changes = made ++ rest ∧ cut.store = made.foldl (Store.follow mailbox) store := by
  have reached := Race.reaches_of_run ran
  have along : ∃ made rest, changes = made ++ rest ∧ cut.store = made.foldl (Store.follow mailbox) store ∧
      (cut.plans = [applyChanges mailbox rest] ∨ ∃ e, cut.plans = [.done (.error e)]) := by
    clear ran
    -- until a request fails, the plan that is left is for the changes that are left
    induction reached with
    | start => exact ⟨[], changes, rfl, rfl, .inl rfl⟩
    | @step history current next turn happening reached stepped ih =>
        rcases ih with ⟨made, rest, split, held, going | ⟨e, stopped⟩⟩
        · rcases Race.step_alone going stepped with ⟨c, resume, called, rfl⟩
          cases rest with
          | nil => cases called
          | cons change rest =>
              have standing : current.store.Indexed := held ▸ Store.indexed_foldl indexed made
              rcases applyChanges_turn standing mailbox change rest turn with ⟨c', resume', shape, outcome⟩
              rw [called] at shape
              cases shape
              rcases outcome with ⟨after, onward⟩ | ⟨after, e, onward⟩
              · refine ⟨made ++ [change], rest, by simp [split], ?_, .inl (congrArg (fun plan => [plan]) onward)⟩
                rw [after, held, List.foldl_append]
                rfl
              · exact ⟨made, change :: rest, split, after.trans held, .inr ⟨e, congrArg (fun plan => [plan]) onward⟩⟩
        · rcases Race.step_alone stopped stepped with ⟨c, resume, called, -⟩
          cases called
  rcases along with ⟨made, rest, split, held, -⟩
  exact ⟨made, rest, split, held⟩

end Index

theorem Diff.granted_of_mem {old new : Acl} {change : Change} (member : change ∈ (Diff.between old new).changes) :
    change.granted = new.get? change.key := by
  rw [Change.granted, new_eq_of_mem member]
  cases held : new.get? change.key with
  | none => rfl
  | some rights => exact if_neg fun none => Acl.ne_empty_of_get? held (Rights.isEmpty_iff.mp none)

/-- How the difference of two lists, all of it, leaves the store. -/
structure Applied (mailbox : MailboxId) (old new : Acl) (store last : Store) : Prop where
  changed : ∀ key, old.get? key ≠ new.get? key →
    last.cell key.text mailbox.bytes = (new.get? key).map Rights.text
  /-- Other rows are kept, whoever they are of and whether or not they can be read. -/
  kept : ∀ identity place, (∀ key, old.get? key ≠ new.get? key → ¬ (identity = key.text ∧ place = mailbox.bytes)) →
    last.cell identity place = store.cell identity place
  row : ∀ key, old.get? key ≠ new.get? key → last.look (.retrieve key mailbox) = .ok (new.get? key)
  other : ∀ key place, place ≠ mailbox ∨ old.get? key = new.get? key →
    last.look (.retrieve key place) = store.look (.retrieve key place)
  synced : store.look (.listMailbox mailbox) = .ok old.table → last.look (.listMailbox mailbox) = .ok new.table
  elsewhere : ∀ place, place ≠ mailbox → Store.Alike place last store
  records : Store.SameRecords store last
  again : (Index.applyDiff mailbox (Diff.between old new)).run Store.answer last = (.ok (), last)

def Store.followed (mailbox : MailboxId) (old new : Acl) (store : Store) : Store :=
  (Diff.between old new).changes.foldl (Store.follow mailbox) store

theorem applied_followed (indexed : store.Indexed) (mailbox : MailboxId) (old new : Acl) :
    Applied mailbox old new store (store.followed mailbox old new) := by
  have granted : ∀ change ∈ (Diff.between old new).changes, change.granted = new.get? change.key :=
    fun change => Diff.granted_of_mem
  have standing : (store.followed mailbox old new).Indexed := Store.indexed_foldl indexed _
  have changed (key : EntryKey) (differ : old.get? key ≠ new.get? key) :
      (store.followed mailbox old new).cell key.text mailbox.bytes = (new.get? key).map Rights.text := by
    rcases Diff.exists_change_iff.mpr differ with ⟨change, member, rfl⟩
    exact Store.cell_foldl_of_mem indexed granted member
  have kept (identity : String) (place : Bytes)
      (apart : ∀ key, old.get? key ≠ new.get? key → ¬ (identity = key.text ∧ place = mailbox.bytes)) :
      (store.followed mailbox old new).cell identity place = store.cell identity place :=
    Store.cell_foldl_of_apart indexed fun change member =>
      apart change.key (Diff.exists_change_iff.mp ⟨change, member, rfl⟩)
  exact
    { changed
      kept
      row := by
        intro key differ
        rw [Store.look_retrieve standing, changed key differ]
        cases new.get? key with
        | none => rfl
        | some rights =>
            simp only [Option.map_some, Database.readRights, rights.parse_text]
            rfl
      other := by
        intro key place apart
        rw [Store.look_retrieve standing, Store.look_retrieve indexed, kept]
        intro other differ same
        rcases apart with elsewhere | equal
        · exact elsewhere (Database.mailbox_eq same.2)
        · exact differ (EntryKey.text_injective same.1 ▸ equal)
      synced := by
        intro listed
        have rows : (Diff.between old new).changes.foldl Index.written old.table = new.table :=
          Index.foldl_written_eq fun key same => same
        rw [← rows]
        exact Store.listed_foldl indexed _ listed
      elsewhere := fun place apart => Store.alike_foldl indexed _ apart
      records := Store.sameRecords_foldl indexed _
      again := by
        have resumed := Store.foldl_follow_resumed indexed mailbox [] granted
        rw [List.append_nil] at resumed
        rw [Index.applyDiff, Index.run_applyChanges standing, Store.followed, resumed] }

/-- The changes between two lists give each key whose rights differ the row of the new list, and touch no other row of
any identity or mailbox. Wherever they stop, the first of them have been made, and if all are made again from there the
store is as if they had never stopped. -/
theorem applyDiff_sets_rows (indexed : store.Indexed) (mailbox : MailboxId) (old new : Acl) :
    ∃ last, (Index.applyDiff mailbox (Diff.between old new)).run Store.answer store = (.ok (), last) ∧
      Applied mailbox old new store last ∧
      ∀ (turns : List Turn) (history : List Happening) (cut : Race Unit),
        (⟨store, [Index.applyDiff mailbox (Diff.between old new)]⟩ : Race Unit).run turns = (history, cut) →
        (∃ made, made <+: (Diff.between old new).changes ∧
          (Index.applyChanges mailbox made).run Store.answer store = (.ok (), cut.store)) ∧
        (Index.applyDiff mailbox (Diff.between old new)).run Store.answer cut.store = (.ok (), last) := by
  refine ⟨store.followed mailbox old new, Index.run_applyChanges indexed _,
    applied_followed indexed mailbox old new, ?_⟩
  intro turns history cut ran
  rcases Index.made_of_run indexed ran with ⟨made, rest, split, held⟩
  have granted : ∀ change ∈ made, change.granted = new.get? change.key := by
    intro change member
    apply Diff.granted_of_mem
    rw [split]
    exact List.mem_append_left _ member
  constructor
  · refine ⟨made, ⟨rest, split.symm⟩, ?_⟩
    rw [Index.run_applyChanges indexed, held]
  · rw [Index.applyDiff, held, Index.run_applyChanges (Store.indexed_foldl indexed made), Store.followed, split,
      Store.foldl_follow_resumed indexed mailbox rest granted]

def strayRows : InsertionMap (String × Bytes) String :=
  (InsertionMap.empty.insert ("owner", sampleMailbox.bytes) "?").insert ("anyone", [1, 2, 3]) "l"

def strayStore : Store := .database { Database.fresh with rights := some strayRows }

def strayRun : List Happening × Race Unit :=
  (⟨strayStore, [Index.applyDiff sampleMailbox (Diff.between Acl.empty sharedList)]⟩ : Race Unit).run
    [.act 0, .fault 0 .database]

theorem applyDiff_sets_rows_of_strayRun :
    strayRun.2.result? 0 = some (.error (.store .database)) ∧
      ∃ last, Applied sampleMailbox Acl.empty sharedList strayStore last ∧
        (Index.applyDiff sampleMailbox (Diff.between Acl.empty sharedList)).run Store.answer strayRun.2.store =
          (.ok (), last) := by
  have indexed : strayStore.Indexed := ⟨strayRows, rfl⟩
  rcases applyDiff_sets_rows indexed sampleMailbox Acl.empty sharedList with ⟨last, -, applied, resumes⟩
  exact ⟨by decide +kernel, last, applied, (resumes _ _ _ (show _ = (strayRun.1, strayRun.2) from rfl)).2⟩

end MailboxAccess
