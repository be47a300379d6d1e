import MailboxAccess.Proofs.Editor.Cut
import MailboxAccess.Proofs.Serial

namespace MailboxAccess

variable {mailbox : MailboxId} {view : View}

namespace Store

variable {store : Store}

theorem execute_of_rowwise {rows : SortedMap EntryKey Rights} {request : Request}
    (listed : store.look (.listMailbox mailbox) = .ok rows) (rowwise : request.Rowwise mailbox) :
    ∃ reply next, store.execute request = .ok (reply, next) := by
  cases store with
  | memory memory => exact ⟨_, _, rfl⟩
  | database db =>
      rcases execute_of_look listed with ⟨next, done⟩
      rcases execute_database done with ⟨tables, -, executed⟩
      rcases Database.showsRows_of_list executed with ⟨rows, indexed, -⟩
      cases request with
      | upsert | delete =>
          simp only [execute, Database.execute, indexed, Database.table, bind, Except.bind, pure, Except.pure]
          exact ⟨_, _, rfl⟩
      | listMailbox place =>
          cases rowwise
          exact ⟨_, _, done⟩
      | _ => cases rowwise

theorem execute_of_upkeep {request : Request} (shown : store.view? mailbox = .ok view)
    (upkeep : Upkeep mailbox (.store request)) : ∃ reply next, store.execute request = .ok (reply, next) := by
  rcases view_eq_ok_iff.mp shown with ⟨read, listed⟩
  cases upkeep with
  | read =>
      rcases execute_of_look read with ⟨next, done⟩
      exact ⟨_, _, done⟩
  | rows rowwise => exact execute_of_rowwise listed rowwise

end Store

theorem Plan.run_upkeep {α : Type} {plan : Plan α} {good : View → Prop} {post : View → α → Prop}
    {past : List Exchange} {store : Store}
    (meets : plan.Meets (fun _ => True) (fun _ x => Upkeep mailbox x.call) Faultless past)
    (sound : ∀ x ∈ past, ¬ x.Failed) (through : plan.Throughout mailbox good post view)
    (shown : store.view? mailbox = .ok view) :
    ∃ a last final, plan.run Store.answer store = (.ok a, last) ∧ last.view? mailbox = .ok final ∧ post final a := by
  induction plan generalizing past store view with
  | done result =>
      cases result with
      | ok a => exact ⟨a, store, view, rfl, shown, through.2⟩
      | error e =>
          rcases Faultless.failed meets with ⟨x, member, failed⟩
          exact absurd failed (sound x member)
  | call c next ih =>
      -- every call is one for the mailbox's record or its rows, and those can be read
      have answered : ∃ request reply after, c = .store request ∧ store.execute request = .ok (reply, after) := by
        cases (meets (Store.answer c store).1 trivial).1 with
        | read =>
            rcases Store.execute_of_upkeep shown .read with ⟨reply, after, done⟩
            exact ⟨_, reply, after, rfl, done⟩
        | rows rowwise =>
            rcases Store.execute_of_upkeep shown (.rows rowwise) with ⟨reply, after, done⟩
            exact ⟨_, reply, after, rfl, done⟩
      rcases answered with ⟨request, reply, after, rfl, done⟩
      have answer : Store.answer (.store request) store = (.ok reply, after) := by
        simp only [Store.answer, done]
      have kept : view.Permits mailbox ⟨.store request, (Store.answer (.store request) store).1⟩ ∧
          (Store.answer (.store request) store).2.view? mailbox =
            .ok (view.next mailbox ⟨.store request, (Store.answer (.store request) store).1⟩) :=
        (Turn.act 0).answer_shows (.store request) shown
      rw [answer] at kept
      have sound' : ∀ x ∈ past ++ [⟨.store request, .ok reply⟩], ¬ x.Failed := by
        intro x member
        rcases List.mem_append.mp member with earlier | newest
        · exact sound x earlier
        · rw [List.mem_singleton.mp newest]
          exact id
      simp only [run, answer]
      exact ih (.ok reply) (meets (.ok reply) trivial).2 sound' (through.2 (.ok reply) kept.1) kept.2

def Task.applied : Task → Option Versioned → Option Versioned
  | update _ _ command, start => Versioned.edit start command
  | reset _ _ acl, _ => some ⟨acl, Record.firstVersion⟩
  | read _ _, start => start

/-- What is held of a mailbox after its task has stopped somewhere; `start` and `state` are what the record
stood for and what it stands for. -/
structure Interrupted (task : Task) (start : Option Versioned) (old final : View) (state : Option Versioned) :
    Prop where
  decoded : task.editor.codec.versioned final.record = .ok state
  either : final = old ∧ state = start ∨
    ∃ acl version, task.applied start = some ⟨acl, version⟩ ∧ state = some ⟨acl, version⟩ ∧
      final.record = some ⟨task.editor.codec.encode acl, version⟩
  row : ∀ key, final.rows.get? key = (Versioned.list start).get? key ∨
    final.rows.get? key = (Versioned.list state).get? key
  elsewhere : ∀ command, task.command? = some command → ∀ key, key ≠ command.key →
    final.rows.get? key = (Versioned.list state).get? key

section Interrupted

variable {task : Task} {start : Option Versioned}

theorem interrupted_before (decoded : task.editor.codec.versioned view.record = .ok start)
    (rows : view.rows = (Versioned.list start).table) : Interrupted task start view view start where
  decoded := decoded
  either := .inl ⟨rfl, rfl⟩
  row key := .inl (by rw [rows]; rfl)
  elsewhere command _ key _ := by rw [rows]; rfl

theorem interrupted_after {acl : Acl} {version : UInt64} {now : View}
    (applied : task.applied start = some ⟨acl, version⟩) (carried : task.editor.codec.Carries acl.keys)
    (partway : Index.Partway (some ⟨task.editor.codec.encode acl, version⟩) (Versioned.list start).table
      (Diff.between (Versioned.list start) acl).changes now)
    (unchanged : ∀ command, task.command? = some command → ∀ key, key ≠ command.key →
      (Versioned.list start).get? key = acl.get? key) :
    Interrupted task start view now (some ⟨acl, version⟩) where
  decoded := by
    rw [partway.1, Codec.versioned, Codec.decode_encode carried]
    rfl
  either := .inr ⟨acl, version, applied, rfl, partway.1⟩
  row := partway.row
  elsewhere := by
    intro command given key other
    rcases partway.row key with before | after
    · exact before.trans (unchanged command given key other)
    · exact after

theorem interrupted_of_update {editor : Editor} {mailbox : MailboxId} {command : Command} {now : View}
    (decoded : editor.codec.versioned view.record = .ok start) (rows : view.rows = (Versioned.list start).table)
    (carried : editor.codec.Carries (Versioned.list (Versioned.edit start command)).keys)
    (partway : Index.Partway (editor.stored command view).record view.rows (editor.follows command view) now) :
    ∃ state, Interrupted (.update editor mailbox command) start view now state := by
  have base : editor.base view.record = Versioned.list start := Codec.listOf_eq decoded
  have applied : Versioned.edit start command =
      some ⟨editor.edited command view.record, Editor.nextVersion view.record⟩ := by
    rw [Versioned.edit_eq command decoded, Editor.edited, base]
  have legible : (editor.written command view.record).corrupt = false :=
    Editor.written_of_legible ⟨start, decoded, List.Subset.refl _⟩
  have follows : editor.follows command view =
      (Diff.between (Versioned.list start) (editor.edited command view.record)).changes := by
    rw [Editor.follows, legible, ← base]
    rfl
  have kept (given : Command) (same : some command = some given) (key : EntryKey) (other : key ≠ given.key) :
      (Versioned.list start).get? key = (editor.edited command view.record).get? key := by
    cases same
    rw [Editor.edited, base, Acl.apply, Acl.get?_withEntry, if_neg other]
  rw [applied] at carried
  rw [rows, follows] at partway
  exact ⟨_, interrupted_after applied carried partway kept⟩

theorem interrupted_of_reset {editor : Editor} {mailbox : MailboxId} {acl : Acl} {now : View}
    (rows : view.rows = (Versioned.list start).table) (carried : editor.codec.Carries acl.keys)
    (partway : Index.Partway (some ⟨editor.codec.encode acl, Record.firstVersion⟩) view.rows
      (Index.repairs view.rows acl) now) :
    ∃ state, Interrupted (.reset editor mailbox acl) start view now state := by
  rw [rows, Index.repairs_table] at partway
  refine ⟨_, interrupted_after rfl carried partway ?_⟩
  intro command given
  cases given

theorem Task.plan_throughout (decoded : task.editor.codec.versioned view.record = .ok start)
    (rows : view.rows = (Versioned.list start).table)
    (carried : task.editor.codec.Carries (Versioned.list (task.applied start)).keys) :
    task.plan.Throughout task.mailbox (fun now => ∃ state, Interrupted task start view now state)
      (fun _ _ => True) view := by
  have before := interrupted_before decoded rows
  cases task with
  | update editor mailbox command =>
      refine (Editor.update_throughout.mono ?_ fun _ _ _ => trivial).bind fun now _ reached _ => ⟨reached, trivial⟩
      intro now reached
      rcases reached with rfl | partway
      · exact ⟨start, before⟩
      · exact interrupted_of_update decoded rows carried partway
  | reset editor mailbox acl =>
      refine ((Editor.reset_throughout acl).mono ?_ fun _ _ _ => trivial).bind fun now _ reached _ => ⟨reached, trivial⟩
      intro now reached
      rcases reached with rfl | partway
      · exact ⟨start, before⟩
      · exact interrupted_of_reset rows carried partway
  | read editor mailbox =>
      refine (Editor.getVersioned_throughout.mono ?_ fun _ _ _ => trivial).bind
        fun now _ reached _ => ⟨reached, trivial⟩
      intro now same
      exact ⟨start, same ▸ before⟩

theorem Interrupted.repaired {final : View} {state : Option Versioned} {store : Store}
    (interrupted : Interrupted task start view final state) (shown : store.view? task.mailbox = .ok final)
    {reader : Editor} (format : reader.codec = task.editor.codec) :
    ∃ diff last, (reader.get task.mailbox >>= Index.repair task.mailbox).run Store.answer store = (.ok diff, last) ∧
      last.view? task.mailbox = .ok ⟨final.record, (Versioned.list state).table⟩ := by
  have granting (key : EntryKey) : final.rows.get? key ≠ some Rights.empty := by
    intro none
    rcases interrupted.row key with before | after
    · exact Acl.ne_empty_of_get? (before.symm.trans none) rfl
    · exact Acl.ne_empty_of_get? (after.symm.trans none) rfl
  have list : reader.base final.record = Versioned.list state := by
    rw [Editor.base, format]
    exact Codec.listOf_eq interrupted.decoded
  have meets : (reader.get task.mailbox >>= Index.repair task.mailbox).Meets (fun _ => True)
      (fun _ x => Upkeep task.mailbox x.call) Faultless [] :=
    (Editor.get_meets []).bind_faultless fun past acl => (Index.repair_meets acl past).upkeep
  have through : (reader.get task.mailbox >>= Index.repair task.mailbox).Throughout task.mailbox (fun _ => True)
      (fun now _ => now = ⟨final.record, (Versioned.list state).table⟩) final := by
    refine (Editor.get_throughout.mono (fun _ _ => trivial) fun _ _ => id).bind ?_
    intro now acl _ same
    rcases same with ⟨rfl, rfl⟩
    refine (Index.repair_throughout _).mono (fun _ _ => trivial) ?_
    intro last _ done
    rw [done, Index.foldl_repairs_eq _ granting, list]
  have nothing : ∀ x ∈ ([] : List Exchange), ¬ x.Failed := fun _ member => absurd member List.not_mem_nil
  rcases Plan.run_upkeep meets nothing through shown with ⟨diff, last, after, ran, held, same⟩
  exact ⟨diff, last, ran, same ▸ held⟩

/-- A task that stops anywhere, or fails anywhere, leaves of its mailbox the old record or the new one. Its
rows are each that of the old list or that of the new one, and after an update only that of the command's key
can be wrong. Nothing else is touched, and one repair makes the rows those of the record. -/
theorem cut_safe {store : Store} {turns : List Turn} {history : List Happening} {cut : Race Outcome}
    (shown : store.view? task.mailbox = .ok view)
    (decoded : task.editor.codec.versioned view.record = .ok start)
    (rows : view.rows = (Versioned.list start).table)
    (carried : task.editor.codec.Carries (Versioned.list (task.applied start)).keys)
    (ran : (Race.start store [task]).run turns = (history, cut)) :
    ∃ final state, cut.store.view? task.mailbox = .ok final ∧ Interrupted task start view final state ∧
      (∀ place, place ≠ task.mailbox → Store.Alike place cut.store store) ∧
      ∀ reader : Editor, reader.codec = task.editor.codec → ∃ diff last,
        (reader.get task.mailbox >>= Index.repair task.mailbox).run Store.answer cut.store = (.ok diff, last) ∧
        last.view? task.mailbox = .ok ⟨final.record, (Versioned.list state).table⟩ := by
  have through := Task.plan_throughout decoded rows carried
  rcases Race.throughout_of_run through shown ran with ⟨final, held, ⟨state, interrupted⟩, -⟩
  refine ⟨final, state, held, interrupted, ?_, ?_⟩
  · intro place apart
    refine Race.alike_of_run ?_ ran
    intro other member
    rw [List.mem_singleton.mp member]
    exact apart.symm
  · intro reader format
    exact interrupted.repaired held format

end Interrupted

def readerStore : Store := ((sampleEditor.update sampleMailbox addReader).run Store.answer Store.inMemory).2

def readerView : View := ⟨some ⟨Codec.json.encode (Acl.empty.apply addReader), 0⟩, (Acl.empty.apply addReader).table⟩

def sharedList : Acl := Acl.ofEntries [(.owner, .full), (.authenticated, .only .lookup)]

def shareTask : Task := .reset sampleEditor sampleMailbox sharedList

/-- The new record is stored and the row of the old list is gone, but of the two new rows there is only one. -/
def halfShared : List Happening × Race Outcome :=
  (Race.start readerStore [shareTask]).run [.act 0, .act 0, .act 0, .act 0, .fault 0 .database]

theorem cut_safe_of_halfShared :
    halfShared.2.store.view? sampleMailbox = .ok ⟨some ⟨Codec.json.encode sharedList, 0⟩,
        (Acl.ofEntries [(.authenticated, .only .lookup)]).table⟩ ∧
      ∃ final state, halfShared.2.store.view? shareTask.mailbox = .ok final ∧
        Interrupted shareTask (some ⟨Acl.empty.apply addReader, 0⟩) readerView final state ∧
        (∀ place, place ≠ shareTask.mailbox → Store.Alike place halfShared.2.store readerStore) ∧
        ∀ reader : Editor, reader.codec = shareTask.editor.codec → ∃ diff last,
          (reader.get shareTask.mailbox >>= Index.repair shareTask.mailbox).run Store.answer halfShared.2.store =
            (.ok diff, last) ∧
          last.view? shareTask.mailbox = .ok ⟨final.record, (Versioned.list state).table⟩ := by
  have shown : readerStore.view? shareTask.mailbox = .ok readerView := by decide +kernel
  have written : Codec.json.Carries (Acl.empty.apply addReader).keys := trivial
  have decoded : shareTask.editor.codec.versioned readerView.record = .ok (some ⟨Acl.empty.apply addReader, 0⟩) :=
    Codec.versioned_encode written (List.Subset.refl _)
  have carried : shareTask.editor.codec.Carries
      (Versioned.list (shareTask.applied (some ⟨Acl.empty.apply addReader, 0⟩))).keys := trivial
  exact ⟨by decide +kernel, cut_safe shown decoded rfl carried (show _ = (halfShared.1, halfShared.2) from rfl)⟩

end MailboxAccess
