import MailboxAccess.Index
import MailboxAccess.Proofs.Store.Readable

namespace MailboxAccess

namespace Plan

variable {α β : Type} {mailbox : MailboxId} {before between after : View}

/-- On any store that holds `before` of the mailbox the plan returns `a`, and the store then holds `after` of
it, and of all others what it held. -/
def Alone (plan : Plan α) (mailbox : MailboxId) (before : View) (a : α) (after : View) : Prop :=
  ∀ store : Store, store.Readable → store.viewOf mailbox = before →
    ∃ last : Store, plan.run Store.answer store = (.ok a, last) ∧ last.Readable ∧
      last.viewOf = Function.update store.viewOf mailbox after

theorem pure_alone (a : α) : (pure a : Plan α).Alone mailbox before a before := by
  intro store readable held
  refine ⟨store, rfl, readable, ?_⟩
  rw [← held, Function.update_eq_self]

theorem Alone.bind {plan : Plan α} {f : α → Plan β} {a : α} {b : β}
    (first : plan.Alone mailbox before a between) (rest : (f a).Alone mailbox between b after) :
    (plan >>= f).Alone mailbox before b after := by
  intro store readable held
  rcases first store readable held with ⟨middle, ran, kept, views⟩
  have shows : middle.viewOf mailbox = between := by rw [views, Function.update_self]
  rcases rest middle kept shows with ⟨last, ran', kept', views'⟩
  refine ⟨last, ?_, kept', ?_⟩
  · rw [bind_eq, run_bind, ran]
    exact ran'
  · rw [views', views, Function.update_idem]

theorem ask_alone {request : Request} {reply : request.Reply} (about : request.mailbox? = some mailbox)
    (storable : request.Storable) (allowed : before.Allows mailbox request reply) :
    (ask request).Alone mailbox before reply (before.after mailbox request reply) := by
  intro store readable held
  rcases readable.execute storable with ⟨answer, last, done, kept⟩
  have permitted : before.Allows mailbox request answer := by
    rw [← held]
    exact (Store.execute_view done).1
  have same : answer = reply := View.allows_unique about permitted allowed
  subst same
  refine ⟨last, by simp only [ask, run, Store.answer, done], kept, ?_⟩
  funext place
  rw [(Store.execute_view done).2]
  by_cases here : place = mailbox
  · rw [here, held, Function.update_self]
  · rw [Function.update_of_ne here]
    apply View.after_elsewhere
    rw [about]
    exact fun same => here (Option.some.inj same).symm

theorem read_alone : (ask (.read mailbox)).Alone mailbox before before.record before := by
  have asked : (ask (.read mailbox)).Alone mailbox before before.record
      (before.after mailbox (.read mailbox) before.record) := ask_alone rfl trivial fun _ => rfl
  exact asked

theorem listMailbox_alone : (ask (.listMailbox mailbox)).Alone mailbox before before.rows before := by
  have asked : (ask (.listMailbox mailbox)).Alone mailbox before before.rows
      (before.after mailbox (.listMailbox mailbox) before.rows) := ask_alone rfl trivial fun _ => rfl
  exact asked

theorem retrieve_alone (key : EntryKey) :
    (ask (.retrieve key mailbox)).Alone mailbox before (before.rows.get? key) before := by
  have asked : (ask (.retrieve key mailbox)).Alone mailbox before (before.rows.get? key)
      (before.after mailbox (.retrieve key mailbox) (before.rows.get? key)) := ask_alone rfl trivial fun _ => rfl
  exact asked

theorem upsert_alone (key : EntryKey) (rights : Rights) :
    (ask (.upsert key mailbox rights)).Alone mailbox before ()
      ⟨before.record, before.rows.insert key rights⟩ := by
  have asked : (ask (.upsert key mailbox rights)).Alone mailbox before ()
      (before.after mailbox (.upsert key mailbox rights) ()) := ask_alone rfl trivial trivial
  simpa [View.after, Request.stored?, View.rowsAfter] using asked

theorem delete_alone (key : EntryKey) :
    (ask (.delete key mailbox)).Alone mailbox before () ⟨before.record, before.rows.erase key⟩ := by
  have asked : (ask (.delete key mailbox)).Alone mailbox before ()
      (before.after mailbox (.delete key mailbox) ()) := ask_alone rfl trivial trivial
  simpa [View.after, Request.stored?, View.rowsAfter] using asked

theorem insert_alone (absent : before.record = none) (acl : Bytes) :
    (ask (.insert mailbox acl)).Alone mailbox before true ⟨some ⟨acl, Record.firstVersion⟩, before.rows⟩ := by
  have created : before.Allows mailbox (.insert mailbox acl) true := by
    intro _
    rw [absent]
    rfl
  have asked : (ask (.insert mailbox acl)).Alone mailbox before true
      (before.after mailbox (.insert mailbox acl) true) := ask_alone rfl trivial created
  simpa [View.after, Request.stored?, View.rowsAfter] using asked

theorem swap_alone {record : Record} (present : before.record = some record) (acl : Bytes) {new : UInt64}
    (storable : (Request.swap mailbox acl new record.version).Storable) :
    (ask (.swap mailbox acl new record.version)).Alone mailbox before true ⟨some ⟨acl, new⟩, before.rows⟩ := by
  have swapped : before.Allows mailbox (.swap mailbox acl new record.version) true := by
    intro _
    rw [present]
    exact (decide_eq_true rfl).symm
  have asked : (ask (.swap mailbox acl new record.version)).Alone mailbox before true
      (before.after mailbox (.swap mailbox acl new record.version) true) := ask_alone rfl storable swapped
  simpa [View.after, Request.stored?, View.rowsAfter] using asked

theorem overwrite_alone (acl : Bytes) :
    (ask (.overwrite mailbox acl)).Alone mailbox before () ⟨some ⟨acl, Record.firstVersion⟩, before.rows⟩ := by
  have asked : (ask (.overwrite mailbox acl)).Alone mailbox before ()
      (before.after mailbox (.overwrite mailbox acl) ()) := ask_alone rfl trivial trivial
  simpa [View.after, Request.stored?, View.rowsAfter] using asked

end Plan

namespace Index

variable {mailbox : MailboxId} {view : View}

def written (rows : SortedMap EntryKey Rights) (change : Change) : SortedMap EntryKey Rights :=
  match change.new with
  | some rights => if rights.isEmpty then rows.erase change.key else rows.insert change.key rights
  | none => rows.erase change.key

theorem applyChange_alone (change : Change) :
    (applyChange mailbox change).Alone mailbox view () ⟨view.record, written view.rows change⟩ := by
  simp only [applyChange, written]
  cases change.new with
  | none => exact Plan.delete_alone change.key
  | some rights =>
      cases none : rights.isEmpty with
      | true =>
          simp only [none, if_true]
          exact Plan.delete_alone change.key
      | false =>
          simp only [none, Bool.false_eq_true, if_false]
          exact Plan.upsert_alone change.key rights

theorem applyChanges_alone (changes : List Change) :
    (applyChanges mailbox changes).Alone mailbox view () ⟨view.record, changes.foldl written view.rows⟩ := by
  induction changes generalizing view with
  | nil => exact Plan.pure_alone ()
  | cons change changes ih => exact (applyChange_alone change).bind ih

theorem get?_written {change : Change} {acl : Acl} (granted : change.new = acl.get? change.key)
    (rows : SortedMap EntryKey Rights) (key : EntryKey) :
    (written rows change).get? key = if key = change.key then acl.get? key else rows.get? key := by
  unfold written
  rw [granted]
  cases entry : acl.get? change.key with
  | none =>
      rw [SortedMap.get?_erase]
      by_cases same : key = change.key
      · simp [same, entry]
      · simp [same, Std.LawfulEqCmp.compare_eq_iff_eq]
  | some rights =>
      have granting : rights.isEmpty = false := by
        rw [Bool.eq_false_iff]
        exact fun none => Acl.ne_empty_of_get? entry (Rights.isEmpty_iff.mp none)
      simp only [granting, Bool.false_eq_true, if_false]
      rw [SortedMap.get?_insert]
      by_cases same : key = change.key
      · simp [same, entry]
      · simp [same, Std.LawfulEqCmp.compare_eq_iff_eq]

theorem get?_foldl_written {changes : List Change} {acl : Acl}
    (granted : ∀ change ∈ changes, change.new = acl.get? change.key) (rows : SortedMap EntryKey Rights)
    (key : EntryKey) :
    (changes.foldl written rows).get? key =
      if ∃ change ∈ changes, change.key = key then acl.get? key else rows.get? key := by
  induction changes generalizing rows with
  | nil => simp
  | cons change changes ih =>
      have first := get?_written (granted change List.mem_cons_self) rows key
      have later := ih (fun other among => granted other (List.mem_cons_of_mem _ among)) (written rows change)
      rw [List.foldl_cons, later, first]
      by_cases same : key = change.key
      · simp [same]
      · simp [same, Ne.symm same]

/-- Rows in which the keys that have not changed stand as the new list has them become its rows. -/
theorem foldl_written_eq {old new : Acl} {rows : SortedMap EntryKey Rights}
    (agree : ∀ key, old.get? key = new.get? key → rows.get? key = new.get? key) :
    (Diff.between old new).changes.foldl written rows = new.table := by
  apply SortedMap.ext_get?
  intro key
  have granted : ∀ change ∈ (Diff.between old new).changes, change.new = new.get? change.key :=
    fun change => Diff.new_eq_of_mem
  rw [get?_foldl_written granted]
  split
  · rfl
  · next unchanged => exact agree key (Diff.get?_eq_of_unchanged unchanged)

theorem applyDiff_alone {old new : Acl}
    (agree : ∀ key, old.get? key = new.get? key → view.rows.get? key = new.get? key) :
    (applyDiff mailbox (Diff.between old new)).Alone mailbox view () ⟨view.record, new.table⟩ := by
  rw [← foldl_written_eq agree]
  exact applyChanges_alone _

/-- A repair leaves the rows of the list, whatever they were, unless there were rows without rights. -/
theorem repair_alone (acl : Acl) (granting : ∀ key, view.rows.get? key ≠ some Rights.empty) :
    (repair mailbox acl).Alone mailbox view (Diff.between (Acl.ofEntries view.rows.entries) acl)
      ⟨view.record, acl.table⟩ := by
  refine Plan.listMailbox_alone.bind (Plan.Alone.bind (applyDiff_alone ?_) (Plan.pure_alone _))
  intro key unchanged
  rw [← unchanged, Acl.get?_ofEntries_table (granting key)]

end Index

end MailboxAccess
