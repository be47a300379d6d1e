import MailboxAccess.Proofs.Changes
import MailboxAccess.Proofs.CrashSafety

namespace MailboxAccess

def Store.noting (c : Call) (world : Store × List Call) : c.Answer × (Store × List Call) :=
  let (reply, next) := Store.answer c world.1
  (reply, next, world.2 ++ [c])

theorem Store.execute_listMailbox {store : Store} {mailbox : MailboxId} {rows : SortedMap EntryKey Rights}
    (listed : store.look (.listMailbox mailbox) = .ok rows) :
    store.execute (.listMailbox mailbox) = .ok (rows, store) := by
  rcases execute_of_look listed with ⟨next, done⟩
  rwa [eq_of_looks done trivial] at done

namespace Plan

variable {α β : Type} {mailbox : MailboxId} {before between after : SortedMap EntryKey Rights}

/-- Wherever the mailbox has the rows `before`, the plan makes these calls, returns `a` and leaves the rows
`after`, and no other mailbox is touched. -/
def Rewrites (plan : Plan α) (mailbox : MailboxId) (before : SortedMap EntryKey Rights) (a : α)
    (after : SortedMap EntryKey Rights) (calls : List Call) : Prop :=
  ∀ (store : Store) (log : List Call), store.look (.listMailbox mailbox) = .ok before →
    ∃ last : Store, plan.run Store.noting (store, log) = (.ok a, last, log ++ calls) ∧
      last.look (.listMailbox mailbox) = .ok after ∧ ∀ place, place ≠ mailbox → Store.Alike place last store

theorem pure_rewrites (a : α) : (pure a : Plan α).Rewrites mailbox before a before [] := by
  intro store log listed
  refine ⟨store, ?_, listed, fun place _ => .refl place store⟩
  rw [List.append_nil]
  rfl

theorem Rewrites.bind {plan : Plan α} {f : α → Plan β} {a : α} {b : β} {calls more : List Call}
    (first : plan.Rewrites mailbox before a between calls) (rest : (f a).Rewrites mailbox between b after more) :
    (plan >>= f).Rewrites mailbox before b after (calls ++ more) := by
  intro store log listed
  rcases first store log listed with ⟨middle, ran, held, elsewhere⟩
  rcases rest middle (log ++ calls) held with ⟨last, ran', held', elsewhere'⟩
  refine ⟨last, ?_, held', fun place apart => (elsewhere' place apart).trans (elsewhere place apart)⟩
  rw [bind_eq, run_bind, ran, ← List.append_assoc]
  exact ran'

theorem ask_rewrites {request : Request} {reply : request.Reply} (rowwise : request.Rowwise mailbox)
    (allowed : ∀ view answer, view.rows = before → View.Allows mailbox view request answer → answer = reply) :
    (ask request).Rewrites mailbox before reply (View.rowsAfter mailbox before request) [.store request] := by
  intro store log listed
  rcases Store.execute_of_rowwise listed rowwise with ⟨answer, next, done⟩
  rcases Store.execute_view done with ⟨permitted, held⟩
  have rows : (store.viewOf mailbox).rows = before := Store.rows_of_look listed
  cases allowed _ answer rows permitted
  have about : request.mailbox? = some mailbox := Upkeep.about (.rows rowwise)
  refine ⟨next, ?_, ?_, ?_⟩
  · simp only [ask, run, Store.noting, Store.answer, done]
  · rw [Store.list_after listed done, held, View.after, rows]
  · intro place apart
    apply Store.alike_of_execute done
    rw [about]
    exact fun same => apart (Option.some.inj same).symm

end Plan

namespace Index

variable {mailbox : MailboxId} {rows : SortedMap EntryKey Rights} {acl : Acl}

def request (mailbox : MailboxId) (change : Change) : Request :=
  match change.new with
  | some rights => if rights.isEmpty then .delete change.key mailbox else .upsert change.key mailbox rights
  | none => .delete change.key mailbox

theorem upsert_rewrites (key : EntryKey) {rights : Rights} (granting : rights ≠ Rights.empty) :
    (Plan.ask (.upsert key mailbox rights)).Rewrites mailbox rows () (rows.insert key rights)
      [.store (.upsert key mailbox rights)] := by
  have asked : (Plan.ask (.upsert key mailbox rights)).Rewrites mailbox rows ()
      (View.rowsAfter mailbox rows (.upsert key mailbox rights)) [.store (.upsert key mailbox rights)] :=
    Plan.ask_rewrites ⟨rfl, granting⟩ fun _ _ _ _ => rfl
  rwa [View.rowsAfter, if_pos rfl] at asked

theorem delete_rewrites (key : EntryKey) :
    (Plan.ask (.delete key mailbox)).Rewrites mailbox rows () (rows.erase key) [.store (.delete key mailbox)] := by
  have asked : (Plan.ask (.delete key mailbox)).Rewrites mailbox rows ()
      (View.rowsAfter mailbox rows (.delete key mailbox)) [.store (.delete key mailbox)] :=
    Plan.ask_rewrites rfl fun _ _ _ _ => rfl
  rwa [View.rowsAfter, if_pos rfl] at asked

theorem listMailbox_rewrites :
    (Plan.ask (.listMailbox mailbox)).Rewrites mailbox rows rows rows [.store (.listMailbox mailbox)] := by
  have asked : (Plan.ask (.listMailbox mailbox)).Rewrites mailbox rows rows
      (View.rowsAfter mailbox rows (.listMailbox mailbox)) [.store (.listMailbox mailbox)] :=
    Plan.ask_rewrites rfl fun _ _ held permitted => (permitted rfl).trans held
  exact asked

theorem applyChange_rewrites (change : Change) :
    (applyChange mailbox change).Rewrites mailbox rows () (written rows change) [.store (request mailbox change)] := by
  simp only [applyChange, written, request]
  cases change.new with
  | none => exact delete_rewrites change.key
  | some rights =>
      by_cases none : rights.isEmpty = true
      · simp only [none, if_true]
        exact delete_rewrites change.key
      · simp only [none]
        exact upsert_rewrites change.key fun same => none (Rights.isEmpty_iff.mpr same)

theorem applyChanges_rewrites (changes : List Change) :
    (applyChanges mailbox changes).Rewrites mailbox rows () (changes.foldl written rows)
      (changes.map fun change => .store (request mailbox change)) := by
  induction changes generalizing rows with
  | nil => exact Plan.pure_rewrites ()
  | cons change changes ih => exact (applyChange_rewrites change).bind ih

theorem repair_rewrites (acl : Acl) :
    (repair mailbox acl).Rewrites mailbox rows (Diff.between (Acl.ofEntries rows.entries) acl)
      ((repairs rows acl).foldl written rows)
      (.store (.listMailbox mailbox) :: (repairs rows acl).map fun change => .store (request mailbox change)) := by
  refine listMailbox_rewrites.bind ?_
  rw [← List.append_nil (List.map _ _)]
  exact (applyChanges_rewrites _).bind (Plan.pure_rewrites _)

theorem get?_ofEntries_rows (rows : SortedMap EntryKey Rights) (key : EntryKey) :
    (Acl.ofEntries rows.entries).get? key = if rows.get? key = some Rights.empty then none else rows.get? key := by
  by_cases none : rows.get? key = some Rights.empty
  · rw [if_pos none]
    apply Option.eq_none_iff_forall_not_mem.mpr
    intro rights found
    rcases (Acl.get?_ofEntries_eq_some_iff rows.distinct).mp found with ⟨member, granting⟩
    rw [SortedMap.get?_eq_some_iff.mpr member] at none
    exact granting (Option.some.inj none)
  · rw [if_neg none, Acl.get?_ofEntries_table none]

theorem get?_foldl_repairs (rows : SortedMap EntryKey Rights) (acl : Acl) (key : EntryKey) :
    ((repairs rows acl).foldl written rows).get? key =
      if rows.get? key = some Rights.empty ∧ acl.get? key = none then some Rights.empty else acl.get? key := by
  have granted : ∀ change ∈ repairs rows acl, change.new = acl.get? change.key := fun change => Diff.new_eq_of_mem
  rw [get?_foldl_written granted]
  by_cases same : (Acl.ofEntries rows.entries).get? key = acl.get? key
  · rw [repairs, if_neg fun changed => Diff.exists_change_iff.mp changed same]
    rw [get?_ofEntries_rows] at same
    by_cases none : rows.get? key = some Rights.empty
    · rw [if_pos none] at same
      rw [if_pos ⟨none, same.symm⟩, none]
    · rw [if_neg none] at same
      rw [if_neg fun both => none both.1, same]
  · rw [repairs, if_pos (Diff.exists_change_iff.mpr same), if_neg]
    intro both
    rw [get?_ofEntries_rows, if_pos both.1, both.2] at same
    exact same rfl

theorem ofEntries_foldl_repairs (rows : SortedMap EntryKey Rights) (acl : Acl) :
    Acl.ofEntries ((repairs rows acl).foldl written rows).entries = acl := by
  apply Acl.ext_get?
  intro key
  rw [get?_ofEntries_rows, get?_foldl_repairs]
  by_cases left : rows.get? key = some Rights.empty ∧ acl.get? key = none
  · rw [if_pos left, if_pos rfl, left.2]
  · rw [if_neg left, if_neg fun none => Acl.ne_empty_of_get? none rfl]

theorem repair_idle {store : Store} (listed : store.look (.listMailbox mailbox) = .ok rows)
    (same : Acl.ofEntries rows.entries = acl) :
    ∃ diff : Diff, diff.isEmpty = true ∧
      (repair mailbox acl).run Store.noting (store, []) = (.ok diff, store, [.store (.listMailbox mailbox)]) := by
  have empty : (Diff.between acl acl).isEmpty = true := (Diff.isEmpty_iff acl acl).mpr rfl
  have none : (Diff.between acl acl).changes = [] := List.isEmpty_iff.mp empty
  refine ⟨_, empty, ?_⟩
  have asked : (Plan.ask (.listMailbox mailbox)).run Store.noting (store, []) =
      (.ok rows, store, [.store (.listMailbox mailbox)]) := by
    simp only [Plan.ask, Plan.run, Store.noting, Store.answer, Store.execute_listMailbox listed, List.nil_append]
  rw [repair, Plan.bind_eq, Plan.run_bind, asked]
  simp only [same, applyDiff, none, applyChanges]
  rfl

end Index

structure Repaired (mailbox : MailboxId) (acl : Acl) (rows final : SortedMap EntryKey Rights) (store last : Store) :
    Prop where
  listed : last.look (.listMailbox mailbox) = .ok final
  row : ∀ key, final.get? key =
    if rows.get? key = some Rights.empty ∧ acl.get? key = none then some Rights.empty else acl.get? key
  exact_iff : final = acl.table ↔ ∀ key, rows.get? key = some Rights.empty → acl.get? key ≠ none
  elsewhere : ∀ place, place ≠ mailbox → Store.Alike place last store
  /-- Another repair finds nothing to do. -/
  again : ∃ diff : Diff, diff.isEmpty = true ∧
    (Index.repair mailbox acl).run Store.noting (last, []) = (.ok diff, last, [.store (.listMailbox mailbox)])

/-- Where its rows can be listed, a repair of a mailbox succeeds with one request for each difference between the
list and the rows with rights. The rows are then those of the list, but those without rights that are not in the
list are still there. -/
theorem repair_exact_iff {store : Store} {mailbox : MailboxId} {rows : SortedMap EntryKey Rights}
    (listed : store.look (.listMailbox mailbox) = .ok rows) (acl : Acl) :
    ∃ last final,
      (Index.repair mailbox acl).run Store.noting (store, []) =
        (.ok (Diff.between (Acl.ofEntries rows.entries) acl), last, .store (.listMailbox mailbox) ::
          (Diff.between (Acl.ofEntries rows.entries) acl).changes.map fun change =>
            .store (Index.request mailbox change)) ∧
      Repaired mailbox acl rows final store last := by
  rcases Index.repair_rewrites acl store [] listed with ⟨last, ran, held, elsewhere⟩
  have row := Index.get?_foldl_repairs rows acl
  refine ⟨last, _, ran, held, row, ?_, elsewhere, ?_⟩
  · constructor
    · intro same key none missing
      have left := row key
      rw [if_pos ⟨none, missing⟩, same] at left
      exact Acl.ne_empty_of_get? left rfl
    · intro present
      apply SortedMap.ext_get?
      intro key
      rw [row, if_neg fun both => present key both.1 both.2]
      rfl
  · exact Index.repair_idle held (Index.ofEntries_foldl_repairs rows acl)

def emptyRowStore : Store :=
  ((Plan.ask (.upsert .anyone sampleMailbox Rights.empty)).run Store.answer Store.inMemory).2

def emptyRow : SortedMap EntryKey Rights := SortedMap.empty.insert .anyone Rights.empty

theorem repair_exact_iff_of_emptyRow :
    emptyRowStore.look (.listMailbox sampleMailbox) = .ok emptyRow ∧
      ∃ last final,
        (Index.repair sampleMailbox Acl.ownerFull).run Store.noting (emptyRowStore, []) =
          (.ok (Diff.between (Acl.ofEntries emptyRow.entries) Acl.ownerFull), last,
            .store (.listMailbox sampleMailbox) ::
              (Diff.between (Acl.ofEntries emptyRow.entries) Acl.ownerFull).changes.map fun change =>
                .store (Index.request sampleMailbox change)) ∧
        Repaired sampleMailbox Acl.ownerFull emptyRow final emptyRowStore last := by
  have listed : emptyRowStore.look (.listMailbox sampleMailbox) = .ok emptyRow := by rfl
  exact ⟨listed, repair_exact_iff listed Acl.ownerFull⟩

def emptyRowRepair : Except AccessError Diff × Store :=
  (Index.repair sampleMailbox Acl.empty).run Store.answer emptyRowStore

/-- The repair finds nothing to do and leaves a row that the list does not have. -/
theorem empty_row_left :
    emptyRowRepair.1 = .ok (Diff.between Acl.empty Acl.empty) ∧ (Diff.between Acl.empty Acl.empty).isEmpty = true ∧
      emptyRowRepair.2.view? sampleMailbox = .ok ⟨none, emptyRow⟩ ∧ emptyRow ≠ Acl.empty.table := by
  exact ⟨by decide +kernel, by decide +kernel, by decide +kernel, by decide +kernel⟩

end MailboxAccess
