import MailboxAccess.Proofs.Store.View

namespace MailboxAccess

namespace Memory

theorem rowsOf_eq {memory : Memory} {identity : EntryKey} {places : SortedMap MailboxId Rights}
    (held : memory.rights.get? identity = some places) : memory.rowsOf identity = places := by
  rw [rowsOf, held, Option.getD_some]

theorem rowsOf_putRow (memory : Memory) (identity other : EntryKey) (mailbox : MailboxId) (rights : Rights) :
    (memory.putRow identity mailbox rights).rowsOf other =
      if other = identity then (memory.rowsOf identity).insert mailbox rights else memory.rowsOf other := by
  rw [rowsOf, putRow, SortedMap.get?_insert]
  by_cases same : other = identity
  · simp [same]
  · simp [same, rowsOf, Std.LawfulEqCmp.compare_eq_iff_eq]

theorem rowsOf_dropRow (memory : Memory) (identity other : EntryKey) (mailbox : MailboxId) :
    (memory.dropRow identity mailbox).rowsOf other =
      if other = identity then (memory.rowsOf identity).erase mailbox else memory.rowsOf other := by
  unfold dropRow
  split
  · next missing =>
      by_cases same : other = identity
      · simp only [same, if_true, rowsOf, missing, Option.getD_none]
        rfl
      · rw [if_neg same]
  · next places held =>
      rw [rowsOf_eq held]
      split
      · next left =>
          -- the identity is no longer kept, which reads as one without rows
          rw [rowsOf, SortedMap.get?_erase]
          by_cases same : other = identity
          · have none : places.erase mailbox = SortedMap.empty := by
              cases emptied : places.erase mailbox
              rw [emptied] at left
              cases left
              rfl
            simp [same, none]
          · simp [same, rowsOf, Std.LawfulEqCmp.compare_eq_iff_eq]
      · rw [rowsOf, SortedMap.get?_insert]
        by_cases same : other = identity
        · simp [same]
        · simp [same, rowsOf, Std.LawfulEqCmp.compare_eq_iff_eq]

theorem records_dropRow (memory : Memory) (identity : EntryKey) (mailbox : MailboxId) :
    (memory.dropRow identity mailbox).records = memory.records := by
  unfold dropRow
  split
  · rfl
  · split <;> rfl

theorem get?_rowsIn (memory : Memory) (mailbox : MailboxId) (key : EntryKey) :
    (memory.rowsIn mailbox).get? key = (memory.rowsOf key).get? mailbox := by
  apply Option.ext
  intro rights
  rw [rowsIn, SortedMap.get?_ofList_filterMap]
  · constructor
    · intro listed
      rcases listed with ⟨⟨identity, places⟩, member, kept⟩
      rcases Option.map_eq_some_iff.mp kept with ⟨held, found, same⟩
      cases same
      rw [rowsOf_eq (SortedMap.get?_eq_some_iff.mpr member)]
      exact found
    · intro found
      cases held : memory.rights.get? key with
      | none =>
          rw [rowsOf, held] at found
          cases found
      | some places =>
          rw [rowsOf_eq held] at found
          exact ⟨(key, places), SortedMap.get?_eq_some_iff.mp held, by simp [found]⟩
  · apply memory.rights.distinct.imp
    intro a b apart x kept y kept' same
    rcases Option.map_eq_some_iff.mp kept with ⟨held, -, rfl⟩
    rcases Option.map_eq_some_iff.mp kept' with ⟨held', -, rfl⟩
    exact apart same

def viewOf (memory : Memory) (mailbox : MailboxId) : View :=
  ⟨memory.records.get? mailbox, memory.rowsIn mailbox⟩

theorem record_putRecord (memory : Memory) (mailbox place : MailboxId) (record : Record) :
    ((memory.putRecord place record).viewOf mailbox).record =
      if place = mailbox then some record else (memory.viewOf mailbox).record := by
  simp only [viewOf, putRecord, SortedMap.get?_insert, Std.LawfulEqCmp.compare_eq_iff_eq,
    eq_comm (a := mailbox)]

theorem execute_allows (memory : Memory) (mailbox : MailboxId) (request : Request) :
    (memory.viewOf mailbox).Allows mailbox request (memory.execute request).1 := by
  cases request with
  | read place =>
      intro here
      subst here
      rfl
  | insert place acl =>
      intro here
      subst here
      simp only [execute, viewOf]
      split
      · next found =>
          simp only [found]
          rfl
      · next found =>
          simp only [found]
          rfl
  | swap place acl new expected =>
      intro here
      subst here
      simp only [execute, viewOf]
      split
      · next record found =>
          by_cases same : record.version = expected
          · simp only [found, same, if_true, Option.map_some, decide_true]
            rfl
          · simp only [found, same, if_false, Option.map_some, Option.some.injEq, decide_false]
            rfl
      · next found =>
          simp only [found]
          rfl
  | retrieve key place =>
      intro here
      subst here
      simp only [execute, viewOf, get?_rowsIn, rowsOf]
      cases memory.rights.get? key <;> rfl
  | listMailbox place =>
      intro here
      subst here
      rfl
  | _ => trivial

theorem rowsIn_execute (memory : Memory) (mailbox : MailboxId) (request : Request) :
    (memory.execute request).2.rowsIn mailbox = View.rowsAfter mailbox (memory.rowsIn mailbox) request := by
  apply SortedMap.ext_get?
  intro key
  rw [View.get?_rowsAfter, get?_rowsIn, get?_rowsIn]
  cases request with
  | upsert identity place rights =>
      simp only [execute, rowsOf_putRow, Request.row?]
      by_cases same : key = identity
      · by_cases here : place = mailbox
        · simp [same, here, SortedMap.get?_insert]
        · simp [same, here, Ne.symm here, SortedMap.get?_insert, Std.LawfulEqCmp.compare_eq_iff_eq]
      · simp [same, Ne.symm same]
  | delete identity place =>
      simp only [execute, rowsOf_dropRow, Request.row?]
      by_cases same : key = identity
      · by_cases here : place = mailbox
        · simp [same, here, SortedMap.get?_erase]
        · simp [same, here, Ne.symm here, SortedMap.get?_erase, Std.LawfulEqCmp.compare_eq_iff_eq]
      · simp [same, Ne.symm same]
  | insert place acl =>
      simp only [execute]
      split <;> rfl
  | swap place acl new expected =>
      simp only [execute]
      split
      · split <;> rfl
      · rfl
  | _ => rfl

theorem viewOf_execute (memory : Memory) (mailbox : MailboxId) (request : Request) :
    (memory.execute request).2.viewOf mailbox =
      (memory.viewOf mailbox).after mailbox request (memory.execute request).1 := by
  have rows := memory.rowsIn_execute mailbox request
  have record : ((memory.execute request).2.viewOf mailbox).record =
      (request.stored? mailbox (memory.execute request).1).or (memory.records.get? mailbox) := by
    cases request with
    | insert place acl =>
        simp only [execute]
        split
        · by_cases here : place = mailbox <;> simp [Request.stored?, here, viewOf]
        · rw [record_putRecord]
          by_cases here : place = mailbox <;> simp [Request.stored?, here, viewOf]
    | swap place acl new expected =>
        simp only [execute]
        split
        · split
          · rw [record_putRecord]
            by_cases here : place = mailbox <;> simp [Request.stored?, here, viewOf]
          · by_cases here : place = mailbox <;> simp [Request.stored?, here, viewOf]
        · by_cases here : place = mailbox <;> simp [Request.stored?, here, viewOf]
    | overwrite place acl =>
        simp only [execute, record_putRecord]
        by_cases here : place = mailbox <;> simp [Request.stored?, here, viewOf]
    | delete identity place => simp only [execute, viewOf, records_dropRow, Request.stored?, Option.none_or]
    | _ => rfl
  simp only [viewOf, View.after] at record ⊢
  rw [record, rows]

end Memory

end MailboxAccess
