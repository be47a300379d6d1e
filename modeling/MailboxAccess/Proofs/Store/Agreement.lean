import MailboxAccess.Proofs.Store.Readable

namespace MailboxAccess

namespace Store

def exchanges : Store → List Request → List Exchange
  | _, [] => []
  | store, request :: requests =>
    let (answer, next) := Store.answer (.store request) store
    ⟨.store request, answer⟩ :: next.exchanges requests

variable {a b : Store}

theorem exchanges_cons {store next : Store} {request : Request} {reply : request.Reply}
    (done : store.execute request = .ok (reply, next)) (requests : List Request) :
    store.exchanges (request :: requests) = ⟨.store request, .ok reply⟩ :: next.exchanges requests := by
  simp only [exchanges, Store.answer, done]

theorem execute_alike {request : Request} {reply reply' : request.Reply} {next next' : Store}
    (alike : ∀ mailbox, a.viewOf mailbox = b.viewOf mailbox) (done : a.execute request = .ok (reply, next))
    (done' : b.execute request = .ok (reply', next')) :
    reply = reply' ∧ ∀ mailbox, next.viewOf mailbox = next'.viewOf mailbox := by
  have same : reply = reply' := by
    cases about : request.mailbox? with
    | some mailbox =>
        have first : (a.viewOf mailbox).Allows mailbox request reply := (execute_view done).1
        rw [alike mailbox] at first
        exact View.allows_unique about first (execute_view done').1
    | none =>
        cases request with
        | listIdentity key =>
            apply SortedMap.ext_get?
            intro mailbox
            rw [listIdentity_eq done mailbox, listIdentity_eq done' mailbox, alike mailbox]
        | _ => cases about
  refine ⟨same, ?_⟩
  intro mailbox
  rw [(execute_view done).2, (execute_view done').2, alike mailbox, same]

theorem exchanges_alike {requests : List Request} (readable : a.Readable) (readable' : b.Readable)
    (alike : ∀ mailbox, a.viewOf mailbox = b.viewOf mailbox) (storable : ∀ request ∈ requests, request.Storable) :
    a.exchanges requests = b.exchanges requests := by
  induction requests generalizing a b with
  | nil => rfl
  | cons request requests ih =>
      have first := storable request List.mem_cons_self
      rcases readable.execute first with ⟨reply, next, done, kept⟩
      rcases readable'.execute first with ⟨reply', next', done', kept'⟩
      have answered := execute_alike alike done done'
      rw [exchanges_cons done, exchanges_cons done', answered.1,
        ih kept kept' answered.2 fun other later => storable other (List.mem_cons_of_mem _ later)]

theorem exchanges_succeed {requests : List Request} (readable : a.Readable)
    (storable : ∀ request ∈ requests, request.Storable) : ∀ x ∈ a.exchanges requests, ¬ x.Failed := by
  induction requests generalizing a with
  | nil => exact nofun
  | cons request requests ih =>
      rcases readable.execute (storable request List.mem_cons_self) with ⟨reply, next, done, kept⟩
      rw [exchanges_cons done]
      intro x member
      rcases List.mem_cons.mp member with rfl | later
      · exact id
      · exact ih kept (fun other among => storable other (List.mem_cons_of_mem _ among)) x later

end Store

/-- A new database and an empty store in memory cannot be told apart by their answers, none of which is an error. -/
theorem backends_agree {requests : List Request} (storable : ∀ request ∈ requests, request.Storable) :
    ∃ opened, Store.onDatabase none = .ok opened ∧
      opened.exchanges requests = Store.inMemory.exchanges requests ∧
      ∀ x ∈ Store.inMemory.exchanges requests, ¬ x.Failed := by
  have onDatabase : (Store.database Database.fresh).Fresh := .inr Store.onDatabase_none
  have inMemory : Store.inMemory.Fresh := .inl rfl
  have alike (mailbox : MailboxId) :
      (Store.database Database.fresh).viewOf mailbox = Store.inMemory.viewOf mailbox := by
    rw [onDatabase.viewOf_eq, inMemory.viewOf_eq]
  exact ⟨_, Store.onDatabase_none,
    Store.exchanges_alike onDatabase.readable inMemory.readable alike storable,
    Store.exchanges_succeed inMemory.readable storable⟩

def markedKey : EntryKey := ⟨"-$owner", .group, true, by decide⟩

/-- Each kind of request, on a mailbox whose record has the greatest version that can be stored. -/
def oddRequests : List Request :=
  let mailbox : MailboxId := ⟨List.replicate 16 255, rfl⟩
  [.insert mailbox [0x7b], .swap mailbox [] 0x7fffffffffffffff 0, .swap mailbox [0x7d] 1 0, .read mailbox,
    .upsert markedKey mailbox .empty, .upsert .anyone mailbox .full, .retrieve markedKey mailbox,
    .delete .anyone mailbox, .listIdentity .anyone, .listIdentity markedKey, .listMailbox mailbox,
    .overwrite mailbox [0x7b]]

theorem backends_agree_of_odd_requests :
    (∀ request ∈ oddRequests, request.Storable) ∧
      ∃ opened, Store.onDatabase none = .ok opened ∧
        opened.exchanges oddRequests = Store.inMemory.exchanges oddRequests ∧
        ∀ x ∈ Store.inMemory.exchanges oddRequests, ¬ x.Failed := by
  have storable : ∀ request ∈ oddRequests, request.Storable := by simp [oddRequests, Request.Storable]
  exact ⟨storable, backends_agree storable⟩

end MailboxAccess
