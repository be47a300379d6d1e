import MailboxAccess.Proofs.Store.Elsewhere
import MailboxAccess.Proofs.Store.Readable

namespace MailboxAccess

namespace Database

theorem lt_of_toColumn {version : UInt64} {column : Int64} (fits : toColumn version = .ok column) :
    version.toNat < versionLimit := by
  rw [toColumn] at fits
  split at fits
  · next small => exact small
  · cases fits

end Database

def StoreError.outOfRange (version : Nat) : StoreError :=
  .invalidData ("version " ++ toString version ++ " out of range")

namespace Store

/-- The first number that is not a version of any record in the store. -/
def limit : Store → Nat
  | memory _ => 2 ^ 64
  | database _ => Database.versionLimit

variable {store next : Store} {place : MailboxId} {request : Request} {reply : request.Reply} {acl : Bytes}
  {new expected : UInt64}

theorem limit_le (store : Store) : store.limit ≤ 2 ^ 64 := by
  cases store with
  | memory memory => exact Nat.le_refl _
  | database db => exact (by decide : Database.versionLimit ≤ 2 ^ 64)

theorem limit_execute (done : store.execute request = .ok (reply, next)) : next.limit = store.limit := by
  cases store with
  | memory memory =>
      rcases execute_memory done with ⟨-, rfl⟩
      rfl
  | database db =>
      rcases execute_database done with ⟨tables, rfl, -⟩
      rfl

theorem fits_of_swap {reply : Bool} (done : store.execute (.swap place acl new expected) = .ok (reply, next)) :
    new.toNat < store.limit ∧ expected.toNat < store.limit := by
  cases store with
  | memory memory => exact ⟨new.toNat_lt, expected.toNat_lt⟩
  | database db =>
      rcases execute_database done with ⟨tables, -, executed⟩
      simp only [Database.execute, bind, Except.bind] at executed
      split at executed
      · cases executed
      · next newFits =>
          split at executed
          · cases executed
          · next expectedFits =>
              exact ⟨Database.lt_of_toColumn newFits, Database.lt_of_toColumn expectedFits⟩

/-- A version that is too large is refused, whatever the tables hold. -/
theorem swap_out_of_range (large : store.limit ≤ new.toNat) :
    store.execute (.swap place acl new expected) = .error (.outOfRange new.toNat) := by
  cases store with
  | memory memory => exact absurd new.toNat_lt (Nat.not_lt.mpr large)
  | database db =>
      have refused : Database.toColumn new = .error (.outOfRange new.toNat) := if_neg (Nat.not_lt.mpr large)
      simp only [execute, Database.execute, refused, bind, Except.bind]

theorem records_of_read {db : Database} {seen : Option Record}
    (shown : (Store.database db).look (.read place) = .ok seen) : ∃ records, db.records = some records := by
  rcases execute_of_look shown with ⟨next, done⟩
  rcases execute_database done with ⟨tables, -, executed⟩
  cases found : db.records with
  | some records => exact ⟨records, rfl⟩
  | none =>
      simp only [Database.execute, found, Database.table, bind, Except.bind] at executed
      cases executed

theorem execute_insert {seen : Option Record} (shown : store.look (.read place) = .ok seen) :
    ∃ created next, store.execute (.insert place acl) = .ok (created, next) := by
  cases store with
  | memory memory => exact ⟨_, _, rfl⟩
  | database db =>
      rcases records_of_read shown with ⟨records, recorded⟩
      have fits : Database.toColumn Record.firstVersion = .ok Record.firstVersion.toInt64 := if_pos (by decide)
      simp only [execute, Database.execute, fits, recorded, Database.table, Database.putRecord, bind, Except.bind, pure,
        Except.pure]
      cases records.get? place with
      | none => exact ⟨_, _, rfl⟩
      | some held => exact ⟨_, _, rfl⟩

theorem execute_swap {seen : Option Record} (shown : store.look (.read place) = .ok seen)
    (small : new.toNat < store.limit) (known : expected.toNat < store.limit) :
    ∃ swapped next, store.execute (.swap place acl new expected) = .ok (swapped, next) := by
  cases store with
  | memory memory => exact ⟨_, _, rfl⟩
  | database db =>
      rcases records_of_read shown with ⟨records, recorded⟩
      have newFits : Database.toColumn new = .ok new.toInt64 := if_pos small
      have expectedFits : Database.toColumn expected = .ok expected.toInt64 := if_pos known
      simp only [execute, Database.execute, newFits, expectedFits, recorded, Database.table, Database.putRecord, bind,
        Except.bind, pure, Except.pure]
      cases records.get? place with
      | none => exact ⟨_, _, rfl⟩
      | some held =>
          by_cases same : held.2 = expected.toInt64
          · simp only [if_pos same]
            exact ⟨_, _, rfl⟩
          · simp only [if_neg same]
            exact ⟨_, _, rfl⟩

theorem stored_lt_limit {mailbox : MailboxId} {record : Record} (done : store.execute request = .ok (reply, next))
    (stored : request.stored? mailbox reply = some record) : record.version.toNat < store.limit := by
  have first : Record.firstVersion.toNat < store.limit := by
    cases store with
    | memory memory => exact (by decide : Record.firstVersion.toNat < 2 ^ 64)
    | database db => exact (by decide : Record.firstVersion.toNat < Database.versionLimit)
  cases request with
  | insert other bytes =>
      simp only [Request.stored?, Option.ite_none_right_eq_some] at stored
      cases reply with
      | false => cases stored.2
      | true =>
          cases stored.2
          exact first
  | swap other bytes new expected =>
      simp only [Request.stored?, Option.ite_none_right_eq_some] at stored
      cases reply with
      | false => cases stored.2
      | true =>
          cases stored.2
          exact (fits_of_swap done).1
  | overwrite other bytes =>
      simp only [Request.stored?, Option.ite_none_right_eq_some] at stored
      cases stored.2
      exact first
  | _ => cases stored

end Store

end MailboxAccess
