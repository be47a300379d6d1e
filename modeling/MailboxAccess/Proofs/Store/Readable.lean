import MailboxAccess.Proofs.Store

namespace MailboxAccess

namespace Request

def Storable : Request → Prop
  | swap _ _ new expected => new.toNat < 2 ^ 63 ∧ expected.toNat < 2 ^ 63
  | _ => True

end Request

namespace Database

def Placed (db : Database) : Prop :=
  ∀ rows, db.rights = some rows →
    ∀ identity bytes text, rows.get? (identity, bytes) = some text → bytes.length = 16

/-- All that the tables hold can be read back. -/
structure Readable (db : Database) : Prop where
  record : ∀ mailbox, db.ShowsRecord mailbox
  rows : ∀ mailbox, db.ShowsRows mailbox
  placed : db.Placed

theorem toColumn_eq_ok {version : UInt64} (small : version.toNat < 2 ^ 63) :
    toColumn version = .ok version.toInt64 := by
  have fits : version.toNat < versionLimit := by
    rw [versionLimit]
    omega
  rw [toColumn, if_pos fits]

variable {db next : Database} {request : Request} {reply : request.Reply}

theorem Executes.placed (executes : db.Executes request reply next) (placed : db.Placed) : next.Placed := by
  intro rows indexed identity bytes text found
  cases executes with
  | @upserted before key place rights held =>
      cases indexed
      rw [InsertionMap.get?_insert] at found
      split at found
      · next here =>
          rw [← (Prod.mk.inj here).2]
          exact place.sixteen
      · exact placed before held identity bytes text found
  | @deleted before key place held =>
      cases indexed
      rw [InsertionMap.get?_erase] at found
      split at found
      · cases found
      · exact placed before held identity bytes text found
  | _ => exact placed rows indexed identity bytes text found

theorem Executes.readable (executes : db.Executes request reply next) (readable : db.Readable) :
    next.Readable where
  record mailbox := executes.showsRecord (readable.record mailbox)
  rows mailbox := executes.showsRows (readable.rows mailbox)
  placed := executes.placed readable.placed

theorem Readable.list (readable : db.Readable) (key : EntryKey) :
    ∃ reply, db.execute (.listIdentity key) = .ok (reply, db) := by
  have indexed : ∃ rows, db.rights = some rows := by
    rcases readable.rows ⟨List.replicate 16 0, rfl⟩ with ⟨rows, indexed, -⟩
    exact ⟨rows, indexed⟩
  rcases indexed with ⟨rows, indexed⟩
  have each : ∀ row ∈ (rowsOf rows key.text).entries, ∃ entry, readPlace row = .ok entry := by
    intro row member
    rcases row with ⟨bytes, text⟩
    have found : rows.get? (key.text, bytes) = some text := by
      rw [← get?_rowsOf, SortedMap.get?_eq_some_iff]
      exact member
    have sixteen := readable.placed rows indexed _ _ _ found
    rcases readable.rows ⟨bytes, sixteen⟩ with ⟨others, same, legible⟩
    rw [indexed] at same
    cases same
    rcases legible _ _ found with ⟨⟨owner, rights⟩, read⟩
    exact ⟨(⟨bytes, sixteen⟩, rights), readPlace_eq_ok_iff.mpr ⟨rfl, (readRow_eq_ok_iff.mp read).2⟩⟩
  rcases exists_mapM_eq_ok each with ⟨read, mapped⟩
  refine ⟨SortedMap.ofList read, ?_⟩
  simp only [execute, indexed, table]
  change (do
    let read ← (rowsOf rows key.text).entries.mapM readPlace
    pure (SortedMap.ofList read, db)) = _
  rw [mapped]
  rfl

theorem Readable.retrieve (readable : db.Readable) (key : EntryKey) (mailbox : MailboxId) :
    ∃ reply, db.execute (.retrieve key mailbox) = .ok (reply, db) := by
  rcases readable.rows mailbox with ⟨rows, indexed, legible⟩
  cases found : rows.get? (key.text, mailbox.bytes) with
  | none => exact ⟨none, by simp [execute, indexed, table, found, bind, Except.bind, pure, Except.pure]⟩
  | some text =>
      rcases legible _ _ found with ⟨⟨owner, rights⟩, read⟩
      have granted := (readRow_eq_ok_iff.mp read).2
      exact ⟨some rights, by
        simp [execute, indexed, table, found, readRights, granted, readCell, bind, Except.bind, pure, Except.pure]⟩

theorem Readable.execute (readable : db.Readable) (storable : request.Storable) :
    ∃ answered, db.execute request = .ok answered := by
  have first : toColumn Record.firstVersion = .ok Record.firstVersion.toInt64 := toColumn_eq_ok (by decide)
  cases request with
  | read mailbox =>
      rcases (readable.record mailbox).read with ⟨reply, done⟩
      exact ⟨_, done⟩
  | insert mailbox acl =>
      rcases readable.record mailbox with ⟨records, recorded, -⟩
      cases found : records.get? mailbox <;>
        simp [Database.execute, first, recorded, table, found, putRecord, bind, Except.bind, pure, Except.pure]
  | swap mailbox acl new expected =>
      rcases readable.record mailbox with ⟨records, recorded, -⟩
      have newFits := toColumn_eq_ok storable.1
      have expectedFits := toColumn_eq_ok storable.2
      cases found : records.get? mailbox with
      | none =>
          simp [Database.execute, newFits, expectedFits, recorded, table, found, bind, Except.bind, pure, Except.pure]
      | some stored =>
          by_cases same : stored.2 = expected.toInt64 <;>
            simp [Database.execute, newFits, expectedFits, recorded, table, found, same, putRecord, bind,
              Except.bind, pure, Except.pure]
  | overwrite mailbox acl =>
      rcases readable.record mailbox with ⟨records, recorded, -⟩
      simp only [Database.execute, first, recorded, table, putRecord, bind, Except.bind, pure, Except.pure]
      exact ⟨_, rfl⟩
  | upsert key mailbox rights =>
      rcases readable.rows mailbox with ⟨rows, indexed, -⟩
      simp [Database.execute, indexed, table, bind, Except.bind, pure, Except.pure]
  | delete key mailbox =>
      rcases readable.rows mailbox with ⟨rows, indexed, -⟩
      simp [Database.execute, indexed, table, bind, Except.bind, pure, Except.pure]
  | retrieve key mailbox =>
      rcases readable.retrieve key mailbox with ⟨reply, done⟩
      exact ⟨_, done⟩
  | listMailbox mailbox =>
      rcases (readable.rows mailbox).list with ⟨reply, done⟩
      exact ⟨_, done⟩
  | listIdentity key =>
      rcases readable.list key with ⟨reply, done⟩
      exact ⟨_, done⟩

def fresh : Database := ⟨some [1], some SortedMap.empty, some InsertionMap.empty⟩

theorem readable_fresh : fresh.Readable where
  record _ := ⟨SortedMap.empty, rfl, nofun⟩
  rows _ := ⟨InsertionMap.empty, rfl, nofun⟩
  placed rows indexed := by
    cases indexed
    exact nofun

end Database

def View.blank : View := ⟨none, SortedMap.empty⟩

namespace Store

/-- All that the store holds can be read back. -/
def Readable : Store → Prop
  | memory _ => True
  | database db => db.Readable

variable {store next : Store} {mailbox : MailboxId} {request : Request} {reply : request.Reply}

theorem Readable.execute (readable : store.Readable) (storable : request.Storable) :
    ∃ reply next, store.execute request = .ok (reply, next) ∧ next.Readable := by
  cases store with
  | memory memory => exact ⟨_, _, rfl, trivial⟩
  | database db =>
      rcases Database.Readable.execute readable storable with ⟨⟨reply, tables⟩, done⟩
      have kept := (Database.executes_of_execute done).readable readable
      exact ⟨reply, database tables, by simp [Store.execute, done, bind, Except.bind, pure, Except.pure], kept⟩

theorem listIdentity_eq {key : EntryKey} {found : SortedMap MailboxId Rights}
    (done : store.execute (.listIdentity key) = .ok (found, next)) (mailbox : MailboxId) :
    found.get? mailbox = (store.viewOf mailbox).rows.get? key := by
  cases store with
  | memory memory =>
      rw [(execute_memory done).1]
      exact (memory.get?_rowsIn mailbox key).symm
  | database db =>
      rcases execute_database done with ⟨tables, -, executed⟩
      cases Database.executes_of_execute executed with
      | identified indexed =>
          rw [Database.get?_legiblePlaces, viewOf, Database.rows_viewOf indexed]

def Fresh (store : Store) : Prop := store = inMemory ∨ onDatabase none = .ok store

theorem onDatabase_none : onDatabase none = .ok (database Database.fresh) := rfl

theorem Fresh.readable (fresh : store.Fresh) : store.Readable := by
  rcases fresh with rfl | opened
  · trivial
  · rw [onDatabase_none] at opened
    cases opened
    exact Database.readable_fresh

theorem Fresh.viewOf_eq (fresh : store.Fresh) (mailbox : MailboxId) : store.viewOf mailbox = View.blank := by
  rcases fresh with rfl | opened
  · rfl
  · rw [onDatabase_none] at opened
    cases opened
    rfl

end Store

end MailboxAccess
