import MailboxAccess.Proofs.Store.Rows

namespace MailboxAccess

namespace Database

/-- A record as its table has it; the version is the one that would be read. -/
def recordOf (stored : Bytes × Int64) : Record := ⟨stored.1, stored.2.toUInt64⟩

def viewOf (db : Database) (mailbox : MailboxId) : View where
  record := (db.records.bind fun records => records.get? mailbox).map recordOf
  rows := (db.rights.map fun rows => legibleRows rows mailbox).getD SortedMap.empty

theorem record_viewOf {db : Database} {records : SortedMap MailboxId (Bytes × Int64)}
    (recorded : db.records = some records) (mailbox : MailboxId) :
    (db.viewOf mailbox).record = (records.get? mailbox).map recordOf := by
  rw [viewOf, recorded, Option.bind_some]

theorem rows_viewOf {db : Database} {rows : InsertionMap (String × Bytes) String} (indexed : db.rights = some rows)
    (mailbox : MailboxId) : (db.viewOf mailbox).rows = legibleRows rows mailbox := by
  rw [viewOf, indexed, Option.map_some, Option.getD_some]

theorem table_eq_ok {α : Type} {stored : Option α} {t : α} (found : table stored = .ok t) :
    stored = some t := by
  cases stored with
  | none => cases found
  | some other =>
      cases found
      rfl

theorem ofColumn_toColumn {version : UInt64} {column : Int64} (fits : toColumn version = .ok column) :
    ofColumn column = .ok version := by
  rw [toColumn] at fits
  split at fits
  · next small =>
      cases fits
      have value : version.toInt64.toInt = (version.toNat : Int) := by
        rw [Int64.toInt, UInt64.toBitVec_toInt64]
        apply BitVec.toInt_eq_toNat_of_lt
        rw [versionLimit] at small
        change 2 * version.toNat < 2 ^ 64
        omega
      have positive : ¬ version.toInt64 < 0 := by
        intro negative
        have signs := Int64.lt_iff_toInt_lt.mp negative
        simp only [value, Int64.toInt_zero] at signs
        omega
      rw [ofColumn, if_neg positive, UInt64.toUInt64_toInt64]
  · cases fits

theorem toUInt64_of_read {column : Int64} {version : UInt64} (read : ofColumn column = .ok version) :
    column.toUInt64 = version := by
  rw [ofColumn] at read
  split at read
  · cases read
  · cases read
    rfl

theorem column_iff {column expectedColumn : Int64} {expected : UInt64}
    (fits : toColumn expected = .ok expectedColumn) :
    column = expectedColumn ↔ column.toUInt64 = expected := by
  have value := toUInt64_of_read (ofColumn_toColumn fits)
  constructor
  · intro same
    rw [same, value]
  · intro same
    rw [← value] at same
    simpa using congrArg UInt64.toInt64 same

/-- What a statement that succeeds has answered, and what has become of the tables. -/
inductive Executes (db : Database) : (request : Request) → request.Reply → Database → Prop where
  | read {records : SortedMap MailboxId (Bytes × Int64)} {place : MailboxId} (recorded : db.records = some records) :
      Executes db (.read place) ((records.get? place).map recordOf) db
  | present {records : SortedMap MailboxId (Bytes × Int64)} {place : MailboxId} {acl : Bytes}
      {stored : Bytes × Int64} (recorded : db.records = some records) (found : records.get? place = some stored) :
      Executes db (.insert place acl) false db
  | inserted {records : SortedMap MailboxId (Bytes × Int64)} {place : MailboxId} {acl : Bytes} {column : Int64}
      (recorded : db.records = some records) (missing : records.get? place = none)
      (fits : toColumn Record.firstVersion = .ok column) :
      Executes db (.insert place acl) true { db with records := some (records.insert place (acl, column)) }
  | outdated {records : SortedMap MailboxId (Bytes × Int64)} {place : MailboxId} {acl : Bytes}
      {new expected : UInt64} (recorded : db.records = some records)
      (other : ((records.get? place).map recordOf).map Record.version ≠ some expected) :
      Executes db (.swap place acl new expected) false db
  | swapped {records : SortedMap MailboxId (Bytes × Int64)} {place : MailboxId} {acl : Bytes}
      {new expected : UInt64} {column : Int64} (recorded : db.records = some records)
      (same : ((records.get? place).map recordOf).map Record.version = some expected)
      (fits : toColumn new = .ok column) :
      Executes db (.swap place acl new expected) true
        { db with records := some (records.insert place (acl, column)) }
  | overwritten {records : SortedMap MailboxId (Bytes × Int64)} {place : MailboxId} {acl : Bytes} {column : Int64}
      (recorded : db.records = some records) (fits : toColumn Record.firstVersion = .ok column) :
      Executes db (.overwrite place acl) () { db with records := some (records.insert place (acl, column)) }
  | upserted {rows : InsertionMap (String × Bytes) String} {key : EntryKey} {place : MailboxId} {rights : Rights}
      (indexed : db.rights = some rows) :
      Executes db (.upsert key place rights) ()
        { db with rights := some (rows.insert (key.text, place.bytes) rights.text) }
  | deleted {rows : InsertionMap (String × Bytes) String} {key : EntryKey} {place : MailboxId}
      (indexed : db.rights = some rows) :
      Executes db (.delete key place) () { db with rights := some (rows.erase (key.text, place.bytes)) }
  | retrieved {rows : InsertionMap (String × Bytes) String} {key : EntryKey} {place : MailboxId}
      (indexed : db.rights = some rows) :
      Executes db (.retrieve key place) ((legibleRows rows place).get? key) db
  | listed {rows : InsertionMap (String × Bytes) String} {place : MailboxId} (indexed : db.rights = some rows) :
      Executes db (.listMailbox place) (legibleRows rows place) db
  | identified {rows : InsertionMap (String × Bytes) String} {key : EntryKey} (indexed : db.rights = some rows) :
      Executes db (.listIdentity key) (legiblePlaces rows key) db

section Execute

variable {db next : Database} {mailbox place : MailboxId}

theorem putRecord_eq_ok {acl : Bytes} {column : Int64} {reply : Unit}
    {records : SortedMap MailboxId (Bytes × Int64)} (recorded : db.records = some records)
    (put : db.putRecord place acl column = .ok (reply, next)) :
    next = { db with records := some (records.insert place (acl, column)) } := by
  simp only [putRecord, table, recorded, bind, Except.bind, pure, Except.pure] at put
  cases put
  rfl

theorem executes_read {reply : Option Record} (done : db.execute (.read place) = .ok (reply, next)) :
    db.Executes (.read place) reply next := by
  simp only [execute, bind, Except.bind, pure, Except.pure] at done
  split at done
  · cases done
  · next records found =>
      have reads : db.Executes (.read place) ((records.get? place).map recordOf) db := .read (table_eq_ok found)
      split at done
      · next missing =>
          cases done
          rwa [missing] at reads
      · next acl column stored =>
          split at done
          · cases done
          · next version read =>
              cases done
              rwa [stored, Option.map_some, recordOf, toUInt64_of_read read] at reads

theorem executes_insert {acl : Bytes} {reply : Bool} (done : db.execute (.insert place acl) = .ok (reply, next)) :
    db.Executes (.insert place acl) reply next := by
  simp only [execute, bind, Except.bind, pure, Except.pure] at done
  split at done
  · cases done
  · next column fits =>
      split at done
      · cases done
      · next records found =>
          have recorded := table_eq_ok found
          split at done
          · next stored present =>
              cases done
              exact .present recorded present
          · next missing =>
              split at done
              · cases done
              · next put =>
                  cases done
                  rw [putRecord_eq_ok recorded put]
                  exact .inserted recorded missing fits

theorem executes_swap {acl : Bytes} {new expected : UInt64} {reply : Bool}
    (done : db.execute (.swap place acl new expected) = .ok (reply, next)) :
    db.Executes (.swap place acl new expected) reply next := by
  simp only [execute, bind, Except.bind, pure, Except.pure] at done
  split at done
  · cases done
  · next newColumn newFits =>
      split at done
      · cases done
      · next expectedColumn expectedFits =>
          split at done
          · cases done
          · next records found =>
              have recorded := table_eq_ok found
              split at done
              · next missing =>
                  cases done
                  exact .outdated recorded (by rw [missing]; exact nofun)
              · next bytes column stored =>
                  have version_iff : ((records.get? place).map recordOf).map Record.version = some expected ↔
                      column = expectedColumn := by
                    rw [stored, Option.map_some, Option.map_some, Option.some.injEq, column_iff expectedFits]
                    rfl
                  split at done
                  · next same =>
                      split at done
                      · cases done
                      · next put =>
                          cases done
                          rw [putRecord_eq_ok recorded put]
                          exact .swapped recorded (version_iff.mpr same) newFits
                  · next other =>
                      cases done
                      exact .outdated recorded fun same => other (version_iff.mp same)

theorem executes_overwrite {acl : Bytes} {reply : Unit}
    (done : db.execute (.overwrite place acl) = .ok (reply, next)) :
    db.Executes (.overwrite place acl) reply next := by
  simp only [execute, bind, Except.bind] at done
  split at done
  · cases done
  · next column fits =>
      cases recorded : db.records with
      | none =>
          simp only [putRecord, table, recorded, bind, Except.bind] at done
          cases done
      | some records =>
          rw [putRecord_eq_ok recorded done]
          exact .overwritten recorded fits

theorem executes_retrieve {key : EntryKey} {reply : Option Rights}
    (done : db.execute (.retrieve key place) = .ok (reply, next)) :
    db.Executes (.retrieve key place) reply next := by
  simp only [execute, bind, Except.bind, pure, Except.pure] at done
  split at done
  · cases done
  · next rows found =>
      have retrieves : db.Executes (.retrieve key place) ((legibleRows rows place).get? key) db :=
        .retrieved (table_eq_ok found)
      rw [get?_legibleRows] at retrieves
      split at done
      · next missing =>
          cases done
          rwa [missing] at retrieves
      · next text stored =>
          split at done
          · cases done
          · next rights read =>
              cases done
              have granted : Rights.parse text = .ok rights := by
                rw [readRights] at read
                cases parsed : Rights.parse text with
                | error e =>
                    rw [parsed] at read
                    cases read
                | ok found =>
                    rw [parsed] at read
                    cases read
                    rfl
              rwa [stored, Option.bind_some, granted] at retrieves

theorem executes_listMailbox {reply : SortedMap EntryKey Rights}
    (done : db.execute (.listMailbox place) = .ok (reply, next)) :
    db.Executes (.listMailbox place) reply next := by
  simp only [execute, bind, Except.bind, pure, Except.pure] at done
  split at done
  · cases done
  · next rows found =>
      split at done
      · cases done
      · next read mapped =>
          cases done
          have mapped : (rowsIn rows place.bytes).mapM readRow = .ok read := mapped
          rw [← filterMap_of_mapM mapped]
          exact .listed (table_eq_ok found)

theorem executes_listIdentity {key : EntryKey} {reply : SortedMap MailboxId Rights}
    (done : db.execute (.listIdentity key) = .ok (reply, next)) : db.Executes (.listIdentity key) reply next := by
  simp only [execute, bind, Except.bind, pure, Except.pure] at done
  split at done
  · cases done
  · next rows found =>
      split at done
      · cases done
      · next read mapped =>
          cases done
          have mapped : (rowsOf rows key.text).entries.mapM readPlace = .ok read := mapped
          rw [← filterMap_of_mapM mapped]
          exact .identified (table_eq_ok found)

theorem executes_of_execute {request : Request} {reply : request.Reply}
    (done : db.execute request = .ok (reply, next)) : db.Executes request reply next := by
  cases request with
  | read place => exact executes_read done
  | insert place acl => exact executes_insert done
  | swap place acl new expected => exact executes_swap done
  | overwrite place acl => exact executes_overwrite done
  | upsert key place rights =>
      simp only [execute, bind, Except.bind, pure, Except.pure] at done
      split at done
      · cases done
      · next rows found =>
          cases done
          exact .upserted (table_eq_ok found)
  | delete key place =>
      simp only [execute, bind, Except.bind, pure, Except.pure] at done
      split at done
      · cases done
      · next rows found =>
          cases done
          exact .deleted (table_eq_ok found)
  | retrieve key place => exact executes_retrieve done
  | listIdentity key => exact executes_listIdentity done
  | listMailbox place => exact executes_listMailbox done

end Execute

namespace Executes

variable {db next : Database} {mailbox : MailboxId} {request : Request} {reply : request.Reply}

theorem allows (executes : db.Executes request reply next) : (db.viewOf mailbox).Allows mailbox request reply := by
  cases executes with
  | read recorded =>
      intro here
      rw [record_viewOf recorded, here]
  | present recorded found =>
      intro here
      rw [record_viewOf recorded, ← here, found]
      rfl
  | inserted recorded missing =>
      intro here
      rw [record_viewOf recorded, ← here, missing]
      rfl
  | outdated recorded other =>
      intro here
      rw [record_viewOf recorded, ← here]
      exact (decide_eq_false other).symm
  | swapped recorded same =>
      intro here
      rw [record_viewOf recorded, ← here]
      exact (decide_eq_true same).symm
  | retrieved indexed =>
      intro here
      rw [rows_viewOf indexed, here]
  | listed indexed =>
      intro here
      rw [rows_viewOf indexed, here]
  | _ => trivial

theorem viewOf_put {records : SortedMap MailboxId (Bytes × Int64)} (recorded : db.records = some records)
    {version : UInt64} {column : Int64} (fits : toColumn version = .ok column) (place : MailboxId) (acl : Bytes) :
    viewOf { db with records := some (records.insert place (acl, column)) } mailbox =
      ⟨(if place = mailbox then some ⟨acl, version⟩ else none).or (db.viewOf mailbox).record,
        (db.viewOf mailbox).rows⟩ := by
  have stored : ((records.insert place (acl, column)).get? mailbox).map recordOf =
      (if place = mailbox then some ⟨acl, version⟩ else none).or (db.viewOf mailbox).record := by
    rw [SortedMap.get?_insert, record_viewOf recorded]
    by_cases here : place = mailbox
    · subst here
      rw [if_pos Std.ReflCmp.compare_self, if_pos rfl, Option.map_some, recordOf,
        toUInt64_of_read (ofColumn_toColumn fits), Option.some_or]
    · have other : compare mailbox place ≠ .eq := fun same => here (Std.LawfulEqCmp.eq_of_compare same).symm
      rw [if_neg other, if_neg here, Option.none_or]
  rw [← stored]
  rfl

theorem viewOf_eq (executes : db.Executes request reply next) :
    next.viewOf mailbox = (db.viewOf mailbox).after mailbox request reply := by
  cases executes with
  | inserted recorded missing fits => exact viewOf_put recorded fits _ _
  | swapped recorded same fits => exact viewOf_put recorded fits _ _
  | overwritten recorded fits => exact viewOf_put recorded fits _ _
  | @upserted rows key place rights indexed =>
      have held : (viewOf { db with rights := some (rows.insert (key.text, place.bytes) rights.text) } mailbox).rows =
          View.rowsAfter mailbox (db.viewOf mailbox).rows (.upsert key place rights) := by
        rw [rows_viewOf rfl, rows_viewOf indexed, legibleRows_insert]
      exact congrArg (View.mk (db.viewOf mailbox).record) held
  | @deleted rows key place indexed =>
      have held : (viewOf { db with rights := some (rows.erase (key.text, place.bytes)) } mailbox).rows =
          View.rowsAfter mailbox (db.viewOf mailbox).rows (.delete key place) := by
        rw [rows_viewOf rfl, rows_viewOf indexed, legibleRows_erase]
      exact congrArg (View.mk (db.viewOf mailbox).record) held
  | present => simp [View.after, Request.stored?, View.rowsAfter]
  | outdated => simp [View.after, Request.stored?, View.rowsAfter]
  | _ => rfl

end Executes

def ShowsRecord (db : Database) (mailbox : MailboxId) : Prop :=
  ∃ records, db.records = some records ∧
    ∀ stored, records.get? mailbox = some stored → ∃ version, ofColumn stored.2 = .ok version

def ShowsRows (db : Database) (mailbox : MailboxId) : Prop :=
  ∃ rows, db.rights = some rows ∧
    ∀ identity text, rows.get? (identity, mailbox.bytes) = some text → ∃ entry, readRow (identity, text) = .ok entry

theorem ShowsRecord.put {db : Database} {mailbox place : MailboxId} {records : SortedMap MailboxId (Bytes × Int64)}
    (shows : db.ShowsRecord mailbox) (recorded : db.records = some records) {version : UInt64} {column : Int64}
    (fits : toColumn version = .ok column) (acl : Bytes) :
    ShowsRecord { db with records := some (records.insert place (acl, column)) } mailbox := by
  rcases shows with ⟨others, same, legible⟩
  rw [recorded] at same
  cases same
  refine ⟨_, rfl, ?_⟩
  intro stored found
  rw [SortedMap.get?_insert] at found
  split at found
  · cases found
    exact ⟨version, ofColumn_toColumn fits⟩
  · exact legible stored found

theorem Executes.showsRecord {db next : Database} {mailbox : MailboxId} {request : Request} {reply : request.Reply}
    (executes : db.Executes request reply next) (shows : db.ShowsRecord mailbox) : next.ShowsRecord mailbox := by
  cases executes with
  | inserted recorded missing fits => exact shows.put recorded fits _
  | swapped recorded same fits => exact shows.put recorded fits _
  | overwritten recorded fits => exact shows.put recorded fits _
  | _ => exact shows

theorem Executes.showsRows {db next : Database} {mailbox : MailboxId} {request : Request} {reply : request.Reply}
    (executes : db.Executes request reply next) (shows : db.ShowsRows mailbox) : next.ShowsRows mailbox := by
  rcases shows with ⟨rows, same, legible⟩
  cases executes with
  | @upserted _ key place rights indexed =>
      rw [indexed] at same
      cases same
      refine ⟨_, rfl, ?_⟩
      intro identity text found
      rw [InsertionMap.get?_insert] at found
      split at found
      · next here =>
          cases found
          rw [← (Prod.mk.inj here).1]
          exact ⟨(key, rights), readRow_eq_ok_iff.mpr ⟨key.parse_text, rights.parse_text⟩⟩
      · exact legible identity text found
  | @deleted _ key place indexed =>
      rw [indexed] at same
      cases same
      refine ⟨_, rfl, ?_⟩
      intro identity text found
      rw [InsertionMap.get?_erase] at found
      split at found
      · cases found
      · exact legible identity text found
  | _ => exact ⟨rows, same, legible⟩

theorem showsRecord_of_read {db next : Database} {mailbox : MailboxId} {reply : Option Record}
    (done : db.execute (.read mailbox) = .ok (reply, next)) : db.ShowsRecord mailbox := by
  simp only [execute, bind, Except.bind, pure, Except.pure] at done
  split at done
  · cases done
  · next records found =>
      refine ⟨records, table_eq_ok found, ?_⟩
      intro stored held
      split at done
      · next missing =>
          rw [held] at missing
          cases missing
      · next acl column present =>
          rw [held] at present
          cases present
          split at done
          · cases done
          · next version read => exact ⟨version, read⟩

theorem ShowsRecord.read {db : Database} {mailbox : MailboxId} (shows : db.ShowsRecord mailbox) :
    ∃ reply, db.execute (.read mailbox) = .ok (reply, db) := by
  rcases shows with ⟨records, recorded, legible⟩
  cases stored : records.get? mailbox with
  | none => exact ⟨none, by simp [execute, recorded, table, stored, bind, Except.bind, pure, Except.pure]⟩
  | some held =>
      rcases held with ⟨acl, column⟩
      rcases legible _ stored with ⟨version, read⟩
      exact ⟨some ⟨acl, version⟩,
        by simp [execute, recorded, table, stored, read, bind, Except.bind, pure, Except.pure]⟩

theorem showsRows_of_list {db next : Database} {mailbox : MailboxId} {reply : SortedMap EntryKey Rights}
    (done : db.execute (.listMailbox mailbox) = .ok (reply, next)) : db.ShowsRows mailbox := by
  simp only [execute, bind, Except.bind, pure, Except.pure] at done
  split at done
  · cases done
  · next rows found =>
      split at done
      · cases done
      · next read mapped =>
          have mapped : (rowsIn rows mailbox.bytes).mapM readRow = .ok read := mapped
          refine ⟨rows, table_eq_ok found, ?_⟩
          intro identity text stored
          have member := List.mem_map_of_mem (f := readRow) (mem_rowsIn_iff.mpr stored)
          rw [map_of_mapM mapped] at member
          rcases List.mem_map.mp member with ⟨entry, -, same⟩
          exact ⟨entry, same.symm⟩

theorem ShowsRows.list {db : Database} {mailbox : MailboxId} (shows : db.ShowsRows mailbox) :
    ∃ reply, db.execute (.listMailbox mailbox) = .ok (reply, db) := by
  rcases shows with ⟨rows, indexed, legible⟩
  have each : ∀ row ∈ rowsIn rows mailbox.bytes, ∃ entry, readRow row = .ok entry := by
    intro row member
    rcases row with ⟨identity, text⟩
    exact legible identity text (mem_rowsIn_iff.mp member)
  rcases exists_mapM_eq_ok each with ⟨read, mapped⟩
  refine ⟨SortedMap.ofList read, ?_⟩
  simp only [execute, indexed, table]
  change (do
    let read ← (rowsIn rows mailbox.bytes).mapM readRow
    pure (SortedMap.ofList read, db)) = _
  rw [mapped]
  rfl

end Database

end MailboxAccess
