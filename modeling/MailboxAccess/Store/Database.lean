import MailboxAccess.InsertionMap
import MailboxAccess.Rights.Parser
import MailboxAccess.Store.Error
import MailboxAccess.Store.Request

/-!
A relational store. Keys and rights are text in its tables and are read back when a row is used, versions
are stored as signed numbers of 64 bits, and a table that was never created makes every statement on it
fail. A statement that fails changes nothing.
-/
namespace MailboxAccess

structure Database where
  versions : Option (List Int)
  records : Option (SortedMap MailboxId (Bytes × Int64))
  /-- Rights by identity and mailbox, in the order in which the rows came. -/
  rights : Option (InsertionMap (String × Bytes) String)

namespace Database

def empty : Database := ⟨none, none, none⟩

/-- The first number that does not fit a version column. -/
def versionLimit : Nat := 0x8000000000000000

def toColumn (version : UInt64) : Except StoreError Int64 :=
  if version.toNat < versionLimit then .ok version.toInt64
  else .error (.invalidData ("version " ++ toString version.toNat ++ " out of range"))

def ofColumn (version : Int64) : Except StoreError UInt64 :=
  if version < 0 then .error (.invalidData ("negative version " ++ toString version))
  else .ok version.toUInt64

def readCell {α : Type} : Except FormatError α → Except StoreError α
  | .ok a => .ok a
  | .error e => .error (.invalidData e.message)

def readIdentity (text : String) : Except StoreError EntryKey := readCell (EntryKey.parse text)

def readRights (text : String) : Except StoreError Rights := readCell (Rights.parse text)

def readMailbox (bytes : Bytes) : Except StoreError MailboxId :=
  match MailboxId.ofBytes? bytes with
  | some mailbox => .ok mailbox
  | none => .error (.invalidData ("mailbox id of " ++ toString bytes.length ++ " bytes"))

def table {α : Type} : Option α → Except StoreError α
  | some t => .ok t
  | none => .error .database

def putRecord (db : Database) (mailbox : MailboxId) (acl : Bytes) (version : Int64) :
    Except StoreError (Unit × Database) := do
  let records ← table db.records
  return ((), { db with records := some (records.insert mailbox (acl, version)) })

def dropRecord (db : Database) (mailbox : MailboxId) : Except StoreError (Nat × Database) := do
  let records ← table db.records
  match records.get? mailbox with
  | none => return (0, db)
  | some _ => return (1, { db with records := some (records.erase mailbox) })

/-- Any texts and any bytes; a row with the same identity and mailbox makes way. -/
def putRow (db : Database) (identity : String) (mailbox : Bytes) (rights : String) :
    Except StoreError (Unit × Database) := do
  let rows ← table db.rights
  return ((), { db with rights := some ((rows.erase (identity, mailbox)).insert (identity, mailbox) rights) })

def rowsOf (rows : InsertionMap (String × Bytes) String) (identity : String) : SortedMap Bytes String :=
  SortedMap.ofList (rows.entries.filterMap fun ((owner, mailbox), rights) =>
    if owner = identity then some (mailbox, rights) else none)

def rowsIn (rows : InsertionMap (String × Bytes) String) (mailbox : Bytes) : List (String × String) :=
  rows.entries.filterMap fun ((identity, place), rights) =>
    if place = mailbox then some (identity, rights) else none

def execute (db : Database) : (request : Request) → Except StoreError (request.Reply × Database)
  | .read mailbox => do
    match (← table db.records).get? mailbox with
    | none => return (none, db)
    | some (acl, version) => return (some ⟨acl, ← ofColumn version⟩, db)
  | .insert mailbox acl => do
    let version ← toColumn Record.firstVersion
    match (← table db.records).get? mailbox with
    | some _ => return (false, db)
    | none => do
      let ((), next) ← db.putRecord mailbox acl version
      return (true, next)
  | .swap mailbox acl new expected => do
    let new ← toColumn new
    let expected ← toColumn expected
    match (← table db.records).get? mailbox with
    | none => return (false, db)
    | some (_, version) =>
      if version = expected then do
        let ((), next) ← db.putRecord mailbox acl new
        return (true, next)
      else return (false, db)
  | .overwrite mailbox acl => do db.putRecord mailbox acl (← toColumn Record.firstVersion)
  | .upsert identity mailbox rights => do
    let rows ← table db.rights
    return ((), { db with rights := some (rows.insert (identity.text, mailbox.bytes) rights.text) })
  | .delete identity mailbox => do
    let rows ← table db.rights
    return ((), { db with rights := some (rows.erase (identity.text, mailbox.bytes)) })
  | .retrieve identity mailbox => do
    match (← table db.rights).get? (identity.text, mailbox.bytes) with
    | none => return (none, db)
    | some text => return (some (← readRights text), db)
  | .listIdentity identity => do
    let rows := rowsOf (← table db.rights) identity.text
    let read ← rows.entries.mapM fun (mailbox, rights) => do
      return (← readMailbox mailbox, ← readRights rights)
    return (SortedMap.ofList read, db)
  | .listMailbox mailbox => do
    let rows := rowsIn (← table db.rights) mailbox.bytes
    let read ← rows.mapM fun (identity, rights) => do
      return (← readIdentity identity, ← readRights rights)
    return (SortedMap.ofList read, db)

end Database

end MailboxAccess
