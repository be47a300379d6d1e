import MailboxAccess.Store.Connection

/-!
Opening a database: the schema versions that it lacks are applied and recorded, all of them or none.
-/
namespace MailboxAccess.Database

def supportedVersion : Nat := 1

def prepareVersions (db : Database) : Except StoreError (Unit × Database) :=
  .ok ((), { db with versions := some (db.versions.getD []) })

def createRecords (db : Database) : Except StoreError (Unit × Database) :=
  match db.records with
  | none => .ok ((), { db with records := some SortedMap.empty })
  | some _ => .error .database

def createRights (db : Database) : Except StoreError (Unit × Database) :=
  match db.rights with
  | none => .ok ((), { db with rights := some InsertionMap.empty })
  | some _ => .error .database

def indexRights (db : Database) : Except StoreError (Unit × Database) := do
  let _ ← table db.rights
  return ((), db)

def applyVersion : Nat → Script Unit
  | 1 => do
    Script.statement createRecords
    Script.statement createRights
    Script.statement indexRights
  | version => throw (.migration ("unknown migration version: " ++ toString version))

def recordVersion (db : Database) (version : Int) : Except StoreError Database := do
  let versions ← table db.versions
  if version ∈ versions then .error .database
  else return { db with versions := some (versions ++ [version]) }

def ensureVersion (db : Database) (version : Int) : Except StoreError Database := do
  let versions ← table db.versions
  if version ∈ versions then return db
  else return { db with versions := some (versions ++ [version]) }

def withVersions (versions : List Int) : Except StoreError Database :=
  versions.foldlM recordVersion { empty with versions := some [] }

def applyAll : List Nat → Script Unit
  | [] => return ()
  | version :: later => do
    applyVersion version
    Script.statement fun db => do return ((), ← db.recordVersion version)
    applyAll later

/-- The greatest version on record, or zero. It must be a number of 32 bits. -/
def currentVersion (db : Database) : Except StoreError Nat := do
  let current := (← table db.versions).max?.getD 0
  if 0 ≤ current ∧ current < 0x100000000 then return current.toNat else .error .database

def upgrade : Script Unit := do
  let current ← Script.statement fun db => do return (← db.currentVersion, db)
  if supportedVersion < current then
    throw (.migration ("database schema version " ++ toString current ++
      " is newer than supported version " ++ toString supportedVersion))
  else applyAll (List.range' (current + 1) (supportedVersion - current))

/-- The table of versions is created first, and stays even if the rest fails. -/
def migration : Script Unit := do
  Script.statement prepareVersions
  Script.transaction upgrade

/-- Opens a file on a new connection; of what that asks the engine, it may refuse some. -/
def opening (db : Database) (refusals : List Bool) : Except StoreError Unit × Database :=
  let (result, connection) := migration ⟨db, none, refusals⟩
  (result, connection.file)

def migrate (db : Database) : Except StoreError Unit × Database := db.opening []

end MailboxAccess.Database
