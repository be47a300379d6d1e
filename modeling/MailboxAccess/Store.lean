import MailboxAccess.Store.Memory
import MailboxAccess.Store.Schema

namespace MailboxAccess

inductive Store where
  | memory (memory : Memory)
  | database (db : Database)

namespace Store

def execute (store : Store) (request : Request) : Except StoreError (request.Reply × Store) :=
  match store with
  | memory m =>
    let (reply, next) := m.execute request
    .ok (reply, memory next)
  | database db => do
    let (reply, next) ← db.execute request
    return (reply, database next)

def inMemory : Store := memory Memory.empty

def openDatabase (db : Database) : Except StoreError Store :=
  match db.migrate with
  | (.ok (), opened) => .ok (database opened)
  | (.error e, _) => .error e

def onDatabase (recorded : Option (List Int)) : Except StoreError Store :=
  match recorded with
  | none => openDatabase Database.empty
  | some versions => do openDatabase (← Database.withVersions versions)

def look (store : Store) (request : Request) : Except StoreError request.Reply :=
  (store.execute request).map Prod.fst

end Store

end MailboxAccess
