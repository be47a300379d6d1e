import MailboxAccess.Store.Database

/-!
A connection to a database file. Statements within a transaction work on a draft, which takes the place of the file if
the transaction is committed and is dropped if anything in it fails.
-/
namespace MailboxAccess

structure Connection where
  file : Database
  /-- What an open transaction has made of the file. -/
  draft : Option Database
  /-- Whether the engine refuses what it is asked next, and so on, for reasons of its own; beyond these it does not. -/
  refusals : List Bool

abbrev Script := ExceptT StoreError (StateM Connection)

namespace Script

variable {α : Type}

/-- What the engine refuses or cannot do changes nothing. -/
def attempt (act : Connection → Except StoreError (α × Connection)) : Script α := fun c =>
  let waiting := { c with refusals := c.refusals.tail }
  if c.refusals.head? = some true then (.error .database, waiting)
  else
    match act waiting with
    | .ok (a, next) => (.ok a, next)
    | .error e => (.error e, waiting)

/-- Outside of a transaction a statement works on the file. -/
def statement (act : Database → Except StoreError (α × Database)) : Script α :=
  attempt fun c => do
    match c.draft with
    | none => do
      let (a, file) ← act c.file
      return (a, { c with file := file })
    | some draft => do
      let (a, draft) ← act draft
      return (a, { c with draft := some draft })

def start : Script Unit :=
  attempt fun c =>
    match c.draft with
    | none => .ok ((), { c with draft := some c.file })
    | some _ => .error .database

def commit : Script Unit :=
  attempt fun c =>
    match c.draft with
    | none => .error .database
    | some draft => .ok ((), { c with file := draft, draft := none })

def rollback : Script Unit := modify fun c => { c with draft := none }

def transaction (body : Script α) : Script α := do
  start
  tryCatch (do let a ← body; commit; return a) fun e => do rollback; throw e

end Script

end MailboxAccess
