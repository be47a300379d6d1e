import MailboxAccess.EntryKey
import MailboxAccess.MailboxId
import MailboxAccess.Rights
import MailboxAccess.SortedMap

namespace MailboxAccess

/-- An encoded list and how often it has been updated since it was created or reset. -/
structure Record where
  acl : Bytes
  version : UInt64
  deriving DecidableEq, Repr

namespace Record

def firstVersion : UInt64 := 0

end Record

inductive Request where
  | read (mailbox : MailboxId)
  | insert (mailbox : MailboxId) (acl : Bytes)
  /-- Replaces the record if it has the expected version. -/
  | swap (mailbox : MailboxId) (acl : Bytes) (new expected : UInt64)
  | overwrite (mailbox : MailboxId) (acl : Bytes)
  | upsert (identity : EntryKey) (mailbox : MailboxId) (rights : Rights)
  | delete (identity : EntryKey) (mailbox : MailboxId)
  | retrieve (identity : EntryKey) (mailbox : MailboxId)
  | listIdentity (identity : EntryKey)
  | listMailbox (mailbox : MailboxId)
  deriving DecidableEq

def Request.Reply : Request → Type
  | .read _ => Option Record
  | .insert _ _ => Bool
  | .swap _ _ _ _ => Bool
  | .overwrite _ _ => Unit
  | .upsert _ _ _ => Unit
  | .delete _ _ => Unit
  | .retrieve _ _ => Option Rights
  | .listIdentity _ => SortedMap MailboxId Rights
  | .listMailbox _ => SortedMap EntryKey Rights

end MailboxAccess
