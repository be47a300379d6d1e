import MailboxAccess.Plan

/-!
The rights index: for each identity, its rights in every mailbox. It repeats what the access control lists
say, one row for each entry, and is brought up to date by differences.
-/
namespace MailboxAccess.Index

def applyChange (mailbox : MailboxId) (change : Change) : Plan Unit :=
  match change.new with
  | some rights =>
    if rights.isEmpty then Plan.ask (.delete change.key mailbox)
    else Plan.ask (.upsert change.key mailbox rights)
  | none => Plan.ask (.delete change.key mailbox)

def applyChanges (mailbox : MailboxId) : List Change → Plan Unit
  | [] => pure ()
  | change :: changes => do
    applyChange mailbox change
    applyChanges mailbox changes

def applyDiff (mailbox : MailboxId) (diff : Diff) : Plan Unit := applyChanges mailbox diff.changes

def retrieve (identity : EntryKey) (mailbox : MailboxId) : Plan (Option Rights) :=
  Plan.ask (.retrieve identity mailbox)

def listIdentity (identity : EntryKey) : Plan (SortedMap MailboxId Rights) :=
  Plan.ask (.listIdentity identity)

def listUser (name : String) : Plan (SortedMap MailboxId Rights) :=
  match EntryKey.user name with
  | .ok identity => listIdentity identity
  | .error _ => pure SortedMap.empty

/-- Makes the rows of a mailbox those of the list. The answer is how they differed from it. -/
def repair (mailbox : MailboxId) (acl : Acl) : Plan Diff := do
  let rows ← Plan.ask (.listMailbox mailbox)
  let diff := Diff.between (Acl.ofEntries rows.entries) acl
  applyDiff mailbox diff
  return diff

end MailboxAccess.Index
