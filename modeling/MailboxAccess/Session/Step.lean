import MailboxAccess.Contested
import MailboxAccess.Feed

namespace MailboxAccess

inductive CommandText where
  | line (identifier modification : String)
  | parts (key : String) (mode : Mode) (rights : String)

def CommandText.read : CommandText → Except FormatError Command
  | line identifier modification => Command.parse identifier modification
  | parts key mode rights => do return ⟨← EntryKey.parse key, mode, ← Rights.parse rights⟩

inductive AclText where
  | empty
  | ownerFull
  | pairs (entries : List (String × String))

def AclText.read : AclText → Except FormatError Acl
  | empty => .ok Acl.empty
  | ownerFull => .ok Acl.ownerFull
  | pairs entries => do return Acl.ofEntries (← entries.mapM Document.readEntry)

structure StepOptions where
  maxRetries : Option UInt32
  codec : Option Codec

inductive Step where
  | update (options : StepOptions) (mailbox : String) (command : CommandText)
  | reset (options : StepOptions) (mailbox : String) (acl : AclText)
  | get (options : StepOptions) (mailbox : String)
  | getVersioned (options : StepOptions) (mailbox : String)
  | listUser (options : StepOptions) (name : String)
  | listIdentity (options : StepOptions) (key : String)
  /-- Without a list, that of the mailbox itself. -/
  | repair (options : StepOptions) (mailbox : String) (acl : Option AclText)
  | contestedUpdate (options : StepOptions) (mailbox : String) (command : CommandText)
      (rivals : List CommandText)
  | retrieve (key mailbox : String)
  | applyDiff (mailbox : String) (old new : AclText)
  | storeRead (mailbox : String)
  | storeInsert (mailbox : String) (acl : Bytes)
  | storeSwap (mailbox : String) (acl : Bytes) (new expected : UInt64)
  | storeOverwrite (mailbox : String) (acl : Bytes)
  | storeUpsert (mailbox key rights : String)
  | storeDelete (mailbox key : String)
  | storeRetrieve (mailbox key : String)
  | storeListIdentity (key : String)
  | storeListMailbox (mailbox : String)
  /-- Writes a record past all checks. -/
  | putRecord (mailbox : String) (acl : Bytes) (version : Int)
  | dropRecord (mailbox : String)
  | putRow (identity : String) (mailbox : Bytes) (rights : String)
  | ensureVersion (version : Int)
  /-- Opens the database again; if that fails, it stays open as it was. -/
  | reopen
  | subscribe
  | unsubscribe (subscriber : Nat)
  | receive (subscriber : Nat)

inductive Answer where
  | nothing
  | flag (b : Bool)
  | count (n : Nat)
  | acl (acl : Acl)
  | versioned (versioned : Option Versioned)
  | record (record : Option Record)
  | rights (rights : Option Rights)
  | byMailbox (rows : SortedMap MailboxId Rights)
  | byIdentity (rows : SortedMap EntryKey Rights)
  | diff (diff : Diff)
  | commit (commit : Commit)
  | contested (injected : Nat) (result : Except AccessError Commit)
  | subscription (subscriber count : Nat)
  | subscribers (count : Nat)
  | received (received : Received)

inductive Failure where
  | format (cause : FormatError)
  | hex (cause : HexError)
  | access (cause : AccessError)
  | unsupported

end MailboxAccess
