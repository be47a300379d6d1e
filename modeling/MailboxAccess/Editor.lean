import MailboxAccess.Acl.Command
import MailboxAccess.Codec
import MailboxAccess.Config
import MailboxAccess.Index

/-!
Access control lists in a store. An update reads a record, edits it and writes it back if nobody wrote in
between, and otherwise begins again. What it changed then goes to the index, the record is read once more
to catch commits that overtook the index, and the listeners are told.
-/
namespace MailboxAccess

structure Editor where
  config : Config
  codec : Codec
  hooked : Bool
  listeners : Nat

structure Versioned where
  acl : Acl
  version : UInt64
  deriving DecidableEq

structure Written where
  old : Acl
  new : Acl
  version : UInt64
  /-- The record that was replaced could not be decoded. -/
  corrupt : Bool
  deriving DecidableEq

/-- Any way to write a list as bytes, which may fail, and to read it back. -/
structure Coder where
  encode : Acl → Except FormatError Bytes
  decode? : Bytes → Option Acl

def Coder.ofCodec (codec : Codec) : Coder where
  encode acl := .ok (codec.encode acl)
  decode? bytes := (codec.decode bytes).toOption

namespace Editor

def make (config : Config) (codec : Codec) : Except AccessError Editor := do
  config.validate
  return { config, codec, hooked := false, listeners := 0 }

def attempts (editor : Editor) : Nat := editor.config.maxRetries.toNat

def coder (editor : Editor) : Coder := .ofCodec editor.codec

def beforeWrite (editor : Editor) (mailbox : MailboxId) (attempt : Nat) : Plan Unit :=
  if editor.hooked then
    .call (.hook mailbox attempt) fun
      | .ok () => .done (.ok ())
      | .error e => .done (.error e)
  else pure ()

/-- In the order of their numbers; a listener that does not cope is passed over. -/
def announce (commit : Commit) : (listeners : List Nat) → Plan Unit
  | [] => pure ()
  | listener :: listeners => .call (.notify listener commit) fun _ => announce commit listeners

end Editor

namespace Coder

def write (coder : Coder) (acl : Acl) : Plan Bytes :=
  match coder.encode acl with
  | .ok bytes => pure bytes
  | .error e => .fail (.format e)

def getVersioned (coder : Coder) (mailbox : MailboxId) : Plan (Option Versioned) := do
  match ← Plan.ask (.read mailbox) with
  | none => return none
  | some record => return some ⟨(coder.decode? record.acl).getD Acl.empty, record.version⟩

/-- One read and one conditional write; `none` if another writer came first. Versions wrap around. -/
def tryOnce (coder : Coder) (editor : Editor) (mailbox : MailboxId) (command : Command) (attempt : Nat) :
    Plan (Option Written) := do
  match ← Plan.ask (.read mailbox) with
  | none =>
    let new := Acl.empty.apply command
    let encoded ← coder.write new
    editor.beforeWrite mailbox attempt
    let created : Bool ← Plan.ask (.insert mailbox encoded)
    return if created then some ⟨Acl.empty, new, Record.firstVersion, false⟩ else none
  | some record =>
    let decoded := coder.decode? record.acl
    let old := decoded.getD Acl.empty
    let new := old.apply command
    let version := record.version + 1
    let encoded ← coder.write new
    editor.beforeWrite mailbox attempt
    let swapped : Bool ← Plan.ask (.swap mailbox encoded version record.version)
    return if swapped then some ⟨old, new, version, decoded.isNone⟩ else none

def tryFrom (coder : Coder) (editor : Editor) (mailbox : MailboxId) (command : Command) :
    (left : Nat) → (attempt : Nat) → Plan Written
  | 0, _ => .fail (.retriesExhausted mailbox editor.attempts)
  | left + 1, attempt => do
    match ← coder.tryOnce editor mailbox command attempt with
    | some written => return written
    | none => coder.tryFrom editor mailbox command left (attempt + 1)

def settle (coder : Coder) (mailbox : MailboxId) : (rounds : Nat) → (synced : UInt64) → Plan Unit
  | 0, _ => pure ()
  | rounds + 1, synced => do
    match ← coder.getVersioned mailbox with
    | none => return ()
    | some current =>
      if current.version = synced then return ()
      else
        let _ ← Index.repair mailbox current.acl
        coder.settle mailbox rounds current.version

/-- Rows of a corrupt record may be anything, so they are rebuilt. -/
def syncIndex (coder : Coder) (editor : Editor) (mailbox : MailboxId) (written : Written) (diff : Diff) :
    Plan Unit := do
  if written.corrupt then
    let _ ← Index.repair mailbox written.new
  else
    Index.applyDiff mailbox diff
  coder.settle mailbox editor.attempts written.version

def update (coder : Coder) (editor : Editor) (mailbox : MailboxId) (command : Command) : Plan Commit := do
  let written ← coder.tryFrom editor mailbox command editor.attempts 1
  let diff := Diff.between written.old written.new
  coder.syncIndex editor mailbox written diff
  let commit : Commit := ⟨mailbox, written.version, diff⟩
  Editor.announce commit (List.range editor.listeners)
  return commit

end Coder

namespace Editor

variable (editor : Editor) (mailbox : MailboxId)

abbrev decode? (bytes : Bytes) : Option Acl := editor.coder.decode? bytes

abbrev getVersioned : Plan (Option Versioned) := editor.coder.getVersioned mailbox

def get : Plan Acl := do
  match ← editor.getVersioned mailbox with
  | none => return Acl.empty
  | some versioned => return versioned.acl

abbrev tryOnce (command : Command) (attempt : Nat) : Plan (Option Written) :=
  editor.coder.tryOnce editor mailbox command attempt

abbrev tryFrom (command : Command) (left attempt : Nat) : Plan Written :=
  editor.coder.tryFrom editor mailbox command left attempt

abbrev settle (rounds : Nat) (synced : UInt64) : Plan Unit := editor.coder.settle mailbox rounds synced

abbrev syncIndex (written : Written) (diff : Diff) : Plan Unit := editor.coder.syncIndex editor mailbox written diff

abbrev update (command : Command) : Plan Commit := editor.coder.update editor mailbox command

/-- Replaces the record whatever it holds and starts its versions anew. Nobody is told. -/
def reset (acl : Acl) : Plan Unit := do
  Plan.ask (.overwrite mailbox (editor.codec.encode acl))
  let _ ← Index.repair mailbox acl
  editor.settle mailbox editor.attempts Record.firstVersion

end Editor

end MailboxAccess
