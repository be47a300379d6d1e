import MailboxAccess.EntryKey
import MailboxAccess.Json.Value
import MailboxAccess.MailboxId
import MailboxAccess.Rights.Parser

namespace MailboxAccess

def Rights.readJson (s : String) : Option Rights := do
  (Rights.parse (← Json.whole Json.stringValue (Bytes.ofText s))).toOption

def Rights.writeJson (rights : Rights) : Bytes := Json.writeText rights.text

def EntryKey.readJson (s : String) : Option EntryKey := do
  (EntryKey.parse (← Json.whole Json.stringValue (Bytes.ofText s))).toOption

def EntryKey.writeJson (key : EntryKey) : Bytes := Json.writeText key.text

namespace MailboxId

def readByte : Reader UInt8 := fun s => do
  let (n, rest) ← Json.natural s
  if n < UInt8.size then some (UInt8.ofNat n, rest) else none

def readJson (s : String) : Option MailboxId := do
  let (bytes, rest) ← Json.array readByte (← Json.expect Json.openBracket (Bytes.ofText s))
  if (Json.skipBlanks rest).isEmpty then ofBytes? bytes else none

def writeJson (mailbox : MailboxId) : String :=
  "[" ++ ",".intercalate (mailbox.bytes.map fun b => toString b.toNat) ++ "]"

end MailboxId

end MailboxAccess
