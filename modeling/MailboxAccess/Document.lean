import MailboxAccess.Acl
import MailboxAccess.Rights.Parser

/-!
Stored documents: an access control list as a map from the text of each key to the text of its rights.
Documents are in the order of the texts, which is not the order of the keys.
-/
namespace MailboxAccess

abbrev Document := SortedMap String String

inductive DecodeError where
  | malformed
  | invalidEntry (cause : FormatError)
  deriving DecidableEq, Repr

def DecodeError.message? : DecodeError → Option String
  | malformed => none
  | invalidEntry cause => some ("serialization error: " ++ cause.message)

namespace Document

def ofAcl (acl : Acl) : Document :=
  SortedMap.ofList (acl.entries.map fun entry => (entry.1.text, entry.2.text))

def readEntry (entry : String × String) : Except FormatError (EntryKey × Rights) := do
  return (← EntryKey.parse entry.1, ← Rights.parse entry.2)

/-- Entries are read in the order of their texts, also those that grant nothing and are then left out. -/
def toAcl (document : Document) : Except FormatError Acl := do
  return Acl.ofEntries (← document.entries.mapM readEntry)

end Document

end MailboxAccess
