import MailboxAccess.Document
import MailboxAccess.Json.Value

namespace MailboxAccess.Document

def writeJsonMember (entry : String × String) : Bytes :=
  Json.writeText entry.1 ++ Json.colon :: Json.writeText entry.2

def writeJson (document : Document) : Bytes :=
  Json.openBrace :: Json.writeText "entries" ++ [Json.colon, Json.openBrace] ++
    [Json.comma].intercalate (document.entries.map writeJsonMember) ++ [Json.closeBrace, Json.closeBrace]

def readJsonEntry (document : Document) (name : String) : Reader Document := fun s => do
  let (value, rest) ← Json.stringValue s
  return (document.insert name value, rest)

def readJsonEntries : Reader Document := Json.object readJsonEntry SortedMap.empty

def readJsonMember (found : Option Document) (name : String) : Reader (Option Document) := fun s =>
  if name = "entries" then
    match found with
    | some _ => none
    | none => do
      let (document, rest) ← readJsonEntries (← Json.expect Json.openBrace s)
      return (some document, rest)
  else do return (found, ← Json.skipValue s)

/-- The entries may also stand alone in an array. -/
def readJsonValue : Reader Document := fun s =>
  match Json.expect Json.openBrace s with
  | some rest => do
    let (found, rest) ← Json.object readJsonMember none rest
    return (← found, rest)
  | none => do
    let inner ← Json.expect Json.openBracket s
    let (document, rest) ← readJsonEntries (← Json.expect Json.openBrace inner)
    return (document, ← Json.expect Json.closeBracket rest)

def readJson (s : Bytes) : Option Document := Json.whole readJsonValue s

end MailboxAccess.Document
