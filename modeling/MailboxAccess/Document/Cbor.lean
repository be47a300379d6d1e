import MailboxAccess.Cbor.Item
import MailboxAccess.Document

/-!
Documents in CBOR: a map whose field `entries` is a map of texts. What follows the document is not read.
-/
namespace MailboxAccess.Document

def writeCborEntry (entry : String × String) : Bytes := Cbor.writeText entry.1 ++ Cbor.writeText entry.2

def writeCbor (document : Document) : Bytes :=
  Cbor.writeMapHeader 1 ++ Cbor.writeText "entries" ++
    Cbor.writeMapHeader document.size ++ document.entries.flatMap writeCborEntry

/-- Field names are short, and are texts or plain bytes. The answer is whether the field is `entries`. -/
def readFieldName : Reader Bool := fun s => do
  match ← Cbor.untagged s with
  | (.text (some length), rest) =>
    if length ≤ 4096 then
      let (name, rest) ← Cbor.definiteText length rest
      return (name == "entries", rest)
    else none
  | (.bytes (some length), rest) =>
    if length ≤ 4096 then
      let (name, rest) ← Bytes.take? length rest
      return (name == Bytes.ofText "entries", rest)
    else none
  | _ => none

def readCborEntry (document : Document) : Reader Document := fun s => do
  let (key, rest) ← Cbor.text s
  let (value, rest) ← Cbor.text rest
  return (document.insert key value, rest)

def readCborEntries : Reader Document := fun s => do
  match ← Cbor.untagged s with
  | (.map length, rest) => Cbor.repeatedly readCborEntry length SortedMap.empty rest
  | _ => none

def innerLevels : Nat := 255

/-- One field of the outer map: `entries` comes once, and any other is passed over. -/
def readCborField (found : Option Document) : Reader (Option Document) := fun s => do
  let (isEntries, rest) ← readFieldName s
  if isEntries then
    match found with
    | some _ => none
    | none =>
      let (document, rest) ← readCborEntries rest
      return (some document, rest)
  else return (found, ← Cbor.skipItem innerLevels rest)

def readCbor (s : Bytes) : Option Document := do
  match ← Cbor.untagged s with
  | (.map length, rest) =>
    let (found, _) ← Cbor.repeatedly readCborField length none rest
    found
  | _ => none

end MailboxAccess.Document
