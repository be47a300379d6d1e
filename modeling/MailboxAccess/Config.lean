import MailboxAccess.AccessError
import MailboxAccess.Json.Value

namespace MailboxAccess

structure Config where
  maxRetries : UInt32 := 1000
  deriving DecidableEq, Repr

namespace Config

def validate (config : Config) : Except AccessError Unit :=
  if config.maxRetries = 0 then .error (.config "max_retries must allow at least one attempt") else .ok ()

def readCount : Reader UInt32 := fun s => do
  let (n, rest) ← Json.natural s
  if n < UInt32.size then some (UInt32.ofNat n, rest) else none

def readMember (found : Option UInt32) (name : String) : Reader (Option UInt32) := fun s =>
  if name = "max_retries" then
    match found with
    | some _ => none
    | none => do
      let (count, rest) ← readCount s
      return (some count, rest)
  else do return (found, ← Json.skipValue s)

def ofCount? (found : Option UInt32) : Config :=
  match found with
  | some count => ⟨count⟩
  | none => {}

/-- An object, or its only value in an array; what is left out keeps its default. -/
def readValue : Reader Config := fun s =>
  match Json.expect Json.openBrace s with
  | some rest => (Json.object readMember none rest).map fun (found, rest) => (ofCount? found, rest)
  | none => do
    let inner ← Json.expect Json.openBracket s
    match Json.expect Json.closeBracket inner with
    | some rest => return ({}, rest)
    | none =>
      let (count, rest) ← readCount inner
      return (⟨count⟩, ← Json.expect Json.closeBracket rest)

def readJson (s : String) : Option Config := Json.whole readValue (Bytes.ofText s)

end Config

end MailboxAccess
