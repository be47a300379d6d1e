import MailboxAccess.Codec
import MailboxAccess.Text.Hex

namespace MailboxAccess.Document

structure Sample where
  name : String
  entries : List (String × String)
  json : String
  /-- In hexadecimal digits. -/
  cbor : String

def samples : List Sample := [
  { name := "empty ACL"
    entries := []
    json := "\x7b\"entries\":\x7b\x7d\x7d"
    cbor := "a167656e7472696573a0" },
  { name := "single user"
    entries := [("bob", "lr")]
    json := "\x7b\"entries\":\x7b\"bob\":\"lr\"\x7d\x7d"
    cbor := "a167656e7472696573a163626f62626c72" },
  { name := "personal mailbox default"
    entries := [("owner", "aeiklprstwx")]
    json := "\x7b\"entries\":\x7b\"owner\":\"aeiklprstwx\"\x7d\x7d"
    cbor := "a167656e7472696573a1656f776e65726b6165696b6c707273747778" },
  { name := "mixed keys sort by text"
    entries := [("owner", "aeiklprstwx"), ("bob", "lr"), ("-bob", "r"), ("$staff", "lrs")]
    json := "\x7b\"entries\":\x7b\"$staff\":\"lrs\",\"-bob\":\"r\",\"bob\":\"lr\"," ++
      "\"owner\":\"aeiklprstwx\"\x7d\x7d"
    cbor := "a167656e7472696573a4" ++ "66247374616666636c7273" ++ "642d626f626172" ++
      "63626f62626c72" ++ "656f776e65726b6165696b6c707273747778" },
  { name := "special identifiers"
    entries := [("anyone", "l"), ("authenticated", "lr"), ("-anyone", "p")]
    json := "\x7b\"entries\":\x7b\"-anyone\":\"p\",\"anyone\":\"l\",\"authenticated\":\"lr\"\x7d\x7d"
    cbor := "a167656e7472696573a3" ++ "672d616e796f6e656170" ++ "66616e796f6e65616c" ++
      "6d61757468656e74696361746564626c72" }]

namespace Sample

def acl (sample : Sample) : Except FormatError Acl := do
  return Acl.ofEntries (← sample.entries.mapM readEntry)

def written (sample : Sample) : Option (String × String) := do
  let acl ← sample.acl.toOption
  return (← Bytes.toText? (Codec.json.encode acl), Hex.ofBytes (Codec.cbor.encode acl))

def holds (sample : Sample) : Bool := sample.written = some (sample.json, sample.cbor)

end Sample

end MailboxAccess.Document
