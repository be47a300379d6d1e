import MailboxAccess.Document.Cbor
import MailboxAccess.Document.Json

namespace MailboxAccess

inductive Codec where
  | json | cbor
  deriving DecidableEq, Repr

namespace Codec

def write : Codec → Document → Bytes
  | json => Document.writeJson
  | cbor => Document.writeCbor

def read? : Codec → Bytes → Option Document
  | json => Document.readJson
  | cbor => Document.readCbor

def encode (codec : Codec) (acl : Acl) : Bytes := codec.write (Document.ofAcl acl)

def decode (codec : Codec) (bytes : Bytes) : Except DecodeError Acl :=
  match codec.read? bytes with
  | none => .error .malformed
  | some document =>
    match document.toAcl with
    | .ok acl => .ok acl
    | .error cause => .error (.invalidEntry cause)

end Codec

end MailboxAccess
