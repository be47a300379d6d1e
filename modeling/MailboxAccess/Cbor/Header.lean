import MailboxAccess.Bytes

namespace MailboxAccess.Cbor

/-- A length that is `none` is announced by a break at the end instead. -/
inductive Header where
  | positive (n : Nat)
  | negative (n : Nat)
  | bytes (length : Option Nat)
  | text (length : Option Nat)
  | array (length : Option Nat)
  | map (length : Option Nat)
  | tag (n : Nat)
  | simple (n : Nat)
  | float
  | stop
  deriving DecidableEq, Repr

def number (bytes : Bytes) : Nat := bytes.foldl (fun n b => 256 * n + b.toNat) 0

def width? (info : Nat) : Option Nat :=
  if info = 24 then some 1
  else if info = 25 then some 2
  else if info = 26 then some 4
  else if info = 27 then some 8
  else none

def argument (info : Nat) : Reader (Option Nat) := fun s =>
  if info < 24 then some (some info, s)
  else if info = 31 then some (none, s)
  else do
    let (taken, rest) ← Bytes.take? (← width? info) s
    return (some (number taken), rest)

def classify (major info : Nat) (argument : Option Nat) : Option Header :=
  match major, argument with
  | 0, some n => some (.positive n)
  | 1, some n => some (.negative n)
  | 2, length => some (.bytes length)
  | 3, length => some (.text length)
  | 4, length => some (.array length)
  | 5, length => some (.map length)
  | 6, some n => some (.tag n)
  | 7, some n => some (if info < 25 then .simple n else .float)
  | 7, none => some .stop
  | _, _ => none

def header : Reader Header
  | [] => none
  | b :: s => do
    let info := b.toNat % 32
    let (n, rest) ← argument info s
    return (← classify (b.toNat / 32) info n, rest)

def bigEndian : (width : Nat) → Nat → Bytes
  | 0, _ => []
  | width + 1, n => bigEndian width (n / 256) ++ [UInt8.ofNat n]

/-- The shortest header of the given kind. -/
def writeHeader (major n : Nat) : Bytes :=
  if n < 24 then [UInt8.ofNat (32 * major + n)]
  else if n < 0x100 then UInt8.ofNat (32 * major + 24) :: bigEndian 1 n
  else if n < 0x10000 then UInt8.ofNat (32 * major + 25) :: bigEndian 2 n
  else if n < 0x100000000 then UInt8.ofNat (32 * major + 26) :: bigEndian 4 n
  else UInt8.ofNat (32 * major + 27) :: bigEndian 8 n

def writeText (s : String) : Bytes :=
  let bytes := Bytes.ofText s
  writeHeader 3 bytes.length ++ bytes

def writeMapHeader (size : Nat) : Bytes := writeHeader 5 size

end MailboxAccess.Cbor
