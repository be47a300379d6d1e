import MailboxAccess.Text.Hex

/-!
JSON strings. A string is first cut out up to its closing quote, then split into pieces (raw bytes, named
escapes and numbered units), then its units are joined to characters. A string that nobody uses needs
only the first two.
-/
namespace MailboxAccess.Json

def quote : UInt8 := 0x22
def backslash : UInt8 := 0x5c

def body : Reader Bytes
  | [] => none
  | b :: s =>
    if b = quote then some ([], s)
    else if b = backslash then
      match s with
      | [] => none
      | e :: s => (body s).map fun (t, rest) => (b :: e :: t, rest)
    else (body s).map fun (t, rest) => (b :: t, rest)

inductive Piece where
  | byte (b : UInt8)
  | unit (n : Nat)
  deriving DecidableEq, Repr

def unitValue? (a b c d : UInt8) : Option Nat := do
  return ((← Hex.value? a) * 16 + (← Hex.value? b)) * 256 + ((← Hex.value? c) * 16 + (← Hex.value? d))

def named? (e : UInt8) : Option UInt8 :=
  if e = 0x22 ∨ e = 0x5c ∨ e = 0x2f then some e
  else if e = 0x62 then some 0x08
  else if e = 0x66 then some 0x0c
  else if e = 0x6e then some 0x0a
  else if e = 0x72 then some 0x0d
  else if e = 0x74 then some 0x09
  else none

def pieces : Bytes → Option (List Piece)
  | [] => some []
  | b :: s =>
    if b = backslash then
      match s with
      | 0x75 :: h₁ :: h₂ :: h₃ :: h₄ :: s => do
        return .unit (← unitValue? h₁ h₂ h₃ h₄) :: (← pieces s)
      | e :: s => do return .byte (← named? e) :: (← pieces s)
      | [] => none
    else if b < 0x20 then none
    else do return .byte b :: (← pieces s)

def isHighSurrogate (n : Nat) : Bool := 0xD800 ≤ n && n ≤ 0xDBFF
def isLowSurrogate (n : Nat) : Bool := 0xDC00 ≤ n && n ≤ 0xDFFF

/-- A high surrogate must be followed by a low one, and a low one must follow a high one. -/
def join : List Piece → Option Bytes
  | [] => some []
  | .byte b :: rest => do return b :: (← join rest)
  | .unit n :: rest =>
    if isHighSurrogate n then
      match rest with
      | .unit m :: rest =>
        if isLowSurrogate m then do
          return String.utf8EncodeChar (Char.ofNat (0x10000 + (n - 0xD800) * 0x400 + (m - 0xDC00))) ++
            (← join rest)
        else none
      | _ => none
    else if isLowSurrogate n then none
    else do return String.utf8EncodeChar (Char.ofNat n) ++ (← join rest)

def text : Reader String
  | [] => none
  | b :: s =>
    if b = quote then do
      let (raw, rest) ← body s
      return (← Bytes.toText? (← join (← pieces raw)), rest)
    else none

def skipText : Bytes → Option Bytes
  | [] => none
  | b :: s =>
    if b = quote then do
      let (raw, rest) ← body s
      let _ ← pieces raw
      return rest
    else none

def hexDigit (n : Nat) : UInt8 := UInt8.ofNat (Hex.digit n).toNat

/-- How one byte is written: named escapes where there are any, numbers for other controls. -/
def escape (b : UInt8) : Bytes :=
  if b = 0x22 ∨ b = 0x5c then [backslash, b]
  else if b = 0x08 then [backslash, 0x62]
  else if b = 0x0c then [backslash, 0x66]
  else if b = 0x0a then [backslash, 0x6e]
  else if b = 0x0d then [backslash, 0x72]
  else if b = 0x09 then [backslash, 0x74]
  else if b < 0x20 then
    [backslash, 0x75, 0x30, 0x30, hexDigit (b.toNat / 16), hexDigit (b.toNat % 16)]
  else [b]

def writeText (s : String) : Bytes := quote :: (Bytes.ofText s).flatMap escape ++ [quote]

end MailboxAccess.Json
