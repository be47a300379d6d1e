import MailboxAccess.Bytes
import MailboxAccess.Text.Quoted

namespace MailboxAccess

inductive HexError where
  | oddLength
  | invalidDigit (byte : UInt8) (position : Nat)
  | wrongLength
  deriving DecidableEq, Repr

def HexError.message : HexError → String
  | oddLength => "Odd number of digits"
  | invalidDigit byte position =>
    "Invalid character " ++ Text.quoteChar (Char.ofNat byte.toNat) ++ " at position " ++ toString position
  | wrongLength => "Invalid string length"

namespace Hex

def digit (n : Nat) : Char := if n < 10 then Char.ofNat (48 + n) else Char.ofNat (87 + n)

def ofBytes (bytes : Bytes) : String :=
  String.ofList (bytes.flatMap fun b => [digit (b.toNat / 16), digit (b.toNat % 16)])

def value? (b : UInt8) : Option Nat :=
  let n := b.toNat
  if 48 ≤ n ∧ n ≤ 57 then some (n - 48)
  else if 97 ≤ n ∧ n ≤ 102 then some (n - 87)
  else if 65 ≤ n ∧ n ≤ 70 then some (n - 55)
  else none

def pairs (position : Nat) : Bytes → Except HexError Bytes
  | [] => .ok []
  | [_] => .error .oddLength
  | high :: low :: rest =>
    match value? high, value? low with
    | none, _ => .error (.invalidDigit high position)
    | some _, none => .error (.invalidDigit low (position + 1))
    | some h, some l => do return UInt8.ofNat (16 * h + l) :: (← pairs (position + 2) rest)

def toBytes (s : String) : Except HexError Bytes :=
  let digits := Bytes.ofText s
  if digits.length % 2 = 1 then .error .oddLength else pairs 0 digits

end Hex

end MailboxAccess
