import MailboxAccess.Text.Unprintable

namespace MailboxAccess.Text

def hexText (n : Nat) : List Char := Nat.toDigits 16 n

/-- `mark` is the quotation mark in use; the other one stands for itself. -/
def spell (mark c : Char) : List Char :=
  if c = '\x00' then ['\\', '0']
  else if c = '\t' then ['\\', 't']
  else if c = '\n' then ['\\', 'n']
  else if c = '\r' then ['\\', 'r']
  else if c = mark ∨ c = '\\' then ['\\', c]
  else if isUnprintable c then ['\\', 'u', '\x7b'] ++ hexText c.toNat ++ ['\x7d']
  else [c]

def quoteString (s : String) : String :=
  String.ofList ('"' :: s.toList.flatMap (spell '"') ++ ['"'])

def quoteChar (c : Char) : String :=
  String.ofList ('\'' :: spell '\'' c ++ ['\''])

end MailboxAccess.Text
