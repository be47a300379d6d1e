import MailboxAccess.Rights

namespace MailboxAccess.Rights

/-- Unites what the letters mean, from the left; the first letter without a meaning decides. -/
def collect (meaning : Char → Except FormatError Rights) :
    List Char → Rights → Except FormatError Rights
  | [], sum => .ok sum
  | c :: cs, sum => do collect meaning cs (sum.union (← meaning c))

def canonicalLetter (input : String) (c : Char) : Except FormatError Rights :=
  match Right.ofLetter? c with
  | some right => .ok (only right)
  | none => .error (.malformedRights input c)

def parse (s : String) : Except FormatError Rights := collect (canonicalLetter s) s.toList empty

def ofLegacyLetter? (c : Char) : Option Rights :=
  if c = 'c' then some (ofList [.createMailbox, .deleteMailbox])
  else if c = 'd' then some (ofList [.performExpunge, .deleteMessages, .deleteMailbox])
  else none

/-- Letters and digits that a server may define for itself. -/
def isReserved (c : Char) : Bool := c.isLower || c.isDigit

def commandLetter (input : String) (c : Char) : Except FormatError Rights :=
  match ofLegacyLetter? c with
  | some rights => .ok rights
  | none =>
    match Right.ofLetter? c with
    | some right => .ok (only right)
    | none => .error (if isReserved c then .unsupportedRight c else .malformedRights input c)

def parseCommand (s : String) : Except FormatError Rights := collect (commandLetter s) s.toList empty

end MailboxAccess.Rights
