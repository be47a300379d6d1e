import MailboxAccess.Text.Quoted

namespace MailboxAccess

inductive FormatError where
  /-- The whole text that was read, and its first character that means nothing. -/
  | malformedRights (input : String) (ch : Char)
  /-- A letter or digit that other servers may use for a right, and this one does not know. -/
  | unsupportedRight (ch : Char)
  | invalidKey (text : String)
  deriving DecidableEq, Repr

def FormatError.message : FormatError → String
  | .malformedRights input ch =>
    "malformed rights " ++ Text.quoteString input ++ ": unrecognized character " ++ Text.quoteChar ch
  | .unsupportedRight ch => "unsupported right: " ++ Text.quoteChar ch
  | .invalidKey text => "invalid entry key: " ++ Text.quoteString text

end MailboxAccess
