import MailboxAccess.FormatError
import MailboxAccess.MailboxId
import MailboxAccess.Store.Error

namespace MailboxAccess

inductive AccessError where
  | format (cause : FormatError)
  | store (cause : StoreError)
  | retriesExhausted (mailbox : MailboxId) (attempts : Nat)
  | config (detail : String)
  deriving DecidableEq, Repr

def AccessError.message? : AccessError → Option String
  | format cause => some ("ACL error: " ++ cause.message)
  | store cause => cause.message?.map ("storage error: " ++ ·)
  | retriesExhausted mailbox attempts =>
    some ("ACL update of mailbox " ++ mailbox.hex ++ " did not converge after " ++ toString attempts ++
      " attempts")
  | config detail => some ("invalid configuration: " ++ detail)

end MailboxAccess
