namespace MailboxAccess

inductive StoreError where
  /-- The database engine refused a statement; what it says about that is its own affair. -/
  | database
  | invalidData (detail : String)
  | migration (detail : String)
  | task (detail : String)
  | poisoned (detail : String)
  | io (detail : String)
  deriving DecidableEq, Repr

def StoreError.message? : StoreError → Option String
  | database => none
  | invalidData detail => some ("invalid data: " ++ detail)
  | migration detail => some ("migration error: " ++ detail)
  | task detail => some ("storage task failed: " ++ detail)
  | poisoned detail => some ("store lock poisoned: " ++ detail)
  | io detail => some ("I/O error: " ++ detail)

end MailboxAccess
