import MailboxAccess.Acl
import MailboxAccess.Rights.Parser

namespace MailboxAccess

inductive Mode where
  | add | remove | replace
  deriving DecidableEq, Repr

structure Command where
  key : EntryKey
  mode : Mode
  rights : Rights
  deriving DecidableEq

def Mode.edit : Mode → Rights → Rights → Rights
  | add, old, given => old.union given
  | remove, old, given => old.except given
  | replace, _, given => given

def Acl.apply (acl : Acl) (command : Command) : Acl :=
  acl.withEntry command.key (command.mode.edit (acl.rightsOf command.key) command.rights)

theorem Acl.rightsOf_apply (acl : Acl) (command : Command) (key : EntryKey) :
    (acl.apply command).rightsOf key =
      if key = command.key then command.mode.edit (acl.rightsOf key) command.rights
      else acl.rightsOf key := by
  by_cases same : key = command.key
  · simp [apply, rightsOf_withEntry, same]
  · simp [apply, rightsOf_withEntry, same]

theorem Acl.keys_apply (acl : Acl) (command : Command) : (acl.apply command).keys ⊆ command.key :: acl.keys := by
  intro key member
  rw [mem_keys_iff, apply, get?_withEntry] at member
  by_cases same : key = command.key
  · rw [same]
    exact List.mem_cons_self
  · rw [if_neg same] at member
    exact List.mem_cons_of_mem _ ((acl.mem_keys_iff key).mpr member)

namespace Command

/-- The mode that a modification starts with, and the rights that follow it. -/
def splitMode : List Char → Mode × List Char
  | [] => (.replace, [])
  | c :: cs =>
    if c = '+' then (.add, cs)
    else if c = '-' then (.remove, cs)
    else (.replace, c :: cs)

/-- The identifier is read first, and a fault in it is the one that is reported. -/
def parse (identifier modification : String) : Except FormatError Command := do
  let key ← EntryKey.parse identifier
  let (mode, letters) := splitMode modification.toList
  return ⟨key, mode, ← Rights.parseCommand (String.ofList letters)⟩

end Command

end MailboxAccess
