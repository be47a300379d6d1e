import MailboxAccess.Editor
import MailboxAccess.Race

namespace MailboxAccess

inductive Task where
  | update (editor : Editor) (mailbox : MailboxId) (command : Command)
  | reset (editor : Editor) (mailbox : MailboxId) (acl : Acl)
  | read (editor : Editor) (mailbox : MailboxId)

inductive Outcome where
  | committed (commit : Commit)
  | replaced
  | found (versioned : Option Versioned)
  deriving DecidableEq

def Task.plan : Task → Plan Outcome
  | update editor mailbox command => do return .committed (← editor.update mailbox command)
  | reset editor mailbox acl => do
    editor.reset mailbox acl
    return .replaced
  | read editor mailbox => do return .found (← editor.getVersioned mailbox)

def Coder.task (coder : Coder) (editor : Editor) (mailbox : MailboxId) (command : Command) : Plan Outcome := do
  return .committed (← coder.update editor mailbox command)

theorem Coder.task_ofCodec {editor : Editor} {mailbox : MailboxId} {command : Command} :
    (ofCodec editor.codec).task editor mailbox command = (Task.update editor mailbox command).plan := rfl

def Race.start (store : Store) (tasks : List Task) : Race Outcome := ⟨store, tasks.map Task.plan⟩

end MailboxAccess
