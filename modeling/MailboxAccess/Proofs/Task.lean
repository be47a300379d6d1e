import MailboxAccess.Task
import MailboxAccess.Proofs.Editor.Moves
import MailboxAccess.Proofs.Race

namespace MailboxAccess

namespace Task

def editor : Task → Editor
  | update editor _ _ => editor
  | reset editor _ _ => editor
  | read editor _ => editor

def mailbox : Task → MailboxId
  | update _ mailbox _ => mailbox
  | reset _ mailbox _ => mailbox
  | read _ mailbox => mailbox

def command? : Task → Option Command
  | update _ _ command => some command
  | _ => none

inductive Moves : Task → List Exchange → Call → Prop where
  | update {editor : Editor} {mailbox : MailboxId} {command : Command} {past : List Exchange} {c : Call}
      (moves : editor.Moves mailbox command past c) : Moves (.update editor mailbox command) past c
  | overwrite {editor : Editor} {mailbox : MailboxId} {acl : Acl} :
      Moves (.reset editor mailbox acl) [] (.store (.overwrite mailbox (editor.codec.encode acl)))
  | repair {editor : Editor} {mailbox : MailboxId} {acl : Acl} {past : List Exchange} {c : Call}
      (began : past ≠ []) (upkeep : Upkeep mailbox c) : Moves (.reset editor mailbox acl) past c
  | read {editor : Editor} {mailbox : MailboxId} :
      Moves (.read editor mailbox) [] (.store (.read mailbox))

inductive Ends : Task → List Exchange → Except AccessError Outcome → Prop where
  | update {editor : Editor} {mailbox : MailboxId} {command : Command} {past : List Exchange}
      {result : Except AccessError Commit} (ends : editor.Ends mailbox command past result) :
      Ends (.update editor mailbox command) past (result.map .committed)
  | reset {editor : Editor} {mailbox : MailboxId} {acl : Acl} {past : List Exchange}
      {result : Except AccessError Unit} (faultless : Faultless past result) :
      Ends (.reset editor mailbox acl) past (result.map fun _ => .replaced)
  | found {editor : Editor} {mailbox : MailboxId} {seen : Option Record} :
      Ends (.read editor mailbox) [⟨.store (.read mailbox), .ok seen⟩] (.ok (.found (editor.found seen)))
  | unread {editor : Editor} {mailbox : MailboxId} {e : StoreError} :
      Ends (.read editor mailbox) [⟨.store (.read mailbox), .error e⟩] (.error (.store e))

theorem reset_meets {rely : Exchange → Prop} (editor : Editor) (mailbox : MailboxId) (acl : Acl) :
    (editor.reset mailbox acl).Meets rely
      (fun past x => (Task.reset editor mailbox acl).Moves past x.call) Faultless [] := by
  refine Plan.Meets.ask_bind (fun _ _ => .overwrite) ?_ (fun _ => faultless_concat)
  intro reply _
  have upkeep : (Index.repair mailbox acl >>= fun _ =>
      editor.settle mailbox editor.attempts Record.firstVersion).Meets rely
      (fun _ x => Upkeep mailbox x.call) Faultless
      ([] ++ [⟨.store (.overwrite mailbox (editor.codec.encode acl)), .ok reply⟩]) :=
    (Index.repair_meets acl _).upkeep.bind_faultless fun past _ => editor.coder.settle_meets _ _ past
  have began : [] ++ [⟨.store (.overwrite mailbox (editor.codec.encode acl)), .ok reply⟩] ≠
      ([] : List Exchange) := by simp
  refine (upkeep.keep (fun past => past ≠ []) began ?_).mono ?_ ?_
  · intro past x _ _
    simp
  · intro past x kept
    exact .repair kept.1 kept.2
  · intro past result kept
    exact kept.2

theorem plan_meets (task : Task) :
    task.plan.Meets (fun _ => True) (fun past x => task.Moves past x.call) task.Ends [] := by
  cases task with
  | update editor mailbox command =>
      refine (Editor.update_meets.mono (fun _ _ => .update) (fun _ _ => id)).bind ?_ ?_
      · intro past commit ends
        exact .update ends
      · intro past e ends
        exact .update ends
  | reset editor mailbox acl =>
      refine (reset_meets editor mailbox acl).bind ?_ ?_
      · intro past done faultless
        exact .reset faultless
      · intro past e faultless
        exact .reset faultless
  | read editor mailbox =>
      refine Coder.getVersioned_bind (fun _ _ => .read) ?_ (fun _ => .unread)
      intro seen _
      exact .found

theorem failed_of_ends {task : Task} {past : List Exchange} {e : AccessError}
    (ends : task.Ends past (.error e)) {x : Exchange} (member : x ∈ past)
    (touched : ¬ x.Idle task.mailbox) : ∃ x ∈ past, x.Failed := by
  generalize told : (Except.error e : Except AccessError Outcome) = result at ends
  cases ends with
  | @update _ _ _ _ result ends =>
      cases ends with
      | exhausted idle => exact absurd (idle x member) touched
      | stopped idle => exact absurd (idle x member) touched
      | unfinished committed failed => exact failed
      | committed => cases told
  | @reset _ _ _ _ result faultless =>
      cases result with
      | error e => exact faultless.failed
      | ok done => cases told
  | found => cases told
  | unread => exact ⟨_, List.mem_cons_self, trivial⟩

end Task

end MailboxAccess
