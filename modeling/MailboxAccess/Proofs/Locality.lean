import MailboxAccess.Proofs.AnyRecord
import MailboxAccess.Proofs.Changes
import MailboxAccess.Proofs.Editor.Footprint
import MailboxAccess.Proofs.Retries

namespace MailboxAccess

/-- Whether the key holds the right after the command, given whether it did before. -/
def Command.leaves (command : Command) (right : Right) (held : Bool) : Bool :=
  match command.mode with
  | .add => held || command.rights.contains right
  | .remove => held && !command.rights.contains right
  | .replace => command.rights.contains right

theorem Command.contains_edit (command : Command) (old : Rights) (right : Right) :
    (command.mode.edit old command.rights).contains right = command.leaves right (old.contains right) := by
  rcases command with ⟨key, mode, rights⟩
  cases mode with
  | add => exact old.contains_union rights right
  | remove => exact old.contains_except rights right
  | replace => rfl

theorem Acl.get?_apply_of_ne {command : Command} {key : EntryKey} (apart : key ≠ command.key) (acl : Acl) :
    (acl.apply command).get? key = acl.get? key := by
  rw [apply, get?_withEntry, if_neg apart]

theorem Diff.changes_apply (acl : Acl) (command : Command) :
    (between acl (acl.apply command)).changes =
      if (acl.apply command).rightsOf command.key = acl.rightsOf command.key then []
      else [⟨command.key, acl.get? command.key, (acl.apply command).get? command.key⟩] := by
  apply SortedMap.eq_of_ascending Change.key (rising_between _ _)
  · split
    · exact List.Pairwise.nil
    · exact List.pairwise_singleton _ _
  · intro change
    rw [mem_between_iff]
    constructor
    · intro facts
      rcases change with ⟨key, old, new⟩
      dsimp only at facts
      rcases facts with ⟨rfl, rfl, differ⟩
      have here : key = command.key := by
        by_contra apart
        exact differ (Acl.get?_apply_of_ne apart acl).symm
      subst here
      rw [if_neg fun same => differ (Acl.get?_eq_iff.mpr same.symm)]
      exact List.mem_singleton_self _
    · intro member
      split at member
      · cases member
      · next changed =>
          rw [List.mem_singleton.mp member]
          exact ⟨rfl, rfl, fun same => changed (Acl.get?_eq_iff.mp same.symm)⟩

/-- The rows that a command has to do with: that of its entry, if this changes. -/
def Command.rows (command : Command) (mailbox : MailboxId) (acl : Acl) : List (EntryKey × MailboxId) :=
  if (acl.apply command).rightsOf command.key = acl.rightsOf command.key then [] else [(command.key, mailbox)]

theorem Command.rows_eq (command : Command) (mailbox : MailboxId) (acl : Acl) :
    Change.rows mailbox (Diff.between acl (acl.apply command)).changes = command.rows mailbox acl := by
  rw [Diff.changes_apply, rows, Change.rows]
  split <;> rfl

theorem Course.not_moved {tasks : List Task} {mailbox : MailboxId} {view : View} {actor : Nat}
    {before after : List Happening} {x : Exchange} (course : Course tasks mailbox view (before ++ ⟨actor, x⟩ :: after))
    (stored : x.stored? mailbox ≠ none) (alone : overtakers mailbox actor after = []) :
    ¬ Moved mailbox (own actor (before ++ ⟨actor, x⟩ :: after)) := by
  intro ⟨front, back, rounds, known, split, chases⟩
  rcases List.filterMap_eq_append_iff.mp split with ⟨earlier, later, place, past, -⟩
  change own actor earlier = front at past
  rw [← past] at chases
  have sooner := course
  rw [place] at sooner
  -- the round that found another version is charged to a task that has stored one since, and there is none
  rcases sooner.earlier.rounds_le_since chases with ⟨first, y, since, rfl, again, most⟩
  rw [List.append_assoc, List.cons_append] at place
  rcases course.stored_once place stored again with ⟨-, rfl⟩
  rw [overtakers_append, List.append_eq_nil_iff] at alone
  rw [alone.1] at most
  exact absurd most (Nat.not_succ_le_zero rounds)

/-- What an update that nobody overtakes writes into the index, when it finds this list. -/
structure Frugal (acl : Acl) (command : Command) (mailbox : MailboxId) (actor : Nat) (history : List Happening)
    (last : Race Outcome) : Prop where
  most : rowWrites (own actor history) <+: command.rows mailbox acl
  all : ∀ commit, last.result? actor = some (.ok (.committed commit)) →
    commit.diff = Diff.between acl (acl.apply command) ∧ rowWrites (own actor history) = command.rows mailbox acl

theorem Task.plan_rows {rely : Exchange → Prop} {editor : Editor} {mailbox : MailboxId} {command : Command} :
    (Task.update editor mailbox command).plan.Meets rely
      (fun past x => rowWrites (past ++ [x]) = [] ∨
        ∃ seen, editor.Synced mailbox command seen (Confined mailbox) (past ++ [x]))
      (Plan.Returns fun past outcome => ∃ seen, outcome = .committed (editor.commit mailbox command seen) ∧
        editor.Synced mailbox command seen (Covered mailbox) past) [] := by
  refine Editor.update_rows.bind_returns ?_
  intro past commit wrote
  rcases wrote with ⟨seen, rfl, synced⟩
  exact Plan.returns_ok ⟨seen, rfl, synced⟩

section Race

variable {store : Store} {tasks : List Task} {mailbox : MailboxId} {view : View} {start : Option Versioned}
  {turns : List Turn} {last : Race Outcome} {actor : Nat} {editor : Editor} {command : Command}
  {before after : List Happening} {x : Exchange} {seen : Option Record}

theorem Course.rows_of_synced {other : Option Record} {wrote : List (EntryKey × MailboxId) → List Exchange → Prop}
    (course : Course tasks mailbox view (before ++ ⟨actor, x⟩ :: after)) (stored : x.stored? mailbox ≠ none)
    (attempting : Editor.Attempting mailbox (own actor before) seen)
    (decoded : editor.codec.versioned seen = .ok start)
    (synced : editor.Synced mailbox command other wrote (own actor (before ++ ⟨actor, x⟩ :: after))) :
    (editor.commit mailbox command other).diff =
        Diff.between (Versioned.list start) ((Versioned.list start).apply command) ∧
      wrote (command.rows mailbox (Versioned.list start)) (own actor (before ++ ⟨actor, x⟩ :: after)) := by
  rcases synced with ⟨⟨past, y, later, split, replaced⟩, wrote⟩
  rcases exists_of_own split with ⟨earlier, rest, place, rfl, -⟩
  have again : y.stored? mailbox ≠ none := by
    rw [Editor.stored_of_won replaced.call replaced.won]
    exact nofun
  -- both are the one place where the task stores its list, so both attempts have read the same record
  rcases course.stored_once place stored again with ⟨rfl, -⟩
  cases attempting.unique replaced.attempting
  have base : editor.base seen = Versioned.list start := Codec.listOf_eq decoded
  have diff : (editor.commit mailbox command seen).diff =
      Diff.between (Versioned.list start) ((Versioned.list start).apply command) := by
    rw [Editor.commit, Editor.edited, base]
  have rows := wrote (Editor.written_of_legible ⟨start, decoded, List.Subset.refl _⟩)
  rw [diff, Command.rows_eq] at rows
  exact ⟨diff, rows⟩

theorem Race.frugal_of_run {during later : List Happening}
    (ran : (Race.start store tasks).run turns = (before ++ ⟨actor, x⟩ :: (during ++ later), last))
    (present : tasks[actor]? = some (.update editor mailbox command)) (stored : x.stored? mailbox ≠ none)
    (attempting : Editor.Attempting mailbox (own actor before) seen)
    (decoded : editor.codec.versioned seen = .ok start) (idle : own actor later = [])
    (alone : overtakers mailbox actor during = []) :
    Frugal (Versioned.list start) command mailbox actor (before ++ ⟨actor, x⟩ :: (during ++ later)) last := by
  have course := Race.course_of_run ran mailbox
  have still : ¬ Moved mailbox (own actor (before ++ ⟨actor, x⟩ :: (during ++ later))) := by
    have upToEnd := course
    rw [← List.cons_append, ← List.append_assoc] at upToEnd ⊢
    rw [own_append, idle, List.append_nil]
    exact upToEnd.earlier.not_moved stored alone
  have planned : (Race.start store tasks).plans[actor]? = some (Task.update editor mailbox command).plan := by
    rw [Race.start, List.getElem?_map, present]
    rfl
  rcases (Race.reaches_of_run ran).leads planned with ⟨rest, found, led⟩
  rcases led.meets Task.plan_rows fun _ _ => trivial with ⟨each, ends⟩
  constructor
  case most =>
    -- what holds of the rows after each exchange holds of them after the last one
    rcases List.eq_nil_or_concat (own actor (before ++ ⟨actor, x⟩ :: (during ++ later))) with
      nothing | ⟨past, newest, split⟩
    · rw [nothing]
      exact List.nil_prefix
    · rw [List.concat_eq_append] at split
      have wrote := each past newest [] split
      rw [← split] at wrote
      rcases wrote with nothing | ⟨other, synced⟩
      · rw [nothing]
        exact List.nil_prefix
      · exact (course.rows_of_synced stored attempting decoded synced).2.resolve_left still
  case all =>
    intro commit done
    rw [Race.result_eq_some_iff, found] at done
    cases done
    rcases ends _ rfl with ⟨other, same, synced⟩
    cases same
    rcases course.rows_of_synced stored attempting decoded synced with ⟨diff, covered⟩
    exact ⟨diff, covered.resolve_left still⟩

end Race

structure Local (acl : Acl) (command : Command) : Prop where
  elsewhere : ∀ key, key ≠ command.key → (acl.apply command).get? key = acl.get? key
  /-- Right by right; a key that is left with none has no entry. -/
  there : ∃ rights : Rights,
    (∀ right, rights.contains right = command.leaves right ((acl.rightsOf command.key).contains right)) ∧
      (acl.apply command).get? command.key = if rights = Rights.empty then none else some rights
  changes : (Diff.between acl (acl.apply command)).changes =
    if (acl.apply command).rightsOf command.key = acl.rightsOf command.key then []
    else [⟨command.key, acl.get? command.key, (acl.apply command).get? command.key⟩]

/-- A command acts on the entry of its key. An update that has stored its list writes at most the row of this entry,
except if the record that it had read was corrupt, or another task stores a record of the mailbox before the update is
over. -/
theorem command_local (acl : Acl) (command : Command) :
    Local acl command ∧
      ∀ (store : Store) (tasks : List Task) (turns : List Turn) (before : List Happening) (x : Exchange)
        (after : List Happening) (last : Race Outcome) (actor : Nat) (editor : Editor) (mailbox : MailboxId)
        (record : Record),
        (Race.start store tasks).run turns = (before ++ ⟨actor, x⟩ :: after, last) →
          tasks[actor]? = some (.update editor mailbox command) → x.stored? mailbox = some record →
            ∃ seen, Editor.Attempting mailbox (own actor before) seen ∧
              ∀ start during later, editor.codec.versioned seen = .ok start → Versioned.list start = acl →
                after = during ++ later → own actor later = [] → overtakers mailbox actor during = [] →
                  Frugal acl command mailbox actor (before ++ ⟨actor, x⟩ :: after) last := by
  refine ⟨?_, ?_⟩
  · constructor
    case elsewhere => exact fun key apart => Acl.get?_apply_of_ne apart acl
    case there =>
      refine ⟨command.mode.edit (acl.rightsOf command.key) command.rights, command.contains_edit _, ?_⟩
      rw [Acl.apply, Acl.get?_withEntry, if_pos rfl]
    case changes => exact Diff.changes_apply acl command
  · intro store tasks turns before x after last actor editor mailbox record ran present stored
    have kept : x.stored? mailbox ≠ none := Option.ne_none_iff_exists'.mpr ⟨record, stored⟩
    have attempted : ∃ seen, Editor.Attempting mailbox (own actor before) seen := by
      have course := Race.course_of_run ran mailbox
      cases course.upTo.stores stored with
      | update _ attempting => exact ⟨_, attempting⟩
      | reset other => cases present.symm.trans other
    rcases attempted with ⟨seen, attempting⟩
    refine ⟨seen, attempting, ?_⟩
    intro start during later decoded same parts idle alone
    subst same parts
    exact Race.frugal_of_run ran present kept attempting decoded idle alone

theorem Editor.Attempting.seen_of_last {mailbox : MailboxId} {past : List Exchange} {seen : Option Record}
    {record : Record} (attempting : Attempting mailbox past seen)
    (shown : past.getLast?.bind (fun x => x.shown? mailbox) = some record) : seen = some record := by
  rcases attempting.read with ⟨earlier, hooks, rfl, asked⟩
  rcases List.eq_nil_or_concat hooks with rfl | ⟨front, last, rfl⟩
  · rw [List.getLast?_concat] at shown
    exact (if_pos rfl).symm.trans shown
  · rcases last with ⟨c, answer⟩
    rcases asked ⟨c, answer⟩ (by simp) with ⟨attempt, call⟩
    cases call
    rw [List.concat_eq_append, ← List.cons_append, ← List.append_assoc, List.getLast?_concat] at shown
    cases shown

def outrunRun : List Happening × Race Outcome :=
  (Race.start Store.inMemory sampleTasks).run (.act 0 :: List.replicate 4 (.act 1) ++ List.replicate 5 (.act 0))

def ownerList : Acl := Acl.empty.apply giveOwner

theorem command_local_of_outrunRun :
    Local ownerList addReader ∧ addReader.rows sampleMailbox ownerList = [(.anyone, sampleMailbox)] ∧
      outrunRun.2.result? 0 =
        some (.ok (.committed ⟨sampleMailbox, 1, Diff.between ownerList (ownerList.apply addReader)⟩)) ∧
      Frugal ownerList addReader sampleMailbox 0 outrunRun.1 outrunRun.2 := by
  rcases command_local ownerList addReader with ⟨acts, frugal⟩
  refine ⟨acts, by decide +kernel, by decide +kernel, ?_⟩
  have read : (own 0 (outrunRun.1.take 7)).getLast?.bind (fun x => x.shown? sampleMailbox) =
      some ⟨Codec.json.encode ownerList, 0⟩ := by decide +kernel
  have won : (outrunRun.1.drop 7).head?.map (fun happening => (happening.actor, happening.stored? sampleMailbox)) =
      some (0, some ⟨Codec.json.encode (ownerList.apply addReader), 1⟩) := by decide +kernel
  have alone : overtakers sampleMailbox 0 (outrunRun.1.drop 7).tail = [] := by decide +kernel
  have whole := (List.take_append_drop 7 outrunRun.1).symm
  rcases rest : outrunRun.1.drop 7 with _ | ⟨⟨actor, x⟩, after⟩
  · rw [rest] at won
    cases won
  · rw [rest] at won alone whole
    simp only [List.head?_cons, Option.map_some, Option.some.injEq, Prod.mk.injEq] at won
    rcases won with ⟨rfl, stored⟩
    rw [whole]
    rcases frugal Store.inMemory sampleTasks _ _ x after outrunRun.2 0 sampleEditor sampleMailbox _
      (Prod.ext whole rfl) rfl stored with ⟨seen, attempting, rows⟩
    cases attempting.seen_of_last read
    exact rows (some ⟨ownerList, 0⟩) after [] (by decide +kernel) rfl (List.append_nil after).symm rfl alone

def corruptRun : List Happening × Race Outcome :=
  (Race.start corruptStore [.update sampleEditor sampleMailbox addReader]).run (List.replicate 9 (.act 0))

/-- The second update stores its list and is still to write its row when the first one, which had stored its own before,
comes to settle. -/
def settlingRun : List Happening × Race Outcome :=
  (Race.start Store.inMemory sampleTasks).run
    (List.replicate 2 (.act 0) ++ List.replicate 2 (.act 1) ++ List.replicate 5 (.act 0))

theorem repairs_write_more :
    (corruptRun.2.result? 0 =
        some (.ok (.committed ⟨sampleMailbox, 8, Diff.between Acl.empty (Acl.empty.apply addReader)⟩)) ∧
      rowWrites (own 0 corruptRun.1) =
        [(.anyone, sampleMailbox), (.authenticated, sampleMailbox), (.owner, sampleMailbox)]) ∧
    (settlingRun.2.result? 0 =
        some (.ok (.committed ⟨sampleMailbox, 0, Diff.between Acl.empty (Acl.empty.apply addReader)⟩)) ∧
      rowWrites (own 0 settlingRun.1) = [(.anyone, sampleMailbox), (.owner, sampleMailbox)]) := by
  decide +kernel

end MailboxAccess
