import MailboxAccess.Proofs.Editor.Upkeep

/-!
What an update asks for, given what it has been answered so far. It writes the record only right after
reading it, and once it has done so it touches nothing but rows.
-/
namespace MailboxAccess

namespace Editor

def edited (editor : Editor) (command : Command) (seen : Option Record) : Acl :=
  (editor.base seen).apply command

def nextVersion : Option Record → UInt64
  | none => Record.firstVersion
  | some record => record.version + 1

/-- The write that puts these bytes in the place of what was read. -/
def replacing (mailbox : MailboxId) (bytes : Bytes) (seen : Option Record) : Request :=
  match seen with
  | none => .insert mailbox bytes
  | some record => .swap mailbox bytes (nextVersion seen) record.version

def written (editor : Editor) (command : Command) (seen : Option Record) : Written where
  old := editor.base seen
  new := editor.edited command seen
  version := nextVersion seen
  corrupt := seen.any fun record => (editor.decode? record.acl).isNone

def commit (editor : Editor) (mailbox : MailboxId) (command : Command) (seen : Option Record) : Commit :=
  ⟨mailbox, nextVersion seen, Diff.between (editor.base seen) (editor.edited command seen)⟩

/-- The record was read, and after that at most the hook was asked; nothing was stored before. -/
structure Attempting (mailbox : MailboxId) (past : List Exchange) (seen : Option Record) : Prop where
  idle : ∀ x ∈ past, x.Idle mailbox
  read : ∃ earlier hooks, past = earlier ++ ⟨.store (.read mailbox), .ok seen⟩ :: hooks ∧
    ∀ x ∈ hooks, ∃ attempt, x.call = .hook mailbox attempt

/-- The one exchange by which the update stored its list, and those around it. -/
structure Replaced (editor : Editor) (mailbox : MailboxId) (command : Command) (seen : Option Record)
    (before : List Exchange) (x : Exchange) (after : List Exchange) : Prop where
  attempting : Attempting mailbox before seen
  call : x.call = .store (replacing mailbox (editor.codec.encode (editor.edited command seen)) seen)
  won : x.won? = some true
  quiet : ∀ y ∈ after, y.stored? mailbox = none ∧ y.won? = none

def Stored (editor : Editor) (mailbox : MailboxId) (command : Command) (seen : Option Record)
    (past : List Exchange) : Prop :=
  ∃ before x, past = before ++ [x] ∧ editor.Replaced mailbox command seen before x []

def Committed (editor : Editor) (mailbox : MailboxId) (command : Command) (seen : Option Record)
    (past : List Exchange) : Prop :=
  ∃ before x after, past = before ++ x :: after ∧ editor.Replaced mailbox command seen before x after

inductive Moves (editor : Editor) (mailbox : MailboxId) (command : Command) (past : List Exchange) :
    Call → Prop where
  | read : Moves editor mailbox command past (.store (.read mailbox))
  | hook {seen : Option Record} {attempt : Nat} {earlier : List Exchange}
      (read : past = earlier ++ [⟨.store (.read mailbox), .ok seen⟩]) :
      Moves editor mailbox command past (.hook mailbox attempt)
  | replace {seen : Option Record} (attempting : Attempting mailbox past seen) :
      Moves editor mailbox command past
        (.store (replacing mailbox (editor.codec.encode (editor.edited command seen)) seen))
  | index {seen : Option Record} {request : Request} (committed : editor.Committed mailbox command seen past)
      (rowwise : request.Rowwise mailbox) : Moves editor mailbox command past (.store request)
  | notify {seen : Option Record} {listener : Nat} (committed : editor.Committed mailbox command seen past) :
      Moves editor mailbox command past (.notify listener (editor.commit mailbox command seen))

inductive Ends (editor : Editor) (mailbox : MailboxId) (command : Command) (past : List Exchange) :
    Except AccessError Commit → Prop where
  | exhausted (idle : ∀ x ∈ past, x.Idle mailbox) :
      Ends editor mailbox command past (.error (.retriesExhausted mailbox editor.attempts))
  | stopped {e : AccessError} {front : List Exchange} {last : Exchange} (idle : ∀ x ∈ past, x.Idle mailbox)
      (split : past = front ++ [last]) (unanswered : last.won? = none) : Ends editor mailbox command past (.error e)
  | unfinished {e : AccessError} {seen : Option Record} (committed : editor.Committed mailbox command seen past)
      (failed : ∃ x ∈ past, x.Failed) : Ends editor mailbox command past (.error e)
  | committed {seen : Option Record} (committed : editor.Committed mailbox command seen past) :
      Ends editor mailbox command past (.ok (editor.commit mailbox command seen))

variable {rely : Exchange → Prop} {editor : Editor} {mailbox : MailboxId} {command : Command}
  {past : List Exchange} {seen : Option Record} {bytes : Bytes}

theorem idle_concat {newest : Exchange} (idle : ∀ x ∈ past, x.Idle mailbox) (last : newest.Idle mailbox) :
    ∀ x ∈ past ++ [newest], x.Idle mailbox := by
  intro x member
  rcases List.mem_append.mp member with earlier | same
  · exact idle x earlier
  · rw [List.mem_singleton.mp same]
    exact last

theorem Attempting.unique {other : Option Record} (first : Attempting mailbox past seen)
    (second : Attempting mailbox past other) : seen = other := by
  rcases first.read with ⟨earlier, hooks, split, asked⟩
  rcases second.read with ⟨earlier', hooks', split', asked'⟩
  rcases split_cases (split.symm.trans split') with ⟨between, -, rfl⟩ | ⟨-, same, -⟩ | ⟨between, -, rfl⟩
  · rcases asked ⟨.store (.read mailbox), .ok other⟩ (by simp) with ⟨attempt, call⟩
    cases call
  · cases same
    rfl
  · rcases asked' ⟨.store (.read mailbox), .ok seen⟩ (by simp) with ⟨attempt, call⟩
    cases call

theorem idle_read (place : MailboxId) (answer : Call.Answer (.store (.read place))) :
    (⟨.store (.read place), answer⟩ : Exchange).Idle mailbox := by
  cases answer <;> exact ⟨rfl, fun _ => rfl⟩

theorem idle_hook (place : MailboxId) (attempt : Nat) (answer : Call.Answer (.hook place attempt)) :
    (⟨.hook place attempt, answer⟩ : Exchange).Idle mailbox := ⟨rfl, fun _ => rfl⟩

theorem idle_of_not_won {place : MailboxId} {x : Exchange}
    (call : x.call = .store (replacing place bytes seen)) (lost : x.won? ≠ some true) : x.Idle mailbox := by
  rcases x with ⟨c, answer⟩
  dsimp only at call
  subst call
  cases seen with
  | none =>
      rcases answer with _ | _ | _
      · exact ⟨rfl, fun _ => rfl⟩
      · exact ⟨ite_self none, fun _ => rfl⟩
      · exact absurd rfl lost
  | some record =>
      rcases answer with _ | _ | _
      · exact ⟨rfl, fun _ => rfl⟩
      · exact ⟨ite_self none, fun _ => rfl⟩
      · exact absurd rfl lost

theorem stored_of_won {x : Exchange} (call : x.call = .store (replacing mailbox bytes seen))
    (won : x.won? = some true) : x.stored? mailbox = some ⟨bytes, nextVersion seen⟩ := by
  rcases x with ⟨c, answer⟩
  dsimp only at call
  subst call
  cases seen with
  | none =>
      rcases answer with _ | _ | _
      · cases won
      · cases won
      · exact if_pos rfl
  | some record =>
      rcases answer with _ | _ | _
      · cases won
      · cases won
      · exact if_pos rfl

theorem won_of_stored {place : MailboxId} {x : Exchange} {record : Record}
    (call : x.call = .store (replacing place bytes seen)) (stored : x.stored? mailbox = some record) :
    place = mailbox ∧ x.won? = some true := by
  by_cases won : x.won? = some true
  · refine ⟨?_, won⟩
    by_contra elsewhere
    rcases x with ⟨c, answer⟩
    dsimp only at call
    subst call
    cases seen <;> cases answer <;> simp [Exchange.stored?, replacing, Request.stored?, elsewhere] at stored
  · have idle : x.Idle mailbox := idle_of_not_won call won
    rw [idle.stored] at stored
    cases stored

/-- The write takes place if the record still has the version that was read. -/
theorem won_eq {x : Exchange} {view : View} {won : Bool}
    (call : x.call = .store (replacing mailbox bytes seen)) (told : x.won? = some won)
    (permitted : view.Permits mailbox x) :
    won = decide (view.record.map Record.version = seen.map Record.version) := by
  rcases x with ⟨c, answer⟩
  dsimp only at call
  subst call
  cases seen with
  | none =>
      cases answer with
      | error => cases told
      | ok created =>
          have same : won = view.record.isNone := by
            cases told
            exact permitted rfl
          rw [same]
          cases view.record <;> rfl
  | some record =>
      cases answer with
      | error => cases told
      | ok swapped =>
          cases told
          exact permitted rfl

theorem won_of_failed {request : Request} {e : StoreError} :
    (⟨.store request, .error e⟩ : Exchange).won? = none := by
  cases request <;> rfl

theorem Stored.committed (stored : editor.Stored mailbox command seen past) :
    editor.Committed mailbox command seen past := by
  rcases stored with ⟨before, x, rfl, replaced⟩
  exact ⟨before, x, [], rfl, replaced⟩

theorem Committed.concat {x : Exchange} (committed : editor.Committed mailbox command seen past)
    (quiet : x.stored? mailbox = none ∧ x.won? = none) :
    editor.Committed mailbox command seen (past ++ [x]) := by
  rcases committed with ⟨before, y, after, rfl, replaced⟩
  refine ⟨before, y, after ++ [x], by simp, replaced.attempting, replaced.call, replaced.won, ?_⟩
  intro z member
  rcases List.mem_append.mp member with earlier | last
  · exact replaced.quiet z earlier
  · rw [List.mem_singleton.mp last]
    exact quiet

theorem Committed.upkeep {x : Exchange} (committed : editor.Committed mailbox command seen past)
    (upkeep : Upkeep mailbox x.call) : editor.Committed mailbox command seen (past ++ [x]) :=
  committed.concat upkeep.quiet

/-- Something other than a lost race has stopped the update before it stored anything. -/
structure Stopped (mailbox : MailboxId) (past : List Exchange) : Prop where
  idle : ∀ x ∈ past, x.Idle mailbox
  last : ∃ front last, past = front ++ [last] ∧ last.won? = none

def Ready (mailbox : MailboxId) (seen : Option Record) : List Exchange → Except AccessError Unit → Prop
  | past, .ok _ => Attempting mailbox past seen
  | past, .error _ => Stopped mailbox past

def Tried (editor : Editor) (mailbox : MailboxId) (command : Command) :
    List Exchange → Except AccessError (Option Written) → Prop
  | past, .ok (some written) =>
    ∃ seen, editor.Stored mailbox command seen past ∧ written = editor.written command seen
  | past, .ok none => ∀ x ∈ past, x.Idle mailbox
  | past, .error _ => Stopped mailbox past

theorem beforeWrite_meets {earlier : List Exchange} {attempt : Nat} (idle : ∀ x ∈ past, x.Idle mailbox)
    (read : past = earlier ++ [⟨.store (.read mailbox), .ok seen⟩]) :
    (editor.beforeWrite mailbox attempt).Meets rely (fun past x => editor.Moves mailbox command past x.call)
      (Ready mailbox seen) past := by
  refine Plan.Meets.ite ?_ ?_
  · intro _ answer _
    have later : ∀ x ∈ past ++ [⟨.hook mailbox attempt, answer⟩], x.Idle mailbox :=
      idle_concat idle (idle_hook mailbox attempt answer)
    refine ⟨.hook read, ?_⟩
    cases answer with
    | ok reply =>
        refine ⟨later, earlier, [⟨.hook mailbox attempt, .ok reply⟩], by simp [read], ?_⟩
        intro x member
        rw [List.mem_singleton.mp member]
        exact ⟨attempt, rfl⟩
    | error e => exact ⟨later, past, _, rfl, rfl⟩
  · intro _
    exact ⟨idle, earlier, [], read, nofun⟩

theorem write_meets (request : Request) (won : request.Reply → Bool)
    (replaces : request = replacing mailbox (editor.codec.encode (editor.edited command seen)) seen)
    (told : ∀ reply, (⟨.store request, .ok reply⟩ : Exchange).won? = some (won reply))
    (attempting : Attempting mailbox past seen) :
    (Plan.ask request >>= fun reply =>
        pure (if won reply then some (editor.written command seen) else none)).Meets rely
      (fun past x => editor.Moves mailbox command past x.call) (editor.Tried mailbox command) past := by
  have call : (Call.store request) =
      .store (replacing mailbox (editor.codec.encode (editor.edited command seen)) seen) := by rw [replaces]
  have move : editor.Moves mailbox command past (.store request) := call ▸ .replace attempting
  refine Plan.Meets.ask_bind (fun _ _ => move) ?_ ?_
  · intro reply _
    cases outcome : won reply with
    | true => exact ⟨seen, ⟨past, _, rfl, attempting, call, by rw [told, outcome], nofun⟩, rfl⟩
    | false =>
        have lost : (⟨.store request, .ok reply⟩ : Exchange).won? ≠ some true := by simp [told, outcome]
        exact idle_concat attempting.idle (idle_of_not_won call lost)
  · intro e
    have unanswered : (⟨.store request, .error e⟩ : Exchange).won? = none := won_of_failed
    have lost : (⟨.store request, .error e⟩ : Exchange).won? ≠ some true := by simp [unanswered]
    exact ⟨idle_concat attempting.idle (idle_of_not_won call lost), past, _, rfl, unanswered⟩

theorem tryOnce_meets {attempt : Nat} (idle : ∀ x ∈ past, x.Idle mailbox) :
    (editor.tryOnce mailbox command attempt).Meets rely
      (fun past x => editor.Moves mailbox command past x.call) (editor.Tried mailbox command) past := by
  refine Plan.Meets.ask_bind (fun _ _ => .read) ?_ ?_
  · intro seen _
    have shown := idle_concat idle (idle_read mailbox (.ok seen))
    cases seen with
    | none =>
        refine (beforeWrite_meets shown rfl).bind ?_ (fun _ _ stopped => stopped)
        intro past _ attempting
        exact write_meets (.insert mailbox _) (fun created => created) rfl (fun _ => rfl) attempting
    | some record =>
        refine (beforeWrite_meets shown rfl).bind ?_ (fun _ _ stopped => stopped)
        intro past _ attempting
        exact write_meets (.swap mailbox _ _ _) (fun swapped => swapped) rfl (fun _ => rfl) attempting
  · intro e
    exact ⟨idle_concat idle (idle_read mailbox (.error e)), past, _, rfl, rfl⟩

def Wrote (editor : Editor) (mailbox : MailboxId) (command : Command) :
    List Exchange → Except AccessError Written → Prop
  | past, .ok written =>
    ∃ seen, editor.Stored mailbox command seen past ∧ written = editor.written command seen
  | past, .error e => editor.Ends mailbox command past (.error e)

theorem tryFrom_meets {left attempt : Nat} (idle : ∀ x ∈ past, x.Idle mailbox) :
    (editor.tryFrom mailbox command left attempt).Meets rely
      (fun past x => editor.Moves mailbox command past x.call) (editor.Wrote mailbox command) past := by
  induction left generalizing attempt past with
  | zero => exact .exhausted idle
  | succ left ih =>
      refine (tryOnce_meets idle).bind ?_ ?_
      · intro past outcome tried
        cases outcome with
        | some written => exact tried
        | none => exact ih tried
      · intro past e stopped
        rcases stopped.last with ⟨front, last, split, unanswered⟩
        exact .stopped stopped.idle split unanswered

theorem announce_meets {listeners : List Nat} (committed : editor.Committed mailbox command seen past) :
    (announce (editor.commit mailbox command seen) listeners).Meets rely
      (fun past x => editor.Moves mailbox command past x.call)
      (fun past result => editor.Committed mailbox command seen past ∧ result = .ok ()) past := by
  induction listeners generalizing past with
  | nil => exact ⟨committed, rfl⟩
  | cons listener listeners ih =>
      intro answer _
      exact ⟨.notify committed, ih (committed.concat ⟨rfl, rfl⟩)⟩

theorem update_meets :
    (editor.update mailbox command).Meets rely (fun past x => editor.Moves mailbox command past x.call)
      (editor.Ends mailbox command) [] := by
  have fresh : ∀ x ∈ ([] : List Exchange), x.Idle mailbox := nofun
  refine (tryFrom_meets fresh).bind ?_ (fun _ _ ends => ends)
  intro past written wrote
  rcases wrote with ⟨seen, stored, rfl⟩
  have committed := stored.committed
  have moves (past : List Exchange) (x : Exchange)
      (upkeep : editor.Committed mailbox command seen past ∧ Upkeep mailbox x.call) :
      editor.Moves mailbox command past x.call := by
    rcases x with ⟨c, answer⟩
    rcases upkeep with ⟨committed, kind⟩
    cases kind with
    | read => exact .read
    | rows rowwise => exact .index committed rowwise
  refine (((editor.coder.syncIndex_meets editor _ _ past).keep (editor.Committed mailbox command seen) committed
    fun _ _ => .upkeep).mono moves fun _ _ => id).bind ?_ ?_
  · intro past _ synced
    refine (announce_meets synced.1).bind ?_ ?_
    · intro past _ announced
      exact .committed announced.1
    · intro past e announced
      cases announced.2
  · intro past e synced
    exact .unfinished synced.1 (Faultless.failed synced.2)

theorem Committed.last_won {front : List Exchange} {last : Exchange}
    (committed : editor.Committed mailbox command seen (front ++ [last])) : last.won? ≠ some false := by
  rcases committed with ⟨before, y, after, split, replaced⟩
  rcases split_concat split with ⟨-, rfl, -⟩ | ⟨between, rfl, -⟩
  · rw [replaced.won]
    decide
  · rw [(replaced.quiet last (by simp)).2]
    exact nofun

theorem Moves.after_lost {front : List Exchange} {last : Exchange} {c : Call}
    (moves : editor.Moves mailbox command (front ++ [last]) c) (lost : last.won? = some false) :
    c = .store (.read mailbox) := by
  cases moves with
  | read => rfl
  | hook read =>
      rcases List.append_inj' read rfl with ⟨-, same⟩
      cases same
      cases lost
  | replace attempting =>
      rcases attempting.read with ⟨earlier, hooks, split, asked⟩
      rcases split_concat split with ⟨-, rfl, -⟩ | ⟨between, rfl, -⟩
      · cases lost
      · rcases asked last (by simp) with ⟨attempt, call⟩
        rcases last with ⟨c, answer⟩
        cases call
        cases lost
  | index committed => exact absurd lost committed.last_won
  | notify committed => exact absurd lost committed.last_won

theorem Ends.after_lost {front : List Exchange} {last : Exchange} {result : Except AccessError Commit}
    (ends : editor.Ends mailbox command (front ++ [last]) result) (lost : last.won? = some false) :
    result = .error (.retriesExhausted mailbox editor.attempts) := by
  cases ends with
  | exhausted => rfl
  | stopped idle split unanswered =>
      rcases List.append_inj' split rfl with ⟨-, same⟩
      cases same
      rw [lost] at unanswered
      cases unanswered
  | unfinished committed => exact absurd lost committed.last_won
  | committed committed => exact absurd lost committed.last_won

end Editor

end MailboxAccess
