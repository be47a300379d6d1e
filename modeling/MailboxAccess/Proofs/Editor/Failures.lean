import MailboxAccess.Task
import MailboxAccess.Proofs.Editor.Rounds

/-!
How an update fails, and what it has done by then. Either nothing was stored, because every attempt was lost or one
could not be made, or one attempt was won and the rows could not be brought up to date (`Coder.task_fails`).
-/
namespace MailboxAccess

/-- What precedes the conditional write of an attempt: the record is read, and the hook lets the write pass. -/
def Editor.opening (editor : Editor) (mailbox : MailboxId) (attempt : Nat) (seen : Option Record) : List Exchange :=
  ⟨.store (.read mailbox), .ok seen⟩ :: if editor.hooked then [⟨.hook mailbox attempt, .ok ()⟩] else []

def Editor.Spares (editor : Editor) (past : List Exchange) : Prop := losses past < editor.attempts

theorem Editor.losses_opening (editor : Editor) (mailbox : MailboxId) (attempt : Nat) (seen : Option Record) :
    losses (editor.opening mailbox attempt seen) = 0 := by
  unfold opening
  split <;> rfl

theorem Editor.Spares.concat {editor : Editor} {past : List Exchange} {newest : Exchange} (spares : editor.Spares past)
    (kept : newest.won? ≠ some false) : editor.Spares (past ++ [newest]) := by
  rwa [Spares, losses_concat_of_ne kept]

theorem Editor.Spares.opening {editor : Editor} {mailbox : MailboxId} {past : List Exchange} {seen : Option Record}
    (spares : editor.Spares past) (attempt : Nat) : editor.Spares (past ++ editor.opening mailbox attempt seen) := by
  rwa [Spares, losses_append, losses_opening]

namespace Coder

def edited (coder : Coder) (command : Command) (seen : Option Record) : Acl := (coder.base seen).apply command

inductive Beaten (coder : Coder) (editor : Editor) (mailbox : MailboxId) (command : Command) :
    Nat → List Exchange → Prop where
  | fresh : Beaten coder editor mailbox command 0 []
  | again {lost : Nat} {past : List Exchange} {seen : Option Record} {bytes : Bytes} {x : Exchange}
      (beaten : Beaten coder editor mailbox command lost past)
      (encoded : coder.encode (coder.edited command seen) = .ok bytes)
      (call : x.call = .store (Editor.replacing mailbox bytes seen)) (refused : x.won? = some false) :
      Beaten coder editor mailbox command (lost + 1) (past ++ editor.opening mailbox (lost + 1) seen ++ [x])

inductive Barred (coder : Coder) (editor : Editor) (mailbox : MailboxId) (command : Command) :
    List Exchange → AccessError → Prop where
  | exhausted {past : List Exchange} (beaten : coder.Beaten editor mailbox command editor.attempts past) :
      Barred coder editor mailbox command past (.retriesExhausted mailbox editor.attempts)
  | unread {lost : Nat} {past : List Exchange} {e : StoreError}
      (beaten : coder.Beaten editor mailbox command lost past) (left : lost < editor.attempts) :
      Barred coder editor mailbox command (past ++ [⟨.store (.read mailbox), .error e⟩]) (.store e)
  | unencoded {lost : Nat} {past : List Exchange} {seen : Option Record} {e : FormatError}
      (beaten : coder.Beaten editor mailbox command lost past) (left : lost < editor.attempts)
      (failed : coder.encode (coder.edited command seen) = .error e) :
      Barred coder editor mailbox command (past ++ [⟨.store (.read mailbox), .ok seen⟩]) (.format e)
  | refused {lost : Nat} {past : List Exchange} {seen : Option Record} {e : AccessError}
      (beaten : coder.Beaten editor mailbox command lost past) (left : lost < editor.attempts)
      (hooked : editor.hooked = true) :
      Barred coder editor mailbox command
        (past ++ [⟨.store (.read mailbox), .ok seen⟩, ⟨.hook mailbox (lost + 1), .error e⟩]) e
  | unwritten {lost : Nat} {past : List Exchange} {seen : Option Record} {bytes : Bytes} {e : StoreError}
      (beaten : coder.Beaten editor mailbox command lost past) (left : lost < editor.attempts)
      (encoded : coder.encode (coder.edited command seen) = .ok bytes) :
      Barred coder editor mailbox command
        (past ++ editor.opening mailbox (lost + 1) seen ++ [⟨.store (Editor.replacing mailbox bytes seen), .error e⟩])
        (.store e)

/-- After some lost attempts the update has stored these bytes in place of `seen` by the exchange `x`. -/
structure Won (coder : Coder) (editor : Editor) (mailbox : MailboxId) (command : Command) (seen : Option Record)
    (bytes : Bytes) (before : List Exchange) (x : Exchange) : Prop where
  opened : ∃ lost earlier, coder.Beaten editor mailbox command lost earlier ∧ lost < editor.attempts ∧
    before = earlier ++ editor.opening mailbox (lost + 1) seen
  encoded : coder.encode (coder.edited command seen) = .ok bytes
  call : x.call = .store (Editor.replacing mailbox bytes seen)
  won : x.won? = some true

/-- The record was stored, and the last of the requests that bring the rows up to date has failed. -/
structure Unfinished (coder : Coder) (editor : Editor) (mailbox : MailboxId) (command : Command) (seen : Option Record)
    (bytes : Bytes) (before : List Exchange) (x : Exchange) (after : List Exchange) (e : AccessError) : Prop
    extends coder.Won editor mailbox command seen bytes before x where
  upkeep : ∀ y ∈ after, Upkeep mailbox y.call
  last : ∃ between request cause, after = between ++ [⟨.store request, .error cause⟩] ∧ e = .store cause

inductive Ends (coder : Coder) (editor : Editor) (mailbox : MailboxId) (command : Command) (past : List Exchange) :
    Except AccessError Outcome → Prop where
  | done {outcome : Outcome} (spares : editor.Spares past) : Ends coder editor mailbox command past (.ok outcome)
  | barred {e : AccessError} (barred : coder.Barred editor mailbox command past e) :
      Ends coder editor mailbox command past (.error e)
  | unfinished {seen : Option Record} {bytes : Bytes} {before : List Exchange} {x : Exchange} {after : List Exchange}
      {e : AccessError} (split : past = before ++ x :: after)
      (unfinished : coder.Unfinished editor mailbox command seen bytes before x after e) :
      Ends coder editor mailbox command past (.error e)

section Attempts

variable {rely : Exchange → Prop} {coder : Coder} {editor : Editor} {mailbox : MailboxId} {command : Command}
  {past : List Exchange} {lost : Nat} {seen : Option Record}

theorem Beaten.losses_eq (beaten : coder.Beaten editor mailbox command lost past) : losses past = lost := by
  induction beaten with
  | fresh => rfl
  | again beaten encoded call refused ih =>
      rw [losses_concat_of_lost refused, losses_append, ih, Editor.losses_opening]

theorem Beaten.spares (beaten : coder.Beaten editor mailbox command lost past) (left : lost < editor.attempts) :
    editor.Spares past := by
  rwa [Editor.Spares, beaten.losses_eq]

def Opened (editor : Editor) (mailbox : MailboxId) (attempt : Nat) (seen : Option Record) (before : List Exchange) :
    List Exchange → Except AccessError Unit → Prop
  | past, .ok _ => past = before ++ editor.opening mailbox attempt seen
  | past, .error e => editor.hooked = true ∧
      past = before ++ [⟨.store (.read mailbox), .ok seen⟩, ⟨.hook mailbox attempt, .error e⟩]

theorem beforeWrite_opens (spares : editor.Spares past) (attempt : Nat) :
    (editor.beforeWrite mailbox attempt).Meets rely (fun past _ => editor.Spares past)
      (Opened editor mailbox attempt seen past) (past ++ [⟨.store (.read mailbox), .ok seen⟩]) := by
  refine Plan.Meets.ite ?_ ?_
  · intro hooked answer _
    refine ⟨spares.concat nofun, ?_⟩
    rw [List.append_assoc]
    cases answer with
    | ok reply =>
        change past ++ _ = past ++ editor.opening mailbox attempt seen
        rw [Editor.opening, if_pos hooked]
        rfl
    | error e => exact ⟨hooked, rfl⟩
  · intro unhooked
    change past ++ _ = past ++ editor.opening mailbox attempt seen
    rw [Editor.opening, if_neg unhooked]

def Tried (coder : Coder) (editor : Editor) (mailbox : MailboxId) (command : Command) (lost : Nat) :
    List Exchange → Except AccessError (Option Written) → Prop
  | past, .ok none => coder.Beaten editor mailbox command (lost + 1) past
  | past, .ok (some _) => ∃ seen bytes before x, past = before ++ [x] ∧
      coder.Won editor mailbox command seen bytes before x
  | past, .error e => coder.Barred editor mailbox command past e

theorem write_tries (seen : Option Record) {written : Written} (beaten : coder.Beaten editor mailbox command lost past)
    (left : lost < editor.attempts) (request : Bytes → Request) (won : ∀ bytes, (request bytes).Reply → Bool)
    (replaces : ∀ bytes, request bytes = Editor.replacing mailbox bytes seen)
    (told : ∀ bytes reply, (⟨.store (request bytes), .ok reply⟩ : Exchange).won? = some (won bytes reply)) :
    (coder.write (coder.edited command seen) >>= fun bytes => editor.beforeWrite mailbox (lost + 1) >>= fun _ =>
        Plan.ask (request bytes) >>= fun reply => pure (if won bytes reply then some written else none)).Meets rely
      (fun past _ => editor.Spares past) (coder.Tried editor mailbox command lost)
      (past ++ [⟨.store (.read mailbox), .ok seen⟩]) := by
  have spares := beaten.spares left
  cases encoded : coder.encode (coder.edited command seen) with
  | error e =>
      rw [write, encoded]
      exact .unencoded beaten left encoded
  | ok bytes =>
      rw [write, encoded]
      refine (beforeWrite_opens spares (lost + 1)).bind ?_ ?_
      · intro opened _ same
        subst same
        have call : Call.store (request bytes) = .store (Editor.replacing mailbox bytes seen) := by rw [replaces]
        refine Plan.Meets.ask_bind (fun _ _ => spares.opening (lost + 1)) ?_ ?_
        · intro reply _
          cases outcome : won bytes reply with
          | true =>
              exact ⟨seen, bytes, _, _, rfl, ⟨lost, past, beaten, left, rfl⟩, encoded, call, by rw [told, outcome]⟩
          | false => exact .again beaten encoded call (by rw [told, outcome])
        · intro e
          rw [replaces]
          exact .unwritten beaten left encoded
      · intro stopped e refused
        rcases refused with ⟨hooked, rfl⟩
        exact .refused beaten left hooked

theorem tryOnce_tries (beaten : coder.Beaten editor mailbox command lost past) (left : lost < editor.attempts) :
    (coder.tryOnce editor mailbox command (lost + 1)).Meets rely (fun past _ => editor.Spares past)
      (coder.Tried editor mailbox command lost) past := by
  have spares := beaten.spares left
  refine Plan.Meets.ask_bind (fun _ _ => spares) ?_ (fun _ => .unread beaten left)
  intro seen _
  cases seen with
  | none =>
      exact write_tries none beaten left (.insert mailbox) (fun _ created => created) (fun _ => rfl) fun _ _ => rfl
  | some record =>
      exact write_tries (some record) beaten left (fun bytes => .swap mailbox bytes _ _)
        (fun _ swapped => swapped) (fun _ => rfl) fun _ _ => rfl

def Wrote (coder : Coder) (editor : Editor) (mailbox : MailboxId) (command : Command) :
    List Exchange → Except AccessError Written → Prop
  | past, .ok _ => ∃ seen bytes before x, past = before ++ [x] ∧ coder.Won editor mailbox command seen bytes before x
  | past, .error e => coder.Barred editor mailbox command past e

theorem tryFrom_tries {left : Nat} (beaten : coder.Beaten editor mailbox command lost past)
    (budget : lost + left = editor.attempts) :
    (coder.tryFrom editor mailbox command left (lost + 1)).Meets rely (fun past _ => editor.Spares past)
      (coder.Wrote editor mailbox command) past := by
  induction left generalizing lost past with
  | zero =>
      cases budget
      exact .exhausted beaten
  | succ left ih =>
      refine (tryOnce_tries beaten (by omega)).bind ?_ (fun _ _ barred => barred)
      intro past outcome tried
      cases outcome with
      | some written => exact tried
      | none => exact ih tried (by omega)

end Attempts

section Update

variable {rely : Exchange → Prop} {coder : Coder} {editor : Editor} {mailbox : MailboxId} {command : Command}
  {past : List Exchange}

theorem announce_spares {commit : Commit} {listeners : List Nat} (spares : editor.Spares past) :
    (Editor.announce commit listeners).Meets rely (fun past _ => editor.Spares past)
      (fun past result => editor.Spares past ∧ result = .ok ()) past := by
  induction listeners generalizing past with
  | nil => exact ⟨spares, rfl⟩
  | cons listener listeners ih =>
      intro coped _
      exact ⟨spares, ih (spares.concat nofun)⟩

variable {seen : Option Record} {bytes : Bytes} {before : List Exchange} {x : Exchange}

def Upkept (mailbox : MailboxId) (before : List Exchange) (x : Exchange) (past : List Exchange) : Prop :=
  ∃ after, past = before ++ x :: after ∧ ∀ y ∈ after, Upkeep mailbox y.call

theorem Upkept.concat {y : Exchange} (upkept : Upkept mailbox before x past) (upkeep : Upkeep mailbox y.call) :
    Upkept mailbox before x (past ++ [y]) := by
  rcases upkept with ⟨after, rfl, earlier⟩
  refine ⟨after ++ [y], by simp, ?_⟩
  intro z member
  rcases List.mem_append.mp member with old | newest
  · exact earlier z old
  · rw [List.mem_singleton.mp newest]
    exact upkeep

theorem Won.spares (won : coder.Won editor mailbox command seen bytes before x)
    (upkept : Upkept mailbox before x past) : editor.Spares past := by
  rcases upkept with ⟨after, rfl, upkeep⟩
  rcases won.opened with ⟨lost, earlier, beaten, left, rfl⟩
  have kept : x.won? ≠ some false := by simp [won.won]
  have spares : editor.Spares (earlier ++ editor.opening mailbox (lost + 1) seen ++ [x]) :=
    ((beaten.spares left).opening (lost + 1)).concat kept
  have quiet : losses after = 0 := by
    refine List.countP_eq_zero.mpr ?_
    intro y member
    have silent : y.stored? mailbox = none ∧ y.won? = none := (upkeep y member).quiet
    simp [silent.2]
  rw [List.append_cons, Editor.Spares, losses_append, quiet]
  exact spares

theorem Won.unfinished {after : List Exchange} {e : AccessError}
    (won : coder.Won editor mailbox command seen bytes before x) (upkeep : ∀ y ∈ after, Upkeep mailbox y.call)
    (faultless : Faultless (before ++ x :: after) (.error e : Except AccessError Unit)) :
    coder.Unfinished editor mailbox command seen bytes before x after e where
  toWon := won
  upkeep := upkeep
  last := by
    rcases faultless e rfl with ⟨front, request, cause, split, rfl⟩
    rcases split_concat split.symm with ⟨-, rfl, -⟩ | ⟨between, rfl, -⟩
    · have unanswered := won.won
      rw [Editor.won_of_failed] at unanswered
      cases unanswered
    · exact ⟨between, request, cause, rfl, rfl⟩

theorem update_fails :
    (coder.update editor mailbox command).Meets rely (fun past _ => editor.Spares past)
      (fun past result => coder.Ends editor mailbox command past (result.map .committed)) [] := by
  refine (tryFrom_tries .fresh (Nat.zero_add _)).bind ?_ (fun _ _ barred => .barred barred)
  intro past written wrote
  rcases wrote with ⟨seen, bytes, before, x, rfl, won⟩
  -- from here on the attempt is won, and only the rows are seen to
  have upkept : Upkept mailbox before x (before ++ [x]) := ⟨[], rfl, List.forall_mem_nil _⟩
  refine (((coder.syncIndex_meets editor written _ _).keep (Upkept mailbox before x) upkept
    fun _ _ => Upkept.concat).mono ?_
    fun _ _ => id).bind ?_ ?_
  · intro past y both
    exact won.spares both.1
  · intro past _ synced
    refine (announce_spares (won.spares synced.1)).bind ?_ ?_
    · intro past _ told
      exact .done told.1
    · intro past e told
      cases told.2
  · intro past e synced
    rcases synced with ⟨⟨after, rfl, upkeep⟩, faultless⟩
    exact .unfinished rfl (won.unfinished upkeep faultless)

theorem task_fails :
    (coder.task editor mailbox command).Meets rely (fun past _ => editor.Spares past)
      (coder.Ends editor mailbox command) [] := by
  refine update_fails.bind (fun _ _ ends => ends) ?_
  intro past e ends
  exact ends

theorem Ends.exhausted_or_spares {result : Except AccessError Outcome}
    (ends : coder.Ends editor mailbox command past result) :
    (coder.Beaten editor mailbox command editor.attempts past ∧
        result = .error (.retriesExhausted mailbox editor.attempts)) ∨ editor.Spares past := by
  cases ends with
  | done spares => exact .inr spares
  | unfinished split unfinished => exact .inr (unfinished.toWon.spares ⟨_, split, unfinished.upkeep⟩)
  | barred barred =>
      cases barred with
      | exhausted beaten => exact .inl ⟨beaten, rfl⟩
      | unread beaten left => exact .inr ((beaten.spares left).concat nofun)
      | unencoded beaten left failed => exact .inr ((beaten.spares left).concat nofun)
      | refused beaten left hooked =>
          rw [List.append_cons]
          refine .inr (((beaten.spares left).concat ?_).concat ?_)
          · exact nofun
          · exact nofun
      | unwritten beaten left encoded =>
          exact .inr (((beaten.spares left).opening _).concat (by simp [Editor.won_of_failed]))

end Update

end Coder

end MailboxAccess
