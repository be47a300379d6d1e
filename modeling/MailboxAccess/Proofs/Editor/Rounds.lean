import MailboxAccess.Proofs.Editor.Knowledge

namespace MailboxAccess

def Exchange.error? : Exchange → Option AccessError
  | ⟨.store _, .error cause⟩ => some (.store cause)
  | ⟨.hook _ _, .error e⟩ => some e
  | _ => none

def Raised (past : List Exchange) (e : AccessError) : Prop :=
  ∃ front x, past = front ++ [x] ∧ x.error? = some e

def losses (past : List Exchange) : Nat := past.countP fun x => x.won? == some false

theorem losses_append (earlier later : List Exchange) : losses (earlier ++ later) = losses earlier + losses later :=
  List.countP_append

theorem losses_concat_of_ne {past : List Exchange} {newest : Exchange} (kept : newest.won? ≠ some false) :
    losses (past ++ [newest]) = losses past := by
  rw [losses_append]
  simp [losses, kept]

theorem losses_concat_of_lost {past : List Exchange} {newest : Exchange} (lost : newest.won? = some false) :
    losses (past ++ [newest]) = losses past + 1 := by
  rw [losses_append]
  simp [losses, lost]

def sightings (mailbox : MailboxId) (past : List Exchange) : List UInt64 :=
  past.filterMap fun x => (x.shown? mailbox).map Record.version

theorem sightings_append (mailbox : MailboxId) (earlier later : List Exchange) :
    sightings mailbox (earlier ++ later) = sightings mailbox earlier ++ sightings mailbox later :=
  List.filterMap_append

theorem sightings_concat_of_none {mailbox : MailboxId} {past : List Exchange} {newest : Exchange}
    (silent : newest.shown? mailbox = none) : sightings mailbox (past ++ [newest]) = sightings mailbox past := by
  rw [sightings_append]
  simp [sightings, silent]

theorem sightings_concat_of_some {mailbox : MailboxId} {past : List Exchange} {newest : Exchange} {record : Record}
    (shown : newest.shown? mailbox = some record) :
    sightings mailbox (past ++ [newest]) = sightings mailbox past ++ [record.version] := by
  rw [sightings_append]
  simp [sightings, shown]

/-- Since the operation stored the record it has seen it so many times, always at another version than the
time before, and last at this one. -/
structure Chases (mailbox : MailboxId) (rounds : Nat) (known : UInt64) (past : List Exchange) : Prop where
  since : ∃ before x after record, past = before ++ x :: after ∧ x.stored? mailbox = some record ∧
    (record.version :: sightings mailbox after).IsChain (· ≠ ·) ∧ (sightings mailbox after).length = rounds
  last : (sightings mailbox past).getLast? = some known

/-- The last request, announcements apart, has shown the record at the version that was known before. -/
def Found (mailbox : MailboxId) (past : List Exchange) : Prop :=
  ∃ front record, Settled mailbox front record past ∧ (sightings mailbox front).getLast? = some record.version

def Vanished (mailbox : MailboxId) (past : List Exchange) : Prop :=
  ∃ before after, past = before ++ ⟨.store (.read mailbox), .ok none⟩ :: after ∧
    ∃ x ∈ before, x.stored? mailbox ≠ none

/-- How bringing the rows up to date may end. -/
inductive Resolved (mailbox : MailboxId) (rounds : Nat) (past : List Exchange) : Prop where
  | found (found : Found mailbox past) : Resolved mailbox rounds past
  | vanished (vanished : Vanished mailbox past) : Resolved mailbox rounds past
  | overrun {known : UInt64} (chases : Chases mailbox rounds known past) : Resolved mailbox rounds past

section Chases

variable {mailbox : MailboxId} {rounds : Nat} {known : UInt64} {past : List Exchange}

theorem Exchange.shown_of_stored {x : Exchange} {record : Record} (stored : x.stored? mailbox = some record) :
    x.shown? mailbox = some record := by
  unfold shown?
  split
  · cases stored
  · exact stored

theorem Call.Rowwise.unshown {place : MailboxId} {x : Exchange} (rowwise : x.call.Rowwise place) :
    x.shown? mailbox = none := by
  rcases x with ⟨c, answer⟩
  cases c with
  | store request =>
      cases request with
      | upsert => cases answer <;> rfl
      | delete => cases answer <;> rfl
      | listMailbox => cases answer <;> rfl
      | _ => cases rowwise
  | _ => cases rowwise

theorem Exchange.silent_of_hook {x : Exchange} {place : MailboxId} {attempt : Nat}
    (hook : x.call = .hook place attempt) : x.stored? mailbox = none ∧ x.won? = none := by
  rcases x with ⟨c, answer⟩
  cases hook
  exact ⟨rfl, rfl⟩

theorem chases_of_stored {before : List Exchange} {x : Exchange} {record : Record}
    (stored : x.stored? mailbox = some record) : Chases mailbox 0 record.version (before ++ [x]) where
  since := ⟨before, x, [], record, rfl, stored, List.isChain_singleton _, rfl⟩
  last := by
    rw [sightings_concat_of_some (Exchange.shown_of_stored stored)]
    exact List.getLast?_concat

theorem Chases.concat_of_none {newest : Exchange} (chases : Chases mailbox rounds known past)
    (silent : newest.shown? mailbox = none) : Chases mailbox rounds known (past ++ [newest]) where
  since := by
    rcases chases.since with ⟨before, x, after, record, rfl, stored, chain, length⟩
    refine ⟨before, x, after ++ [newest], record, by simp, stored, ?_, ?_⟩
    · rwa [sightings_concat_of_none silent]
    · rwa [sightings_concat_of_none silent]
  last := by
    rw [sightings_concat_of_none silent]
    exact chases.last

theorem Chases.concat_of_some {newest : Exchange} {record : Record} (chases : Chases mailbox rounds known past)
    (shown : newest.shown? mailbox = some record) (moved : record.version ≠ known) :
    Chases mailbox (rounds + 1) record.version (past ++ [newest]) where
  since := by
    have last := chases.last
    rcases chases.since with ⟨before, x, after, first, rfl, stored, chain, length⟩
    have seen : sightings mailbox (x :: after) = first.version :: sightings mailbox after := by
      simp [sightings, Exchange.shown_of_stored stored]
    refine ⟨before, x, after ++ [newest], first, by simp, stored, ?_, ?_⟩
    · rw [sightings_concat_of_some shown, ← List.cons_append, List.isChain_append]
      refine ⟨chain, List.isChain_singleton _, ?_⟩
      intro older same newer last'
      rw [sightings_append, seen] at last
      rw [List.getLast?_append_of_ne_nil _ (List.cons_ne_nil _ _), Option.mem_def.mp same] at last
      cases last
      cases last'
      exact moved.symm
    · rw [sightings_concat_of_some shown, List.length_append, length]
      rfl
  last := by
    rw [sightings_concat_of_some shown]
    exact List.getLast?_concat

theorem Resolved.concat_notify {listener : Nat} {commit : Commit} (resolved : Resolved mailbox rounds past)
    (coped : Call.Answer (.notify listener commit)) :
    Resolved mailbox rounds (past ++ [⟨.notify listener commit, coped⟩]) := by
  cases resolved with
  | found found =>
      rcases found with ⟨front, record, ⟨tail, rfl, announced⟩, known⟩
      refine .found ⟨front, record, ⟨tail ++ [⟨.notify listener commit, coped⟩], by simp, ?_⟩, known⟩
      intro x member
      rcases List.mem_append.mp member with earlier | newest
      · exact announced x earlier
      · rw [List.mem_singleton.mp newest]
        exact ⟨listener, commit, rfl⟩
  | vanished vanished =>
      rcases vanished with ⟨before, after, rfl, stored⟩
      exact .vanished ⟨before, after ++ [⟨.notify listener commit, coped⟩], by simp, stored⟩
  | overrun chases => exact .overrun (chases.concat_of_none rfl)

end Chases

def Task.writes (mailbox : MailboxId) : Task → Bool
  | update _ place _ => place = mailbox
  | reset _ place _ => place = mailbox
  | read _ _ => false

section Rounds

variable {rely : Exchange → Prop} {editor : Editor} {mailbox : MailboxId} {command : Command} {rounds : Nat}
  {known : UInt64} {past : List Exchange}

theorem Plan.Meets.chases {α : Type} {plan : Plan α} {post : List Exchange → Except AccessError α → Prop}
    (meets : plan.Meets rely (fun _ x => x.call.Rowwise mailbox) post past)
    (chases : Chases mailbox rounds known past) :
    plan.Meets rely (fun _ _ => True) (Plan.Returns fun past _ => Chases mailbox rounds known past) past := by
  refine (meets.keep _ chases fun past x chases rowwise => chases.concat_of_none rowwise.unshown).mono
    (fun _ _ _ => trivial) ?_
  intro past result kept a _
  exact kept.1

theorem Editor.settle_resolves {left total : Nat} (chases : Chases mailbox rounds known past)
    (budget : rounds + left = total) :
    (editor.settle mailbox left known).Meets rely (fun _ _ => True)
      (Plan.Returns fun past _ => Resolved mailbox total past) past := by
  induction left generalizing rounds known past with
  | zero =>
      cases budget
      exact Plan.returns_ok (.overrun chases)
  | succ left ih =>
      refine Coder.getVersioned_bind (fun _ _ => trivial) ?_ (fun _ => Plan.returns_error)
      intro seen _
      cases seen with
      | none =>
          rcases chases.since with ⟨before, x, after, record, rfl, stored, -⟩
          refine Plan.returns_ok (.vanished ⟨before ++ x :: after, [], rfl, x, by simp, ?_⟩)
          rw [stored]
          exact nofun
      | some record =>
          refine Plan.Meets.ite ?_ ?_
          · intro same
            refine Plan.returns_ok (.found ⟨past, record, ⟨[], rfl, nofun⟩, ?_⟩)
            rw [chases.last, show record.version = known from same]
          · intro moved
            have next := chases.concat_of_some
              (show (⟨.store (.read mailbox), .ok (some record)⟩ : Exchange).shown? mailbox = some record from
                if_pos rfl) moved
            refine ((Index.repair_meets _ _).chases next).bind_returns ?_
            intro past _ chases
            exact ih chases (by omega)

theorem Editor.syncIndex_resolves {written : Written} {diff : Diff}
    (chases : Chases mailbox 0 written.version past) :
    (editor.syncIndex mailbox written diff).Meets rely (fun _ _ => True)
      (Plan.Returns fun past _ => Resolved mailbox editor.attempts past) past := by
  have settles (past : List Exchange) (chases : Chases mailbox 0 written.version past) :
      (editor.settle mailbox editor.attempts written.version).Meets rely (fun _ _ => True)
        (Plan.Returns fun past _ => Resolved mailbox editor.attempts past) past :=
    settle_resolves chases (Nat.zero_add _)
  refine Plan.Meets.ite ?_ ?_
  · intro _
    exact ((Index.repair_meets _ _).chases chases).bind_returns fun past _ => settles past
  · intro _
    exact ((Index.applyChanges_meets _ _).chases chases).bind_returns fun past _ => settles past

theorem Editor.update_resolves :
    (editor.update mailbox command).Meets rely (fun _ _ => True)
      (Plan.Returns fun past _ => Resolved mailbox editor.attempts past) [] := by
  have fresh : ∀ x ∈ ([] : List Exchange), x.Idle mailbox := nofun
  refine ((tryFrom_meets fresh).mono (fun _ _ _ => trivial) (fun _ _ => id)).bind ?_ (fun _ _ _ => Plan.returns_error)
  intro past written wrote
  rcases wrote with ⟨seen, ⟨before, x, rfl, replaced⟩, rfl⟩
  refine (syncIndex_resolves (chases_of_stored (stored_of_won replaced.call replaced.won))).bind_returns ?_
  intro past _ resolved
  refine (announce_keeps (Resolved mailbox editor.attempts) resolved
    fun past _ coped resolved => resolved.concat_notify coped).bind ?_ (fun _ _ _ => Plan.returns_error)
  intro past _ told
  exact Plan.returns_ok told.1

theorem Editor.reset_resolves {acl : Acl} :
    (editor.reset mailbox acl).Meets rely (fun _ _ => True)
      (Plan.Returns fun past _ => Resolved mailbox editor.attempts past) [] := by
  refine Plan.Meets.ask_bind (fun _ _ => trivial) ?_ (fun _ => Plan.returns_error)
  intro reply _
  have stored : (⟨.store (.overwrite mailbox (editor.codec.encode acl)), .ok reply⟩ : Exchange).stored? mailbox =
      some ⟨editor.codec.encode acl, Record.firstVersion⟩ := if_pos rfl
  have chases : Chases mailbox 0 Record.firstVersion
      ([] ++ [⟨.store (.overwrite mailbox (editor.codec.encode acl)), .ok reply⟩]) := chases_of_stored stored
  refine ((Index.repair_meets acl _).chases chases).bind_returns ?_
  intro past _ chases
  exact settle_resolves chases (Nat.zero_add _)

theorem Task.plan_resolves {task : Task} (writes : task.writes mailbox = true) :
    task.plan.Meets rely (fun _ _ => True)
      (Plan.Returns fun past _ => Resolved mailbox task.editor.attempts past) [] := by
  cases task with
  | update editor place command =>
      cases of_decide_eq_true writes
      exact Editor.update_resolves.bind_returns fun past _ resolved => Plan.returns_ok resolved
  | reset editor place acl =>
      cases of_decide_eq_true writes
      exact Editor.reset_resolves.bind_returns fun past _ resolved => Plan.returns_ok resolved
  | read => cases writes

end Rounds

section Attempts

variable {rely : Exchange → Prop} {editor : Editor} {mailbox : MailboxId} {command : Command} {past : List Exchange}

def Counts (lost : Nat) : List Exchange → Except AccessError (Option Written) → Prop
  | past, .ok none => losses past = lost + 1
  | _, .ok (some _) => True
  | past, .error e => Raised past e

def Editor.GivesUp (editor : Editor) (mailbox : MailboxId) (past : List Exchange) (e : AccessError) : Prop :=
  Raised past e ∨ (e = .retriesExhausted mailbox editor.attempts ∧ losses past = editor.attempts)

theorem Faultless.raised {α : Type} {e : AccessError}
    (faultless : Faultless past (.error e : Except AccessError α)) : Raised past e := by
  rcases faultless e rfl with ⟨front, request, cause, split, rfl⟩
  exact ⟨front, _, split, rfl⟩

theorem Editor.beforeWrite_counts {attempt : Nat} :
    (editor.beforeWrite mailbox attempt).Meets rely (fun _ _ => True)
      (fun past' result => (result = .ok () → losses past' = losses past) ∧ ∀ e, result = .error e → Raised past' e)
      past := by
  refine Plan.Meets.ite ?_ ?_
  · intro _ answer _
    refine ⟨trivial, ?_⟩
    cases answer with
    | ok reply => exact ⟨fun _ => losses_concat_of_ne nofun, nofun⟩
    | error e =>
        refine ⟨nofun, ?_⟩
        intro other same
        cases same
        exact ⟨past, _, rfl, rfl⟩
  · intro _
    exact ⟨fun _ => rfl, nofun⟩

theorem Editor.write_counts {written : Written} (request : Request) (won : request.Reply → Bool)
    (told : ∀ reply, (⟨.store request, .ok reply⟩ : Exchange).won? = some (won reply)) :
    (Plan.ask request >>= fun reply => pure (if won reply then some written else none)).Meets rely
      (fun _ _ => True) (Counts (losses past)) past := by
  refine Plan.Meets.ask_bind (fun _ _ => trivial) ?_ (fun _ => ⟨past, _, rfl, rfl⟩)
  intro reply _
  cases outcome : won reply with
  | true => exact trivial
  | false => exact losses_concat_of_lost (by rw [told, outcome])

theorem Editor.tryOnce_counts {attempt : Nat} :
    (editor.tryOnce mailbox command attempt).Meets rely (fun _ _ => True) (Counts (losses past)) past := by
  refine Plan.Meets.ask_bind (fun _ _ => trivial) ?_ (fun _ => ⟨past, _, rfl, rfl⟩)
  intro seen _
  have read : losses (past ++ [⟨.store (.read mailbox), .ok seen⟩]) = losses past := losses_concat_of_ne nofun
  cases seen with
  | none =>
      refine beforeWrite_counts.bind ?_ (fun _ e failed => failed.2 e rfl)
      intro past' _ passed
      rw [← read, ← passed.1 rfl]
      exact write_counts (.insert mailbox _) (fun created => created) (fun _ => rfl)
  | some record =>
      refine beforeWrite_counts.bind ?_ (fun _ e failed => failed.2 e rfl)
      intro past' _ passed
      rw [← read, ← passed.1 rfl]
      exact write_counts (.swap mailbox _ _ _) (fun swapped => swapped) (fun _ => rfl)

theorem Editor.tryFrom_gives_up {left attempt : Nat} (budget : losses past + left = editor.attempts) :
    (editor.tryFrom mailbox command left attempt).Meets rely (fun _ _ => True)
      (fun past result => ∀ e, result = .error e → editor.GivesUp mailbox past e) past := by
  induction left generalizing attempt past with
  | zero =>
      intro e same
      cases same
      exact .inr ⟨rfl, budget⟩
  | succ left ih =>
      refine tryOnce_counts.bind ?_ ?_
      · intro past' outcome counted
        cases outcome with
        | some written => exact nofun
        | none =>
            refine ih ?_
            rw [show losses past' = losses past + 1 from counted]
            omega
      · intro past' e raised other same
        cases same
        exact .inl raised

theorem Editor.update_gives_up :
    (editor.update mailbox command).Meets rely (fun _ _ => True)
      (fun past result => ∀ e, result = .error e → editor.GivesUp mailbox past e) [] := by
  refine (tryFrom_gives_up (Nat.zero_add _)).bind ?_ (fun _ _ failed _ same => by cases same; exact failed _ rfl)
  intro past written _
  refine ((editor.coder.syncIndex_meets editor written _ past).mono (fun _ _ _ => trivial) (fun _ _ => id)).bind ?_ ?_
  · intro past _ _
    refine (announce_keeps (fun _ => True) trivial fun _ _ _ => id).bind (fun _ _ _ => nofun) ?_
    intro past e told
    cases told.2
  · intro past e faultless other same
    cases same
    exact .inl faultless.raised

theorem Task.plan_gives_up :
    (Task.update editor mailbox command).plan.Meets rely (fun _ _ => True)
      (fun past result => ∀ e, result = .error e → editor.GivesUp mailbox past e) [] := by
  refine Editor.update_gives_up.bind (fun _ _ _ => nofun) ?_
  intro past e failed other same
  cases same
  exact failed e rfl

end Attempts

end MailboxAccess
