import MailboxAccess.Proofs.Failures

namespace MailboxAccess

def Call.tells : Call → Bool
  | notify _ _ => true
  | _ => false

theorem Upkeep.untold {mailbox : MailboxId} {c : Call} (upkeep : Upkeep mailbox c) : c.tells = false := by
  cases upkeep <;> rfl

def Commit.tell (listeners : List Nat) (commit : Commit) : Plan Outcome := do
  Editor.announce commit listeners
  return .committed commit

def Editor.silent (editor : Editor) : Editor := { editor with listeners := 0 }

def Coder.work (coder : Coder) (editor : Editor) (mailbox : MailboxId) (command : Command) : Plan Commit := do
  let written ← coder.tryFrom editor mailbox command editor.attempts 1
  let diff := Diff.between written.old written.new
  coder.syncIndex editor mailbox written diff
  return ⟨mailbox, written.version, diff⟩

namespace Plan

variable {α β : Type}

def Quiet : Plan α → Prop
  | done _ => True
  | call c next => c.tells = false ∧ ∀ answer, (next answer).Quiet

theorem Quiet.bind {plan : Plan α} {f : α → Plan β} (first : plan.Quiet) (rest : ∀ a, (f a).Quiet) :
    (plan >>= f).Quiet := by
  rw [bind_eq]
  induction plan with
  | done result =>
      cases result with
      | ok a => exact rest a
      | error e => trivial
  | call c next ih => exact ⟨first.1, fun answer => ih answer (first.2 answer)⟩

theorem ask_quiet (request : Request) : (ask request).Quiet := by
  refine ⟨rfl, ?_⟩
  intro answer
  cases answer <;> trivial

theorem Meets.quiet {plan : Plan α} {mailbox : MailboxId} {past : List Exchange}
    {post : List Exchange → Except AccessError α → Prop}
    (meets : plan.Meets (fun _ => True) (fun _ x => Upkeep mailbox x.call) post past) : plan.Quiet := by
  induction plan generalizing past with
  | done result => trivial
  | call c next ih =>
      have upkeep : Upkeep mailbox c := (meets (Store.answer c Store.inMemory).1 trivial).1
      exact ⟨upkeep.untold, fun answer => ih answer (meets answer trivial).2⟩

end Plan

namespace Coder

variable {coder : Coder} {editor : Editor} {mailbox : MailboxId} {command : Command}

theorem beforeWrite_quiet (attempt : Nat) : (editor.beforeWrite mailbox attempt).Quiet := by
  unfold Editor.beforeWrite
  split
  · refine ⟨rfl, ?_⟩
    intro answer
    cases answer <;> trivial
  · trivial

theorem write_quiet (acl : Acl) : (coder.write acl).Quiet := by
  unfold write
  split <;> trivial

theorem tryOnce_quiet (attempt : Nat) : (coder.tryOnce editor mailbox command attempt).Quiet := by
  refine (Plan.ask_quiet _).bind ?_
  intro seen
  cases seen with
  | none =>
      exact (write_quiet _).bind fun _ => (beforeWrite_quiet attempt).bind fun _ =>
        (Plan.ask_quiet (.insert mailbox _)).bind fun _ => trivial
  | some record =>
      exact (write_quiet _).bind fun _ => (beforeWrite_quiet attempt).bind fun _ =>
        (Plan.ask_quiet (.swap mailbox _ _ _)).bind fun _ => trivial

theorem tryFrom_quiet (left attempt : Nat) : (coder.tryFrom editor mailbox command left attempt).Quiet := by
  induction left generalizing attempt with
  | zero => trivial
  | succ left ih =>
      refine (tryOnce_quiet attempt).bind ?_
      intro outcome
      cases outcome with
      | none => exact ih (attempt + 1)
      | some written => trivial

theorem work_quiet : (coder.work editor mailbox command).Quiet :=
  (tryFrom_quiet _ _).bind fun written => (coder.syncIndex_meets editor written _ []).quiet.bind fun _ => trivial

theorem task_eq :
    coder.task editor mailbox command =
      (coder.work editor mailbox command).bind (Commit.tell (List.range editor.listeners)) := by
  simp only [task, update, work, Plan.bind_eq, Plan.bind_assoc]
  rfl

theorem tryFrom_silent (left attempt : Nat) :
    coder.tryFrom editor.silent mailbox command left attempt = coder.tryFrom editor mailbox command left attempt := by
  induction left generalizing attempt with
  | zero => rfl
  | succ left ih =>
      rw [tryFrom, tryFrom]
      simp only [ih]
      rfl

theorem task_silent :
    coder.task editor.silent mailbox command = (coder.work editor mailbox command).bind (Commit.tell []) := by
  have same : coder.work editor.silent mailbox command = coder.work editor mailbox command := by
    unfold work
    rw [tryFrom_silent]
    rfl
  rw [task_eq, same]
  rfl

end Coder

/-- How far an update has come: what is left of it, what is left of the same update without listeners, and what it has
done so far. -/
inductive Progress (listeners : List Nat) : Plan Outcome → Plan Outcome → List Exchange → Prop where
  | working {c : Call} {next : c.Answer → Plan Commit} {past : List Exchange} (quiet : (Plan.call c next).Quiet)
      (untold : ∀ x ∈ past, x.call.tells = false) :
      Progress listeners (.call c fun answer => (next answer).bind (Commit.tell listeners))
        (.call c fun answer => (next answer).bind (Commit.tell [])) past
  | failed {e : AccessError} {past : List Exchange} (untold : ∀ x ∈ past, x.call.tells = false) :
      Progress listeners (.done (.error e)) (.done (.error e)) past
  | telling {commit : Commit} {listener : Nat} {left : List Nat} {work notices : List Exchange}
      (untold : ∀ x ∈ work, x.call.tells = false)
      (told : notices.map Exchange.call ++ (listener :: left).map (Call.notify · commit) =
        listeners.map (Call.notify · commit)) :
      Progress listeners (.call (.notify listener commit) fun _ => commit.tell left) (.done (.ok (.committed commit)))
        (work ++ notices)
  | told {commit : Commit} {work notices : List Exchange} (untold : ∀ x ∈ work, x.call.tells = false)
      (told : notices.map Exchange.call = listeners.map (Call.notify · commit)) :
      Progress listeners (.done (.ok (.committed commit))) (.done (.ok (.committed commit))) (work ++ notices)

namespace Progress

variable {listeners : List Nat} {silent : Plan Outcome} {past : List Exchange}

theorem of_tell {commit : Commit} {left : List Nat} {work notices : List Exchange}
    (untold : ∀ x ∈ work, x.call.tells = false)
    (told : notices.map Exchange.call ++ left.map (Call.notify · commit) = listeners.map (Call.notify · commit)) :
    Progress listeners (commit.tell left) (.done (.ok (.committed commit))) (work ++ notices) := by
  cases left with
  | nil =>
      rw [List.map_nil, List.append_nil] at told
      exact .told untold told
  | cons listener left => exact .telling untold told

theorem of_quiet {plan : Plan Commit} (quiet : plan.Quiet) (untold : ∀ x ∈ past, x.call.tells = false) :
    Progress listeners (plan.bind (Commit.tell listeners)) (plan.bind (Commit.tell [])) past := by
  cases plan with
  | call c next => exact .working quiet untold
  | done result =>
      cases result with
      | error e => exact .failed untold
      | ok commit =>
          rw [← List.append_nil past]
          exact of_tell untold rfl

theorem call_cases {c : Call} {next : c.Answer → Plan Outcome}
    (progress : Progress listeners (.call c next) silent past) :
    (c.tells = false ∧ ∃ next', silent = .call c next' ∧
        ∀ answer, Progress listeners (next answer) (next' answer) (past ++ [⟨c, answer⟩])) ∨
      (c.tells = true ∧ (∃ result, silent = .done result) ∧
        ∀ answer, Progress listeners (next answer) silent (past ++ [⟨c, answer⟩])) := by
  cases progress with
  | @working c next past quiet untold =>
      refine .inl ⟨quiet.1, _, rfl, ?_⟩
      intro answer
      refine of_quiet (quiet.2 answer) ?_
      intro x member
      rcases List.mem_append.mp member with earlier | newest
      · exact untold x earlier
      · rw [List.mem_singleton.mp newest]
        exact quiet.1
  | @telling commit listener left work notices untold told =>
      refine .inr ⟨rfl, ⟨_, rfl⟩, ?_⟩
      intro answer
      rw [List.append_assoc]
      refine of_tell untold ?_
      rw [List.map_append, List.append_assoc, ← told]
      rfl

/-- An update that is done is done without listeners as well. Each listener was told if it is a commit, and none if it
is an error. -/
theorem done_cases {result : Except AccessError Outcome} (progress : Progress listeners (.done result) silent past) :
    silent = .done result ∧
      ((∃ e, result = .error e ∧ ∀ x ∈ past, x.call.tells = false) ∨
        ∃ commit work notices, result = .ok (.committed commit) ∧ past = work ++ notices ∧
          (∀ x ∈ work, x.call.tells = false) ∧
          notices.map Exchange.call = listeners.map (Call.notify · commit)) := by
  cases progress with
  | failed untold => exact ⟨rfl, .inl ⟨_, rfl, untold⟩⟩
  | told untold told => exact ⟨rfl, .inr ⟨_, _, _, rfl, rfl, untold, told⟩⟩

end Progress

theorem Turn.store_eq_of_tells (turn : Turn) {c : Call} (tells : c.tells = true) (store : Store) :
    (turn.answer c store).2 = store := by
  cases c with
  | notify listener commit => cases turn <;> rfl
  | _ => cases tells

def withoutNotices (actor : Nat) (history : List Happening) : List Happening :=
  history.filter fun happening => ¬ (happening.actor = actor ∧ happening.exchange.call.tells = true)

theorem withoutNotices_cons (actor : Nat) (happening : Happening) (later : List Happening) :
    withoutNotices actor (happening :: later) = withoutNotices actor [happening] ++ withoutNotices actor later :=
  List.filter_append [happening] later

theorem own_cons (actor : Nat) (happening : Happening) (later : List Happening) :
    own actor (happening :: later) = own actor [happening] ++ own actor later := own_append actor [happening] later

namespace Race

variable {race : Race Outcome} {actor : Nat} {listeners : List Nat} {plan silent : Plan Outcome}

/-- The same race with another plan for the actor. -/
def instead (race : Race Outcome) (actor : Nat) (plan : Plan Outcome) : Race Outcome :=
  ⟨race.store, race.plans.set actor plan⟩

theorem plans_instead_self (present : race.plans[actor]? = some plan) (silent : Plan Outcome) :
    (race.instead actor silent).plans[actor]? = some silent :=
  List.getElem?_set_self (List.getElem?_eq_some_iff.mp present).1

theorem plans_instead_of_ne {other : Nat} (apart : other ≠ actor) (silent : Plan Outcome) :
    (race.instead actor silent).plans[other]? = race.plans[other]? := List.getElem?_set_ne apart.symm

theorem instead_set (silent : Plan Outcome) (store : Store) :
    (⟨store, race.plans.set actor plan⟩ : Race Outcome).instead actor silent =
      ⟨store, race.plans.set actor silent⟩ := by
  rw [instead, List.set_set]

theorem step_instead_of_ne (race : Race Outcome) {turn : Turn} (other : turn.actor ≠ actor) (silent : Plan Outcome) :
    (race.instead actor silent).step turn =
      (race.step turn).map fun stepped => (stepped.1, stepped.2.instead actor silent) := by
  unfold step
  rw [plans_instead_of_ne other]
  cases found : race.plans[turn.actor]? with
  | none => rfl
  | some plan =>
      cases plan with
      | done result => rfl
      | call c next =>
          simp only [instead, Option.map_some]
          rw [List.set_comm _ _ other.symm]

/-- What becomes of both races on one turn: nothing, the same, or a listener is told and without listeners nothing
happens. -/
inductive Abreast (listeners : List Nat) (race : Race Outcome) (actor : Nat) (silent : Plan Outcome)
    (past : List Exchange) (turn : Turn) : Prop where
  | still (idle : race.step turn = none) (idle' : (race.instead actor silent).step turn = none) :
      Abreast listeners race actor silent past turn
  | along {happening : Happening} {next : Race Outcome} {rest rest' : Plan Outcome}
      (stepped : race.step turn = some (happening, next)) (there : next.plans[actor]? = some rest)
      (onward : Progress listeners rest rest' (past ++ own actor [happening]))
      (kept : withoutNotices actor [happening] = [happening])
      (stepped' : (race.instead actor silent).step turn = some (happening, next.instead actor rest')) :
      Abreast listeners race actor silent past turn
  | told {happening : Happening} {next : Race Outcome} {rest rest' : Plan Outcome}
      (stepped : race.step turn = some (happening, next)) (there : next.plans[actor]? = some rest)
      (onward : Progress listeners rest rest' (past ++ own actor [happening]))
      (dropped : withoutNotices actor [happening] = [])
      (idle' : (race.instead actor silent).step turn = none)
      (unchanged : next.instead actor rest' = race.instead actor silent) :
      Abreast listeners race actor silent past turn

theorem abreast_of_own {past : List Exchange} {turn : Turn} (present : race.plans[turn.actor]? = some plan)
    (progress : Progress listeners plan silent past) : Abreast listeners race turn.actor silent past turn := by
  have held := plans_instead_self present silent
  cases plan with
  | done result =>
      rw [progress.done_cases.1] at held ⊢
      exact .still (step_of_done present) (step_of_done held)
  | call c resume =>
      have there (rest : Plan Outcome) : (race.plans.set turn.actor rest)[turn.actor]? = some rest :=
        List.getElem?_set_self (List.getElem?_eq_some_iff.mp present).1
      have mine (x : Exchange) : own turn.actor [⟨turn.actor, x⟩] = [x] := own_cons_self turn.actor x []
      rcases progress.call_cases with ⟨quiet, resume', rfl, onward⟩ | ⟨tells, ⟨result, rfl⟩, onward⟩
      · have next := onward (turn.answer c race.store).1
        rw [← mine] at next
        refine .along (step_of_call present) (there _) next ?_ ?_
        · simp [withoutNotices, quiet]
        · rw [step_of_call held, instead_set]
          simp only [instead, List.set_set]
      · have next := onward (turn.answer c race.store).1
        rw [← mine] at next
        refine .told (step_of_call present) (there _) next ?_ (step_of_done held) ?_
        · simp [withoutNotices, tells]
        · rw [instead_set, turn.store_eq_of_tells tells]
          rfl

theorem abreast_of_other {past : List Exchange} {turn : Turn} (other : turn.actor ≠ actor)
    (present : race.plans[actor]? = some plan) (progress : Progress listeners plan silent past) :
    Abreast listeners race actor silent past turn := by
  have same := race.step_instead_of_ne other silent
  cases stepped : race.step turn with
  | none =>
      rw [stepped] at same
      exact .still stepped same
  | some result =>
      rcases result with ⟨happening, next⟩
      rw [stepped] at same
      rcases step_cases stepped with ⟨c, resume, called, rfl, rfl⟩
      refine .along stepped ((List.getElem?_set_ne other).trans present) ?_ ?_ same
      · have none : own actor [⟨turn.actor, c, (turn.answer c race.store).1⟩] = [] := by simp [own, other]
        rwa [none, List.append_nil]
      · simp [withoutNotices, other]

theorem abreast {past : List Exchange} (present : race.plans[actor]? = some plan)
    (progress : Progress listeners plan silent past) (turn : Turn) :
    Abreast listeners race actor silent past turn := by
  by_cases mine : turn.actor = actor
  · subst mine
    exact abreast_of_own present progress
  · exact abreast_of_other mine present progress

theorem run_instead {past : List Exchange} (present : race.plans[actor]? = some plan)
    (progress : Progress listeners plan silent past) (turns : List Turn) :
    ∃ rest rest', (race.run turns).2.plans[actor]? = some rest ∧
      Progress listeners rest rest' (past ++ own actor (race.run turns).1) ∧
      (race.instead actor silent).run turns =
        (withoutNotices actor (race.run turns).1, (race.run turns).2.instead actor rest') := by
  induction turns generalizing race plan silent past with
  | nil =>
      refine ⟨plan, silent, present, ?_, rfl⟩
      change Progress listeners plan silent (past ++ [])
      rwa [List.append_nil]
  | cons turn turns ih =>
      cases abreast present progress turn with
      | still idle idle' =>
          simp only [run, idle, idle']
          exact ih present progress
      | @along happening next rest rest' stepped there onward kept stepped' =>
          rcases ih there onward with ⟨final, final', found, reached, ran⟩
          simp only [run, stepped, stepped', ran]
          refine ⟨final, final', found, ?_, ?_⟩
          · rwa [own_cons, ← List.append_assoc]
          · rw [withoutNotices_cons, kept]
            rfl
      | @told happening next rest rest' stepped there onward dropped idle' unchanged =>
          -- without listeners the update is done, and its turn passes
          rcases ih there onward with ⟨final, final', found, reached, ran⟩
          rw [unchanged] at ran
          simp only [run, stepped, idle', ran]
          refine ⟨final, final', found, ?_, ?_⟩
          · rwa [own_cons, ← List.append_assoc]
          · rw [withoutNotices_cons, dropped]
            rfl

end Race

end MailboxAccess
