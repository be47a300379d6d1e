import MailboxAccess.Proofs.Course

namespace MailboxAccess

namespace Plan

variable {α β : Type}

/-- A request that fails ends the plan with its error. -/
def Strict : Plan α → Prop
  | done _ => True
  | call (.store _) next => (∀ e, next (.error e) = done (.error (.store e))) ∧ ∀ answer, (next answer).Strict
  | call (.hook _ _) next => ∀ answer, (next answer).Strict
  | call (.notify _ _) next => ∀ answer, (next answer).Strict

theorem Strict.next {c : Call} {next : c.Answer → Plan α} (strict : (call c next).Strict) (answer : c.Answer) :
    (next answer).Strict := by
  cases c with
  | store request => exact strict.2 answer
  | hook => exact strict answer
  | notify => exact strict answer

theorem ask_strict (request : Request) : (ask request).Strict := by
  refine ⟨fun _ => rfl, ?_⟩
  intro answer
  cases answer <;> trivial

theorem Strict.bind {plan : Plan α} {f : α → Plan β} (first : plan.Strict) (rest : ∀ a, (f a).Strict) :
    (plan >>= f).Strict := by
  rw [bind_eq]
  induction plan with
  | done result =>
      cases result with
      | ok a => exact rest a
      | error e => trivial
  | call c next ih =>
      have later (answer : c.Answer) : ((next answer).bind f).Strict := ih answer (first.next answer)
      cases c with
      | store request =>
          refine ⟨?_, later⟩
          intro e
          exact congrArg (fun ended : Plan α => ended.bind f) (first.1 e)
      | hook => exact later
      | notify => exact later

theorem Strict.ite {condition : Prop} [Decidable condition] {yes no : Plan α} (holds : yes.Strict)
    (fails : no.Strict) : (if condition then yes else no).Strict := by
  split
  · exact holds
  · exact fails

theorem Leads.of_strict {plan rest : Plan α} {trace : List Exchange} (led : plan.Leads trace rest)
    (strict : plan.Strict) :
    rest.Strict ∧ ∀ before request e after, trace = before ++ ⟨.store request, .error e⟩ :: after →
      after = [] ∧ rest = done (.error (.store e)) := by
  induction led with
  | here =>
      refine ⟨strict, ?_⟩
      intro before request e after split
      cases before <;> cases split
  | @next trace c next led answer ih =>
      rcases ih with ⟨now, earlier⟩
      refine ⟨now.next answer, ?_⟩
      intro before request e after split
      rcases split_concat split with ⟨-, same, rfl⟩ | ⟨between, rfl, rfl⟩
      · cases same
        exact ⟨rfl, now.1 e⟩
      · cases (earlier before request e between rfl).2

end Plan

open Plan (ask_strict)

namespace Index

variable {mailbox : MailboxId}

theorem applyChange_strict (change : Change) : (applyChange mailbox change).Strict := by
  unfold applyChange
  split
  · exact Plan.Strict.ite (ask_strict _) (ask_strict _)
  · exact ask_strict _

theorem applyChanges_strict (changes : List Change) : (applyChanges mailbox changes).Strict := by
  induction changes with
  | nil => trivial
  | cons change changes ih => exact (applyChange_strict change).bind fun _ => ih

theorem repair_strict (acl : Acl) : (repair mailbox acl).Strict :=
  (ask_strict _).bind fun _ => (applyChanges_strict _).bind fun _ => trivial

end Index

namespace Editor

variable {editor : Editor} {mailbox : MailboxId} {command : Command}

theorem getVersioned_strict : (editor.getVersioned mailbox).Strict := by
  rw [getVersioned_eq]
  exact (ask_strict _).bind fun _ => trivial

theorem beforeWrite_strict (attempt : Nat) : (editor.beforeWrite mailbox attempt).Strict := by
  refine Plan.Strict.ite ?_ trivial
  intro answer
  cases answer <;> trivial

theorem tryOnce_strict (attempt : Nat) : (editor.tryOnce mailbox command attempt).Strict := by
  refine (ask_strict _).bind ?_
  intro seen
  cases seen with
  | none => exact (beforeWrite_strict attempt).bind fun _ => (ask_strict _).bind fun _ => trivial
  | some record => exact (beforeWrite_strict attempt).bind fun _ => (ask_strict _).bind fun _ => trivial

theorem tryFrom_strict (left attempt : Nat) : (editor.tryFrom mailbox command left attempt).Strict := by
  induction left generalizing attempt with
  | zero => trivial
  | succ left ih =>
      refine (tryOnce_strict attempt).bind ?_
      intro outcome
      cases outcome with
      | none => exact ih (attempt + 1)
      | some written => trivial

theorem settle_strict (rounds : Nat) (synced : UInt64) : (editor.settle mailbox rounds synced).Strict := by
  induction rounds generalizing synced with
  | zero => trivial
  | succ rounds ih =>
      refine getVersioned_strict.bind ?_
      intro found
      cases found with
      | none => trivial
      | some current => exact Plan.Strict.ite trivial ((Index.repair_strict _).bind fun _ => ih current.version)

theorem syncIndex_strict (written : Written) (diff : Diff) : (editor.syncIndex mailbox written diff).Strict :=
  Plan.Strict.ite ((Index.repair_strict _).bind fun _ => settle_strict _ _)
    ((Index.applyChanges_strict _).bind fun _ => settle_strict _ _)

theorem announce_strict (commit : Commit) (listeners : List Nat) : (announce commit listeners).Strict := by
  induction listeners with
  | nil => trivial
  | cons listener listeners ih => exact fun _ => ih

theorem update_strict : (editor.update mailbox command).Strict :=
  (tryFrom_strict _ _).bind fun _ => (syncIndex_strict _ _).bind fun _ => (announce_strict _ _).bind fun _ => trivial

theorem reset_strict (acl : Acl) : (editor.reset mailbox acl).Strict :=
  (ask_strict _).bind fun _ => (Index.repair_strict acl).bind fun _ => settle_strict _ _

end Editor

theorem Task.plan_strict (task : Task) : task.plan.Strict := by
  cases task with
  | update editor mailbox command => exact Editor.update_strict.bind fun _ => trivial
  | reset editor mailbox acl => exact (Editor.reset_strict acl).bind fun _ => trivial
  | read editor mailbox => exact Editor.getVersioned_strict.bind fun _ => trivial

theorem Race.result_of_failed {store : Store} {tasks : List Task} {turns : List Turn} {history : List Happening}
    {last : Race Outcome} (ran : (Race.start store tasks).run turns = (history, last)) {actor : Nat}
    {before after : List Exchange} {request : Request} {e : StoreError}
    (split : own actor history = before ++ ⟨.store request, .error e⟩ :: after) :
    after = [] ∧ last.result? actor = some (.error (.store e)) := by
  have reached := reaches_of_run ran
  have member : (⟨actor, .store request, .error e⟩ : Happening) ∈ history := by
    rw [← mem_own_iff, split]
    exact List.mem_append_right _ List.mem_cons_self
  rcases reached.exists_plan member with ⟨plan, planned⟩
  rcases exists_task planned with ⟨task, -, rfl⟩
  rcases reached.leads planned with ⟨rest, found, led⟩
  rcases (led.of_strict task.plan_strict).2 before request e after split with ⟨nothing, rfl⟩
  refine ⟨nothing, ?_⟩
  exact result_eq_some_iff.mpr found

end MailboxAccess
