import MailboxAccess.Proofs.Course
import MailboxAccess.Proofs.Store.Elsewhere

/-!
Plans that may stop at any call. What such a plan has made of one mailbox by then is described by a condition
that holds of the view from the first call to the last.
-/
namespace MailboxAccess

variable {α β : Type}

namespace Plan

/-- As long as only this plan runs, `good` holds of what the store has of the mailbox at every call and at the
end, however the calls are answered; when the plan succeeds `post` holds as well. -/
def Throughout (mailbox : MailboxId) (good : View → Prop) (post : View → α → Prop) : Plan α → View → Prop
  | done (.ok a), view => good view ∧ post view a
  | done (.error _), view => good view
  | call c next, view =>
    good view ∧ ∀ answer, view.Permits mailbox ⟨c, answer⟩ →
      (next answer).Throughout mailbox good post (view.next mailbox ⟨c, answer⟩)

variable {mailbox : MailboxId} {good good' : View → Prop} {view : View}

theorem Throughout.holds {plan : Plan α} {post : View → α → Prop} (through : plan.Throughout mailbox good post view) :
    good view := by
  cases plan with
  | done result =>
      cases result with
      | ok a => exact through.1
      | error e => exact through
  | call c next => exact through.1

theorem Throughout.mono {plan : Plan α} {post post' : View → α → Prop}
    (through : plan.Throughout mailbox good post view) (weaker : ∀ view, good view → good' view)
    (promised : ∀ view a, post view a → post' view a) : plan.Throughout mailbox good' post' view := by
  induction plan generalizing view with
  | done result =>
      cases result with
      | ok a => exact ⟨weaker view through.1, promised view a through.2⟩
      | error e => exact weaker view through
  | call c next ih =>
      refine ⟨weaker view through.1, ?_⟩
      intro answer permitted
      exact ih answer (through.2 answer permitted)

theorem Throughout.bind {plan : Plan α} {f : α → Plan β} {mid : View → α → Prop} {post : View → β → Prop}
    (first : plan.Throughout mailbox good mid view)
    (rest : ∀ view a, good view → mid view a → (f a).Throughout mailbox good post view) :
    (plan >>= f).Throughout mailbox good post view := by
  rw [bind_eq]
  induction plan generalizing view with
  | done result =>
      cases result with
      | ok a => exact rest view a first.1 first.2
      | error e => exact first
  | call c next ih =>
      refine ⟨first.1, ?_⟩
      intro answer permitted
      exact ih answer (first.2 answer permitted)

theorem Throughout.ite {condition : Prop} [Decidable condition] {yes no : Plan α} {post : View → α → Prop}
    (holds : condition → yes.Throughout mailbox good post view)
    (fails : ¬ condition → no.Throughout mailbox good post view) :
    (if condition then yes else no).Throughout mailbox good post view := by
  split
  · next h => exact holds h
  · next h => exact fails h

theorem Throughout.ask {request : Request} {post : View → request.Reply → Prop} (before : good view)
    (after : ∀ reply, view.Allows mailbox request reply →
      good (view.after mailbox request reply) ∧ post (view.after mailbox request reply) reply) :
    (ask request).Throughout mailbox good post view := by
  refine ⟨before, ?_⟩
  intro answer permitted
  cases answer with
  | ok reply => exact after reply permitted
  | error e => exact before

end Plan

theorem Turn.answer_shows (turn : Turn) (c : Call) {store : Store} {mailbox : MailboxId} {view : View}
    (shown : store.view? mailbox = .ok view) :
    view.Permits mailbox ⟨c, (turn.answer c store).1⟩ ∧
      (turn.answer c store).2.view? mailbox = .ok (view.next mailbox ⟨c, (turn.answer c store).1⟩) := by
  have same := Store.viewOf_eq shown
  rcases Store.view_eq_ok_iff.mp shown with ⟨read, listed⟩
  rcases turn.answer_view c store mailbox with ⟨permitted, after⟩
  rw [same] at permitted after
  refine ⟨permitted, ?_⟩
  rw [Store.view_eq_ok_iff, ← after]
  rcases turn.answer_cases c store with ⟨unchanged, -⟩ | ⟨request, reply, done, -⟩
  · rw [unchanged, same]
    exact ⟨read, listed⟩
  · exact ⟨Store.read_after read done, Store.list_after listed done⟩

/-- The single plan of a race keeps up its condition wherever the race stops, whether or not the rows can be read. -/
theorem Race.throughout_along {plan : Plan α} {store : Store} {mailbox : MailboxId} {good : View → Prop}
    {post : View → α → Prop} {turns : List Turn} {history : List Happening} {cut : Race α}
    (through : plan.Throughout mailbox good post (store.viewOf mailbox))
    (ran : (⟨store, [plan]⟩ : Race α).run turns = (history, cut)) :
    good (cut.store.viewOf mailbox) ∧
      ∀ a, cut.result? 0 = some (.ok a) → post (cut.store.viewOf mailbox) a := by
  have reached := reaches_of_run ran
  have along : ∃ rest, cut.plans = [rest] ∧ rest.Throughout mailbox good post (cut.store.viewOf mailbox) := by
    clear ran
    induction reached with
    | start => exact ⟨plan, rfl, through⟩
    | @step history current next turn happening reached stepped ih =>
        rcases ih with ⟨rest, alone, onward⟩
        rcases step_alone alone stepped with ⟨c, resume, rfl, rfl⟩
        rcases turn.answer_view c current.store mailbox with ⟨permitted, after⟩
        refine ⟨_, rfl, ?_⟩
        rw [after]
        exact onward.2 _ permitted
  rcases along with ⟨rest, alone, onward⟩
  refine ⟨onward.holds, ?_⟩
  intro a done
  rw [result_eq_some_iff, alone] at done
  cases done
  exact onward.2

theorem Race.throughout_of_run {plan : Plan α} {store : Store} {mailbox : MailboxId} {view : View}
    {good : View → Prop} {post : View → α → Prop} {turns : List Turn} {history : List Happening} {cut : Race α}
    (through : plan.Throughout mailbox good post view) (shown : store.view? mailbox = .ok view)
    (ran : (⟨store, [plan]⟩ : Race α).run turns = (history, cut)) :
    ∃ final, cut.store.view? mailbox = .ok final ∧ good final ∧
      ∀ a, cut.result? 0 = some (.ok a) → post final a := by
  have held := (reaches_of_run ran).shows shown
  rw [← Store.viewOf_eq shown] at through
  refine ⟨_, held, ?_⟩
  rw [← Store.viewOf_eq held]
  exact throughout_along through ran

/-- A call that has nothing to do with any other mailbox. -/
def Call.About (mailbox : MailboxId) : Call → Prop
  | .store request => request.mailbox? = some mailbox
  | _ => True

theorem Upkeep.about {mailbox : MailboxId} {c : Call} (upkeep : Upkeep mailbox c) : c.About mailbox := by
  cases upkeep with
  | read => rfl
  | @rows request rowwise =>
      cases request with
      | upsert identity place rights => exact congrArg some rowwise.1
      | delete identity place => exact congrArg some rowwise
      | listMailbox place => exact congrArg some rowwise
      | _ => cases rowwise

theorem Editor.Moves.about {editor : Editor} {mailbox : MailboxId} {command : Command} {past : List Exchange}
    {c : Call} (moves : editor.Moves mailbox command past c) : c.About mailbox := by
  cases moves with
  | read => rfl
  | hook => trivial
  | @replace seen attempting => cases seen <;> rfl
  | index committed rowwise => exact Upkeep.about (.rows rowwise)
  | notify => trivial

theorem Task.Moves.about {task : Task} {past : List Exchange} {c : Call} (moves : task.Moves past c) :
    c.About task.mailbox := by
  cases moves with
  | update moves => exact moves.about
  | overwrite => rfl
  | repair began upkeep => exact upkeep.about
  | read => rfl

theorem Turn.agree_elsewhere (turn : Turn) {c : Call} {store : Store} {mailbox place : MailboxId}
    (about : c.About mailbox) (apart : mailbox ≠ place) : Store.Agree place (turn.answer c store).2 store := by
  rcases turn.answer_cases c store with ⟨same, -⟩ | ⟨request, reply, done, exchange⟩
  · rw [same]
    exact .refl place _
  · cases congrArg Exchange.call exchange
    refine Store.agree_of_execute done ?_
    intro other
    exact apart (Option.some.inj (about.symm.trans other))

theorem Turn.answer_alike (turn : Turn) {c : Call} {store : Store} {mailbox place : MailboxId}
    (about : c.About mailbox) (apart : mailbox ≠ place) : Store.Alike place (turn.answer c store).2 store :=
  (turn.agree_elsewhere about apart).alike

/-- Tasks leave alone what is not about their mailboxes. -/
theorem Race.alike_of_run {store : Store} {tasks : List Task} {place : MailboxId} {turns : List Turn}
    {history : List Happening} {last : Race Outcome} (elsewhere : ∀ task ∈ tasks, task.mailbox ≠ place)
    (ran : (Race.start store tasks).run turns = (history, last)) : Store.Alike place last.store store := by
  have reached := reaches_of_run ran
  clear ran
  induction reached with
  | start => exact .refl place _
  | @step history current next turn happening reached stepped ih =>
      rcases moves_of_step reached stepped with ⟨task, c, present, moves, -, after⟩
      have here : Store.Alike place (turn.answer c current.store).2 current.store :=
        turn.answer_alike moves.about (elsewhere task (List.mem_of_getElem? present))
      rw [after]
      exact here.trans ih

end MailboxAccess
