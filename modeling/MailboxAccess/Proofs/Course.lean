import MailboxAccess.Proofs.Task

/-!
The course that tasks take on one store, as seen by one mailbox: every exchange is a move of its task and is
answered from the view. `course_of_run` finds it in every run, and what holds along courses is proved by
induction on them.
-/
namespace MailboxAccess

inductive Course (tasks : List Task) (mailbox : MailboxId) (view : View) : List Happening → Prop where
  | nil : Course tasks mailbox view []
  | concat {history : List Happening} {actor : Nat} {task : Task} {x : Exchange}
      (course : Course tasks mailbox view history) (present : tasks[actor]? = some task)
      (moves : task.Moves (own actor history) x.call)
      (permitted : (view.replay mailbox history).Permits mailbox x) :
      Course tasks mailbox view (history ++ [⟨actor, x⟩])

theorem Race.exists_task {store : Store} {tasks : List Task} {actor : Nat} {plan : Plan Outcome}
    (planned : (Race.start store tasks).plans[actor]? = some plan) :
    ∃ task, tasks[actor]? = some task ∧ task.plan = plan := by
  have mapped : tasks[actor]?.map Task.plan = some plan := by
    rw [← List.getElem?_map]
    exact planned
  exact Option.map_eq_some_iff.mp mapped

theorem Race.moves_of_step {store : Store} {tasks : List Task} {history : List Happening}
    {current next : Race Outcome} {turn : Turn} {happening : Happening}
    (reached : (Race.start store tasks).Reaches history current)
    (stepped : current.step turn = some (happening, next)) :
    ∃ task c, tasks[turn.actor]? = some task ∧ task.Moves (own turn.actor history) c ∧
      happening = ⟨turn.actor, c, (turn.answer c current.store).1⟩ ∧
      next.store = (turn.answer c current.store).2 := by
  rcases (reached.step stepped).exists_plan (List.mem_append_right _ List.mem_cons_self) with ⟨plan, planned⟩
  rcases step_cases stepped with ⟨c, resume, called, rfl, rfl⟩
  rcases exists_task planned with ⟨task, present, rfl⟩
  rcases reached.leads planned with ⟨rest, found, led⟩
  rw [called] at found
  cases found
  rcases led.meets task.plan_meets fun _ _ => trivial with ⟨-, moving⟩
  have moves := (moving (turn.answer c current.store).1 trivial).1
  exact ⟨task, c, present, moves, rfl, rfl⟩

theorem Race.course_of_reaches {store : Store} {tasks : List Task} (mailbox : MailboxId)
    {history : List Happening} {last : Race Outcome} (reached : (Race.start store tasks).Reaches history last) :
    Course tasks mailbox (store.viewOf mailbox) history := by
  induction reached with
  | start => exact .nil
  | @step history current next turn happening reached stepped ih =>
      rcases reached.view mailbox with ⟨now, -⟩
      rcases moves_of_step reached stepped with ⟨task, c, present, moves, rfl, -⟩
      rcases turn.answer_view c current.store mailbox with ⟨permitted, -⟩
      rw [now] at permitted
      exact ih.concat present moves permitted

theorem Race.course_of_run {store : Store} {tasks : List Task} {turns : List Turn} {history : List Happening}
    {last : Race Outcome} (ran : (Race.start store tasks).run turns = (history, last)) (mailbox : MailboxId) :
    Course tasks mailbox (store.viewOf mailbox) history := course_of_reaches mailbox (reaches_of_run ran)

theorem Race.course_of_view {store : Store} {tasks : List Task} {mailbox : MailboxId} {view : View}
    {turns : List Turn} {history : List Happening} {last : Race Outcome}
    (ran : (Race.start store tasks).run turns = (history, last)) (shown : store.view? mailbox = .ok view) :
    Course tasks mailbox view history := by
  rw [← Store.viewOf_eq shown]
  exact course_of_run ran mailbox

theorem Race.leads_of_run {store : Store} {tasks : List Task} {turns : List Turn} {history : List Happening}
    {last : Race Outcome} (ran : (Race.start store tasks).run turns = (history, last)) {actor : Nat}
    {result : Except AccessError Outcome} (done : last.result? actor = some result) :
    ∃ task, tasks[actor]? = some task ∧ task.plan.Leads (own actor history) (.done result) := by
  have reached := reaches_of_run ran
  have ended := result_eq_some_iff.mp done
  have bound := (List.getElem?_eq_some_iff.mp ended).1
  rw [reached.length_plans] at bound
  have planned := List.getElem?_eq_getElem bound
  rcases exists_task planned with ⟨task, present, same⟩
  rw [← same] at planned
  rcases reached.leads planned with ⟨rest, found, led⟩
  rw [ended] at found
  cases found
  exact ⟨task, present, led⟩

theorem Race.leads_of_present {store : Store} {tasks : List Task} {turns : List Turn} {history : List Happening}
    {last : Race Outcome} (ran : (Race.start store tasks).run turns = (history, last)) {actor : Nat} {task : Task}
    (present : tasks[actor]? = some task) {result : Except AccessError Outcome}
    (done : last.result? actor = some result) : task.plan.Leads (own actor history) (.done result) := by
  rcases leads_of_run ran done with ⟨other, found, led⟩
  rw [present] at found
  cases found
  exact led

theorem Race.ends_of_run {store : Store} {tasks : List Task} {turns : List Turn} {history : List Happening}
    {last : Race Outcome} (ran : (Race.start store tasks).run turns = (history, last)) {actor : Nat}
    {result : Except AccessError Outcome} (done : last.result? actor = some result) :
    ∃ task, tasks[actor]? = some task ∧ task.Ends (own actor history) result := by
  rcases leads_of_run ran done with ⟨task, present, led⟩
  exact ⟨task, present, (led.meets task.plan_meets fun _ _ => trivial).2⟩

namespace Course

variable {tasks : List Task} {mailbox : MailboxId} {view : View} {history : List Happening}

theorem concat_cases {before : List Happening} {newest : Happening}
    (course : Course tasks mailbox view (before ++ [newest])) :
    Course tasks mailbox view before ∧
      (∃ task, tasks[newest.actor]? = some task ∧
        task.Moves (own newest.actor before) newest.exchange.call) ∧
      (view.replay mailbox before).Permits mailbox newest.exchange := by
  generalize split : before ++ [newest] = whole at course
  cases course with
  | nil => simp at split
  | concat course present moves permitted =>
      rcases List.append_inj' split rfl with ⟨rfl, same⟩
      cases same
      exact ⟨course, ⟨_, present, moves⟩, permitted⟩

theorem earlier {before after : List Happening} (course : Course tasks mailbox view (before ++ after)) :
    Course tasks mailbox view before := by
  induction after using List.reverseRecOn with
  | nil => rwa [List.append_nil] at course
  | append_singleton after newest ih =>
      rw [← List.append_assoc] at course
      exact ih course.concat_cases.1

theorem upTo {before after : List Happening} {happening : Happening}
    (course : Course tasks mailbox view (before ++ happening :: after)) :
    Course tasks mailbox view (before ++ [happening]) := by
  rw [List.append_cons] at course
  exact course.earlier

theorem seen_eq {before after : List Happening} {actor : Nat} {seen : Option Record}
    (course : Course tasks mailbox view (before ++ ⟨actor, .store (.read mailbox), .ok seen⟩ :: after)) :
    seen = (view.replay mailbox before).record := course.upTo.concat_cases.2.2 rfl

theorem shown_eq {before : List Happening} {actor : Nat} {x : Exchange} {record : Record}
    (course : Course tasks mailbox view (before ++ [⟨actor, x⟩])) (shown : x.shown? mailbox = some record) :
    (view.replay mailbox (before ++ [⟨actor, x⟩])).record = some record := by
  rw [View.replay_concat, View.record_next]
  unfold Exchange.shown? at shown
  split at shown
  · next place seen =>
      by_cases here : place = mailbox
      · subst here
        have read : seen = some record := (if_pos rfl).symm.trans shown
        rw [show Exchange.stored? place _ = none from rfl, Option.none_or, ← course.seen_eq, read]
      · have nothing : none = some record := (if_neg here).symm.trans shown
        cases nothing
  · rw [shown, Option.some_or]

theorem seen_before {before : List Happening} {actor : Nat} {seen : Option Record}
    (course : Course tasks mailbox view before)
    (attempting : Editor.Attempting mailbox (own actor before) seen) :
    ∃ earlier later, before = earlier ++ later ∧ seen = (view.replay mailbox earlier).record := by
  rcases attempting.read with ⟨past, hooks, split, -⟩
  rcases exists_of_own split with ⟨earlier, later, rfl, -, -⟩
  exact ⟨earlier, _, rfl, course.seen_eq⟩

end Course

/-- How a task comes to store a record. -/
inductive Stores (tasks : List Task) (mailbox : MailboxId) (view : View) (before : List Happening) :
    Happening → Record → Prop where
  | update {actor : Nat} {editor : Editor} {command : Command} {seen : Option Record} {x : Exchange}
      (present : tasks[actor]? = some (.update editor mailbox command))
      (attempting : Editor.Attempting mailbox (own actor before) seen)
      (call : x.call = .store (Editor.replacing mailbox (editor.codec.encode (editor.edited command seen)) seen))
      (won : x.won? = some true)
      (current : (view.replay mailbox before).record.map Record.version = seen.map Record.version) :
      Stores tasks mailbox view before ⟨actor, x⟩
        ⟨editor.codec.encode (editor.edited command seen), Editor.nextVersion seen⟩
  | reset {actor : Nat} {editor : Editor} {acl : Acl}
      (present : tasks[actor]? = some (.reset editor mailbox acl)) (first : own actor before = []) :
      Stores tasks mailbox view before
        ⟨actor, .store (.overwrite mailbox (editor.codec.encode acl)), .ok ()⟩
        ⟨editor.codec.encode acl, Record.firstVersion⟩

theorem Course.stores {tasks : List Task} {mailbox : MailboxId} {view : View} {before : List Happening}
    {happening : Happening} {record : Record}
    (course : Course tasks mailbox view (before ++ [happening]))
    (stored : happening.stored? mailbox = some record) :
    Stores tasks mailbox view before happening record := by
  rcases course.concat_cases with ⟨-, ⟨task, present, moves⟩, permitted⟩
  rcases happening with ⟨actor, x⟩
  have silent (none : x.stored? mailbox = none) : Stores tasks mailbox view before ⟨actor, x⟩ record := by
    simp [Happening.stored?, none] at stored
  have kept (place : MailboxId) (upkeep : Upkeep place x.call) :
      Stores tasks mailbox view before ⟨actor, x⟩ record := silent upkeep.quiet.1
  dsimp only at present moves permitted
  generalize called : x.call = c at moves kept
  generalize passed : own actor before = past at moves
  cases moves with
  | @update editor place command _ _ moves =>
      cases moves with
      | read => exact kept place .read
      | index committed rowwise => exact kept place (.rows rowwise)
      | hook =>
          rcases x with ⟨c, answer⟩
          cases called
          cases stored
      | notify =>
          rcases x with ⟨c, answer⟩
          cases called
          cases stored
      | replace attempting =>
          rcases Editor.won_of_stored called stored with ⟨rfl, won⟩
          have same := Editor.stored_of_won called won
          rw [show x.stored? place = some record from stored] at same
          cases same
          have current := of_decide_eq_true (Editor.won_eq called won permitted).symm
          exact .update present (passed ▸ attempting) called won current
  | @overwrite editor place acl =>
      rcases x with ⟨c, answer⟩
      cases called
      cases answer with
      | error => cases stored
      | ok reply =>
          by_cases here : place = mailbox
          · subst here
            have same : record = ⟨editor.codec.encode acl, Record.firstVersion⟩ := by
              simpa [Happening.stored?, Exchange.stored?, Request.stored?, eq_comm] using stored
            subst same
            exact .reset present passed
          · simp [Happening.stored?, Exchange.stored?, Request.stored?, here] at stored
  | repair began upkeep => exact kept _ upkeep
  | read => exact kept _ .read

end MailboxAccess
