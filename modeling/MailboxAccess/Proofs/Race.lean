import MailboxAccess.Race
import MailboxAccess.Proofs.Plan
import MailboxAccess.Proofs.Store

/-!
Histories of races. Each plan follows its own exchanges (`Reaches.leads`), and what the store shows of a
mailbox follows from all of them in the order in which they happened (`Reaches.view`).
-/
namespace MailboxAccess

variable {α : Type}

def own (actor : Nat) (history : List Happening) : List Exchange :=
  history.filterMap fun happening => if happening.actor = actor then some happening.exchange else none

theorem own_append (actor : Nat) (earlier later : List Happening) :
    own actor (earlier ++ later) = own actor earlier ++ own actor later := List.filterMap_append

theorem own_cons_self (actor : Nat) (exchange : Exchange) (later : List Happening) :
    own actor (⟨actor, exchange⟩ :: later) = exchange :: own actor later := by
  simp [own]

theorem own_concat_self (actor : Nat) (earlier : List Happening) (exchange : Exchange) :
    own actor (earlier ++ [⟨actor, exchange⟩]) = own actor earlier ++ [exchange] := by
  rw [own_append, own_cons_self]
  rfl

theorem own_concat_of_ne {actor : Nat} {happening : Happening} (other : happening.actor ≠ actor)
    (earlier : List Happening) : own actor (earlier ++ [happening]) = own actor earlier := by
  rw [own_append]
  simp [own, other]

theorem mem_own_iff {actor : Nat} {history : List Happening} {exchange : Exchange} :
    exchange ∈ own actor history ↔ ⟨actor, exchange⟩ ∈ history := by
  constructor
  · intro member
    rcases List.mem_filterMap.mp member with ⟨⟨other, held⟩, within, kept⟩
    dsimp only at kept
    split at kept
    · next same =>
        cases kept
        exact same ▸ within
    · cases kept
  · intro member
    exact List.mem_filterMap.mpr ⟨_, member, by simp⟩

theorem exists_of_own {actor : Nat} {history : List Happening} {before after : List Exchange}
    {exchange : Exchange} (split : own actor history = before ++ exchange :: after) :
    ∃ earlier later, history = earlier ++ ⟨actor, exchange⟩ :: later ∧ own actor earlier = before ∧
      own actor later = after := by
  rcases List.filterMap_eq_append_iff.mp split with ⟨first, rest, rfl, front, back⟩
  rcases List.filterMap_eq_cons_iff.mp back with ⟨skipped, ⟨other, held⟩, later, rfl, silent, kept, remaining⟩
  have quiet : own actor skipped = [] := List.filterMap_eq_nil_iff.mpr silent
  dsimp only at kept
  split at kept
  · next same =>
      cases kept
      cases same
      refine ⟨first ++ skipped, later, (List.append_assoc ..).symm, ?_, remaining⟩
      rw [own_append, quiet, List.append_nil]
      exact front
  · cases kept

namespace Happening

def stored? (mailbox : MailboxId) (happening : Happening) : Option Record :=
  happening.exchange.stored? mailbox

def row? (mailbox : MailboxId) (key : EntryKey) (happening : Happening) : Option (Option Rights) :=
  happening.exchange.row? mailbox key

end Happening

namespace View

def replay (mailbox : MailboxId) (view : View) (history : List Happening) : View :=
  history.foldl (fun view happening => view.next mailbox happening.exchange) view

theorem replay_append (mailbox : MailboxId) (view : View) (earlier later : List Happening) :
    view.replay mailbox (earlier ++ later) = (view.replay mailbox earlier).replay mailbox later :=
  List.foldl_append

theorem replay_concat (mailbox : MailboxId) (view : View) (earlier : List Happening) (happening : Happening) :
    view.replay mailbox (earlier ++ [happening]) =
      (view.replay mailbox earlier).next mailbox happening.exchange := by
  rw [replay_append]
  rfl

theorem record_replay (mailbox : MailboxId) (view : View) (history : List Happening) :
    (view.replay mailbox history).record = (latest (Happening.stored? mailbox) history).or view.record := by
  induction history using List.reverseRecOn with
  | nil => rfl
  | append_singleton history happening ih =>
      rw [replay_concat, record_next, ih, latest_append, latest_singleton, Option.or_assoc]
      rfl

theorem rows_replay (mailbox : MailboxId) (view : View) (history : List Happening) (key : EntryKey) :
    (view.replay mailbox history).rows.get? key =
      (latest (Happening.row? mailbox key) history).getD (view.rows.get? key) := by
  induction history using List.reverseRecOn with
  | nil => rfl
  | append_singleton history happening ih =>
      rw [replay_concat, rows_next, ih, latest_append, latest_singleton, Happening.row?]
      cases happening.exchange.row? mailbox key <;> rfl

end View

theorem Turn.answer_cases (turn : Turn) (c : Call) (store : Store) :
    ((turn.answer c store).2 = store ∧ Exchange.Void ⟨c, (turn.answer c store).1⟩) ∨
      ∃ request reply, store.execute request = .ok (reply, (turn.answer c store).2) ∧
        (⟨c, (turn.answer c store).1⟩ : Exchange) = ⟨.store request, .ok reply⟩ := by
  have usual : ((Store.answer c store).2 = store ∧ Exchange.Void ⟨c, (Store.answer c store).1⟩) ∨
      ∃ request reply, store.execute request = .ok (reply, (Store.answer c store).2) ∧
        (⟨c, (Store.answer c store).1⟩ : Exchange) = ⟨.store request, .ok reply⟩ := by
    cases c with
    | store request =>
        simp only [Store.answer]
        split
        · next reply next done => exact .inr ⟨request, reply, done, rfl⟩
        · exact .inl ⟨rfl, trivial⟩
    | hook => exact .inl ⟨rfl, trivial⟩
    | notify => exact .inl ⟨rfl, trivial⟩
  cases turn with
  | act actor => exact usual
  | fault actor e =>
      cases c with
      | store request => exact .inl ⟨rfl, trivial⟩
      | _ => exact usual
  | refuse actor e =>
      cases c with
      | store request => exact usual
      | _ => exact .inl ⟨rfl, trivial⟩

theorem Turn.answer_view (turn : Turn) (c : Call) (store : Store) (mailbox : MailboxId) :
    (store.viewOf mailbox).Permits mailbox ⟨c, (turn.answer c store).1⟩ ∧
      (turn.answer c store).2.viewOf mailbox =
        (store.viewOf mailbox).next mailbox ⟨c, (turn.answer c store).1⟩ := by
  rcases turn.answer_cases c store with ⟨same, void⟩ | ⟨request, reply, done, exchange⟩
  · rcases View.permits_of_void void mailbox (store.viewOf mailbox) with ⟨permitted, unchanged⟩
    rw [same, unchanged]
    exact ⟨permitted, rfl⟩
  · rw [exchange]
    exact Store.execute_view done

namespace Race

theorem step_cases {race next : Race α} {turn : Turn} {happening : Happening}
    (stepped : race.step turn = some (happening, next)) :
    ∃ c resume, race.plans[turn.actor]? = some (.call c resume) ∧
      happening = ⟨turn.actor, c, (turn.answer c race.store).1⟩ ∧
      next = ⟨(turn.answer c race.store).2,
        race.plans.set turn.actor (resume (turn.answer c race.store).1)⟩ := by
  unfold step at stepped
  split at stepped
  · next c resume found =>
      cases stepped
      exact ⟨c, resume, found, rfl, rfl⟩
  · cases stepped

theorem step_alone {race next : Race α} {plan : Plan α} {turn : Turn} {happening : Happening}
    (alone : race.plans = [plan]) (stepped : race.step turn = some (happening, next)) :
    ∃ c resume, plan = .call c resume ∧
      next = ⟨(turn.answer c race.store).2, [resume (turn.answer c race.store).1]⟩ := by
  rcases step_cases stepped with ⟨c, resume, called, -, rfl⟩
  rw [alone] at called ⊢
  rcases List.getElem?_eq_some_iff.mp called with ⟨first, same⟩
  have turning : turn.actor = 0 := Nat.lt_one_iff.mp first
  simp only [turning, List.getElem_cons_zero] at same
  exact ⟨c, resume, same, by rw [turning, List.set_cons_zero]⟩

theorem step_of_done {race : Race α} {turn : Turn} {result : Except AccessError α}
    (present : race.plans[turn.actor]? = some (.done result)) : race.step turn = none := by
  rw [step, present]

theorem step_of_call {race : Race α} {turn : Turn} {c : Call} {next : c.Answer → Plan α}
    (present : race.plans[turn.actor]? = some (.call c next)) :
    race.step turn = some (⟨turn.actor, c, (turn.answer c race.store).1⟩,
      ⟨(turn.answer c race.store).2, race.plans.set turn.actor (next (turn.answer c race.store).1)⟩) := by
  rw [step, present]

theorem result_eq_some_iff {race : Race α} {actor : Nat} {result : Except AccessError α} :
    race.result? actor = some result ↔ race.plans[actor]? = some (.done result) := by
  unfold result?
  split
  · next found => simp [found]
  · next other =>
      constructor
      · exact nofun
      · exact fun done => absurd done (other result)

/-- A race that has come so far by these happenings. -/
inductive Reaches (race : Race α) : List Happening → Race α → Prop where
  | start : Reaches race [] race
  | step {history : List Happening} {current next : Race α} {turn : Turn} {happening : Happening}
      (reached : Reaches race history current) (stepped : current.step turn = some (happening, next)) :
      Reaches race (history ++ [happening]) next

theorem Reaches.run {race current last : Race α} {earlier later : List Happening} {turns : List Turn}
    (reached : race.Reaches earlier current) (ran : current.run turns = (later, last)) :
    race.Reaches (earlier ++ later) last := by
  induction turns generalizing current earlier later with
  | nil =>
      cases ran
      rwa [List.append_nil]
  | cons turn turns ih =>
      simp only [Race.run] at ran
      split at ran
      · exact ih reached ran
      · next happening next stepped =>
          cases ran
          have onward := ih (reached.step stepped) rfl
          rwa [List.append_assoc] at onward

theorem reaches_of_run {race last : Race α} {history : List Happening} {turns : List Turn}
    (ran : race.run turns = (history, last)) : race.Reaches history last := Reaches.start.run ran

theorem Reaches.leads {race last : Race α} {history : List Happening} (reached : race.Reaches history last)
    {actor : Nat} {plan : Plan α} (present : race.plans[actor]? = some plan) :
    ∃ rest, last.plans[actor]? = some rest ∧ plan.Leads (own actor history) rest := by
  induction reached with
  | start => exact ⟨plan, present, .here⟩
  | @step history current next turn happening reached stepped ih =>
      rcases ih with ⟨rest, found, led⟩
      rcases step_cases stepped with ⟨c, resume, called, rfl, rfl⟩
      by_cases same : turn.actor = actor
      · subst same
        rw [called] at found
        cases found
        have bound := (List.getElem?_eq_some_iff.mp called).1
        refine ⟨_, List.getElem?_set_self bound, ?_⟩
        rw [own_concat_self]
        exact led.next _
      · refine ⟨rest, ?_, ?_⟩
        · rw [List.getElem?_set_ne same]
          exact found
        · rw [own_concat_of_ne same]
          exact led

theorem Reaches.length_plans {race last : Race α} {history : List Happening}
    (reached : race.Reaches history last) : last.plans.length = race.plans.length := by
  induction reached with
  | start => rfl
  | step reached stepped ih =>
      rcases step_cases stepped with ⟨c, resume, called, rfl, rfl⟩
      rw [List.length_set]
      exact ih

theorem Reaches.exists_plan {race last : Race α} {history : List Happening}
    (reached : race.Reaches history last) {happening : Happening} (member : happening ∈ history) :
    ∃ plan, race.plans[happening.actor]? = some plan := by
  induction reached with
  | start => cases member
  | step reached stepped ih =>
      rcases List.mem_append.mp member with earlier | newest
      · exact ih earlier
      · rcases step_cases stepped with ⟨c, resume, called, rfl, rfl⟩
        rw [List.mem_singleton.mp newest]
        have bound := (List.getElem?_eq_some_iff.mp called).1
        rw [reached.length_plans] at bound
        exact ⟨_, List.getElem?_eq_getElem bound⟩

theorem Reaches.view {race last : Race α} {history : List Happening} (reached : race.Reaches history last)
    (mailbox : MailboxId) :
    last.store.viewOf mailbox = (race.store.viewOf mailbox).replay mailbox history ∧
      ∀ before happening after, history = before ++ happening :: after →
        ((race.store.viewOf mailbox).replay mailbox before).Permits mailbox happening.exchange := by
  induction reached with
  | start =>
      refine ⟨rfl, ?_⟩
      intro before happening after split
      cases before <;> cases split
  | @step history current next turn happening reached stepped ih =>
      rcases ih with ⟨now, earlier⟩
      rcases step_cases stepped with ⟨c, resume, called, rfl, rfl⟩
      rcases turn.answer_view c current.store mailbox with ⟨permitted, after⟩
      rw [now] at permitted after
      refine ⟨by rw [View.replay_concat]; exact after, ?_⟩
      intro before happening later split
      rcases split_concat split with ⟨rfl, rfl, rfl⟩ | ⟨between, rfl, rfl⟩
      · exact permitted
      · exact earlier before happening between rfl

theorem Reaches.read {race last : Race α} {history : List Happening} (reached : race.Reaches history last)
    {mailbox : MailboxId} {seen : Option Record} (shown : race.store.look (.read mailbox) = .ok seen) :
    last.store.look (.read mailbox) = .ok ((race.store.viewOf mailbox).replay mailbox history).record := by
  rw [← (reached.view mailbox).1]
  induction reached with
  | start => rw [shown, Store.record_of_look shown]
  | @step history current next turn happening reached stepped ih =>
      rcases step_cases stepped with ⟨c, resume, called, rfl, rfl⟩
      rcases turn.answer_cases c current.store with ⟨same, -⟩ | ⟨request, reply, done, -⟩
      · dsimp only
        rw [same]
        exact ih
      · exact Store.read_after ih done

theorem Reaches.list {race last : Race α} {history : List Happening} (reached : race.Reaches history last)
    {mailbox : MailboxId} {rows : SortedMap EntryKey Rights}
    (shown : race.store.look (.listMailbox mailbox) = .ok rows) :
    last.store.look (.listMailbox mailbox) = .ok ((race.store.viewOf mailbox).replay mailbox history).rows := by
  rw [← (reached.view mailbox).1]
  induction reached with
  | start => rw [shown, Store.rows_of_look shown]
  | @step history current next turn happening reached stepped ih =>
      rcases step_cases stepped with ⟨c, resume, called, rfl, rfl⟩
      rcases turn.answer_cases c current.store with ⟨same, -⟩ | ⟨request, reply, done, -⟩
      · dsimp only
        rw [same]
        exact ih
      · exact Store.list_after ih done

/-- What could be read of a mailbox at first can be read at any time, and is what the history has made of it. -/
theorem Reaches.shows {race last : Race α} {history : List Happening} (reached : race.Reaches history last)
    {mailbox : MailboxId} {view : View} (shown : race.store.view? mailbox = .ok view) :
    last.store.view? mailbox = .ok (view.replay mailbox history) := by
  rcases Store.view_eq_ok_iff.mp shown with ⟨read, listed⟩
  have same := Store.viewOf_eq shown
  rw [Store.view_eq_ok_iff, ← same]
  exact ⟨reached.read read, reached.list listed⟩

end Race

end MailboxAccess
