import MailboxAccess.Proofs.Cut
import MailboxAccess.Proofs.Store.Local

/-!
Mailboxes keep apart. What an operation does concerns the one mailbox that it is on, so a race looks from there as if
the operations on other mailboxes had not taken a turn (`mailboxes_apart`).
-/
namespace MailboxAccess

inductive Operation where
  | task (task : Task)
  | repair (mailbox : MailboxId) (acl : Acl)

namespace Operation

inductive Result where
  | ended (outcome : Outcome)
  | repaired (diff : Diff)
  deriving DecidableEq

def mailbox : Operation → MailboxId
  | task asked => asked.mailbox
  | repair mailbox _ => mailbox

def plan : Operation → Plan Result
  | task asked => do return .ended (← asked.plan)
  | repair mailbox acl => do return .repaired (← Index.repair mailbox acl)

end Operation

namespace Plan

variable {α β : Type} {mailbox : MailboxId}

def About (mailbox : MailboxId) : Plan α → Prop
  | done _ => True
  | call c next => c.About mailbox ∧ ∀ answer, (next answer).About mailbox

theorem Meets.about {plan : Plan α} {past : List Exchange} {post : List Exchange → Except AccessError α → Prop}
    (meets : plan.Meets (fun _ => True) (fun _ x => x.call.About mailbox) post past) : plan.About mailbox := by
  induction plan generalizing past with
  | done result => trivial
  | call c next ih =>
      have here : c.About mailbox := (meets (Store.answer c Store.inMemory).1 trivial).1
      exact ⟨here, fun answer => ih answer (meets answer trivial).2⟩

theorem About.bind {plan : Plan α} {f : α → Plan β} (first : plan.About mailbox) (rest : ∀ a, (f a).About mailbox) :
    (plan >>= f).About mailbox := by
  rw [bind_eq]
  induction plan with
  | done result =>
      cases result with
      | ok a => exact rest a
      | error e => trivial
  | call c next ih => exact ⟨first.1, fun answer => ih answer (first.2 answer)⟩

end Plan

theorem Operation.plan_about (operation : Operation) : operation.plan.About operation.mailbox := by
  cases operation with
  | task asked =>
      have about : asked.plan.About asked.mailbox :=
        (asked.plan_meets.mono (fun _ _ moves => moves.about) fun _ _ => id).about
      exact about.bind fun _ => trivial
  | repair mailbox acl =>
      have upkeep : (Index.repair mailbox acl).Meets (fun _ => True) (fun _ x => Upkeep mailbox x.call) Faultless [] :=
        (Index.repair_meets acl []).upkeep
      have about : (Index.repair mailbox acl).About mailbox :=
        (upkeep.mono (fun _ _ upkeep => upkeep.about) fun _ _ => id).about
      exact about.bind fun _ => trivial

theorem Turn.answer_agree (turn : Turn) {c : Call} {a b : Store} {mailbox : MailboxId} (about : c.About mailbox)
    (agree : Store.Agree mailbox a b) :
    (turn.answer c a).1 = (turn.answer c b).1 ∧ Store.Agree mailbox (turn.answer c a).2 (turn.answer c b).2 := by
  have usual : (Store.answer c a).1 = (Store.answer c b).1 ∧
      Store.Agree mailbox (Store.answer c a).2 (Store.answer c b).2 := by
    cases c with
    | store request =>
        have matched := agree.execute about
        simp only [Store.answer]
        generalize a.execute request = executed, b.execute request = executed' at matched
        cases matched with
        | ok reply after => exact ⟨rfl, after⟩
        | error e => exact ⟨rfl, agree⟩
    | hook => exact ⟨rfl, agree⟩
    | notify => exact ⟨rfl, agree⟩
  cases turn with
  | act actor => exact usual
  | fault actor e =>
      cases c with
      | store request => exact ⟨rfl, agree⟩
      | _ => exact usual
  | refuse actor e =>
      cases c with
      | store request => exact usual
      | _ => exact ⟨rfl, agree⟩

namespace Race

variable {α : Type} {mailbox : MailboxId} {mine : Nat → Bool} {race alone : Race α}

/-- A race, and the same race without the turns of those who are not on the mailbox. -/
structure Beside (mailbox : MailboxId) (mine : Nat → Bool) (race alone : Race α) : Prop where
  agree : Store.Agree mailbox race.store alone.store
  plans : ∀ actor, mine actor = true → race.plans[actor]? = alone.plans[actor]?
  here : ∀ actor plan, mine actor = true → race.plans[actor]? = some plan → plan.About mailbox
  elsewhere : ∀ actor plan, mine actor = false → race.plans[actor]? = some plan →
    ∃ place, place ≠ mailbox ∧ plan.About place

theorem plan_of_set {plans : List (Plan α)} {actor other : Nat} {rest plan : Plan α}
    (found : (plans.set actor rest)[other]? = some plan) :
    (actor = other ∧ plan = rest) ∨ plans[other]? = some plan := by
  rw [List.getElem?_set] at found
  split at found
  · next same =>
      split at found
      · exact .inl ⟨same, (Option.some.inj found).symm⟩
      · cases found
  · exact .inr found

theorem Beside.step_mine (beside : Beside mailbox mine race alone) {turn : Turn} (own : mine turn.actor = true) :
    (race.step turn = none ∧ alone.step turn = none) ∨
      ∃ happening next next', race.step turn = some (happening, next) ∧ alone.step turn = some (happening, next') ∧
        Beside mailbox mine next next' := by
  have plans := beside.plans turn.actor own
  cases found : race.plans[turn.actor]? with
  | none =>
      rw [found] at plans
      exact .inl ⟨by rw [step, found], by rw [step, ← plans]⟩
  | some plan =>
      rw [found, eq_comm] at plans
      cases plan with
      | done result => exact .inl ⟨step_of_done found, step_of_done plans⟩
      | call c resume =>
          -- a call about the mailbox, which both stores hold alike, is answered alike
          have about := beside.here turn.actor _ own found
          rcases turn.answer_agree about.1 beside.agree with ⟨answers, agree⟩
          have stepped := step_of_call plans
          rw [← answers] at stepped
          refine .inr ⟨_, _, _, step_of_call found, stepped, ?_⟩
          refine ⟨agree, ?_, ?_, ?_⟩
          · intro actor among
            by_cases same : turn.actor = actor
            · subst same
              rw [List.getElem?_set_self (List.getElem?_eq_some_iff.mp found).1,
                List.getElem?_set_self (List.getElem?_eq_some_iff.mp plans).1]
            · rw [List.getElem?_set_ne same, List.getElem?_set_ne same]
              exact beside.plans actor among
          · intro actor plan among present
            rcases plan_of_set present with ⟨-, rfl⟩ | before
            · exact about.2 _
            · exact beside.here actor plan among before
          · intro actor plan foreign present
            rcases plan_of_set present with ⟨rfl, -⟩ | before
            · rw [own] at foreign
              cases foreign
            · exact beside.elsewhere actor plan foreign before

theorem Beside.step_other (beside : Beside mailbox mine race alone) {turn : Turn} (foreign : mine turn.actor = false)
    {happening : Happening} {next : Race α} (stepped : race.step turn = some (happening, next)) :
    Beside mailbox mine next alone := by
  rcases step_cases stepped with ⟨c, resume, found, -, rfl⟩
  rcases beside.elsewhere turn.actor _ foreign found with ⟨place, apart, about⟩
  refine ⟨(turn.agree_elsewhere about.1 apart).trans beside.agree, ?_, ?_, ?_⟩
  · intro actor among
    have other : turn.actor ≠ actor := by
      intro same
      rw [same, among] at foreign
      cases foreign
    rw [List.getElem?_set_ne other]
    exact beside.plans actor among
  · intro actor plan among present
    rcases plan_of_set present with ⟨rfl, -⟩ | before
    · rw [among] at foreign
      cases foreign
    · exact beside.here actor plan among before
  · intro actor plan other present
    rcases plan_of_set present with ⟨-, rfl⟩ | before
    · exact ⟨place, apart, about.2 _⟩
    · exact beside.elsewhere actor plan other before

theorem happening_actor {next : Race α} {turn : Turn} {happening : Happening}
    (stepped : race.step turn = some (happening, next)) : happening.actor = turn.actor := by
  rcases step_cases stepped with ⟨c, resume, -, rfl, -⟩
  rfl

theorem Beside.run (beside : Beside mailbox mine race alone) (turns : List Turn) :
    (alone.run (turns.filter fun turn => mine turn.actor)).1 =
        (race.run turns).1.filter (fun happening => mine happening.actor) ∧
      Beside mailbox mine (race.run turns).2 (alone.run (turns.filter fun turn => mine turn.actor)).2 := by
  induction turns generalizing race alone with
  | nil => exact ⟨rfl, beside⟩
  | cons turn turns ih =>
      cases own : mine turn.actor with
      | true =>
          rw [List.filter_cons, if_pos own]
          rcases beside.step_mine own with ⟨idle, idle'⟩ | ⟨happening, next, next', stepped, stepped', onward⟩
          · simp only [Race.run, idle, idle']
            exact ih beside
          · have among : mine happening.actor = true := by rw [happening_actor stepped, own]
            simp only [Race.run, stepped, stepped', List.filter_cons, among, if_true, (ih onward).1, true_and]
            exact (ih onward).2
      | false =>
          rw [List.filter_cons, own, if_neg Bool.false_ne_true]
          cases stepped : race.step turn with
          | none =>
              simp only [Race.run, stepped]
              exact ih beside
          | some result =>
              rcases result with ⟨happening, next⟩
              have silent : mine happening.actor = false := by rw [happening_actor stepped, own]
              simp only [Race.run, stepped, List.filter_cons, silent, Bool.false_eq_true, if_false]
              exact ih (beside.step_other own stepped)

end Race

namespace Operation

def concerns (operations : List Operation) (mailbox : MailboxId) (actor : Nat) : Bool :=
  operations[actor]?.any fun operation => operation.mailbox = mailbox

def start (store : Store) (operations : List Operation) : Race Result := ⟨store, operations.map plan⟩

theorem beside_start (store : Store) (operations : List Operation) (mailbox : MailboxId) :
    Race.Beside mailbox (concerns operations mailbox) (start store operations) (start store operations) where
  agree := .refl mailbox store
  plans _ _ := rfl
  here actor plan among present := by
    rw [start, List.getElem?_map, Option.map_eq_some_iff] at present
    rcases present with ⟨operation, listed, rfl⟩
    have here : operation.mailbox = mailbox := by simpa [concerns, listed] using among
    rw [← here]
    exact operation.plan_about
  elsewhere actor plan foreign present := by
    rw [start, List.getElem?_map, Option.map_eq_some_iff] at present
    rcases present with ⟨operation, listed, rfl⟩
    have apart : operation.mailbox ≠ mailbox := by simpa [concerns, listed] using foreign
    exact ⟨operation.mailbox, apart, operation.plan_about⟩

/-- Whatever an operation does on its turn, every other mailbox is kept as it was. -/
def Harmless (operations : List Operation) (race : Race Result) : Prop :=
  ∀ turn happening next operation, race.step turn = some (happening, next) →
    operations[turn.actor]? = some operation →
      ∀ place, place ≠ operation.mailbox → Store.Agree place next.store race.store

/-- What a run and the run of the mailbox's own turns have in common. -/
structure Undisturbed (operations : List Operation) (mailbox : MailboxId) (whole own : List Happening × Race Result) :
    Prop where
  /-- The same has been asked and answered. -/
  happened : own.1 = whole.1.filter fun happening => concerns operations mailbox happening.actor
  kept : Store.Agree mailbox whole.2.store own.2.store
  shown : Store.Alike mailbox whole.2.store own.2.store
  result : ∀ actor, concerns operations mailbox actor = true → whole.2.result? actor = own.2.result? actor

/-- Whatever happens on other mailboxes, and whatever goes wrong there, what is held of a mailbox and what comes of the
operations on it is as if they had had the store to themselves. -/
theorem mailboxes_apart (store : Store) (operations : List Operation) (turns : List Turn) :
    (∀ mailbox, Undisturbed operations mailbox ((start store operations).run turns)
        ((start store operations).run (turns.filter fun turn => concerns operations mailbox turn.actor))) ∧
      Harmless operations ((start store operations).run turns).2 := by
  constructor
  · intro mailbox
    rcases (beside_start store operations mailbox).run turns with ⟨happened, beside⟩
    refine ⟨happened, beside.agree, beside.agree.alike, ?_⟩
    intro actor among
    rw [Race.result?, Race.result?, beside.plans actor among]
  · intro turn happening next operation stepped listed place apart
    have among : concerns operations operation.mailbox turn.actor = true := by simp [concerns, listed]
    rcases (beside_start store operations operation.mailbox).run turns with ⟨-, beside⟩
    rcases Race.step_cases stepped with ⟨c, resume, found, -, rfl⟩
    exact turn.agree_elsewhere (beside.here turn.actor _ among found).1 apart.symm

end Operation

end MailboxAccess
