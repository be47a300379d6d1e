import MailboxAccess.Plan
import MailboxAccess.Proofs.History

/-!
What can be said of a plan whatever its calls are answered. `Leads` follows one course of answers, `Meets`
speaks of all of them, and `Leads.meets` connects the two.
-/
namespace MailboxAccess.Plan

variable {α β : Type}

/-- These exchanges make up the plan's course so far, and this is left of it. -/
inductive Leads (plan : Plan α) : List Exchange → Plan α → Prop where
  | here : Leads plan [] plan
  | next {trace : List Exchange} {c : Call} {next : c.Answer → Plan α} (led : Leads plan trace (.call c next))
      (answer : c.Answer) : Leads plan (trace ++ [⟨c, answer⟩]) (next answer)

/-- With answers such as `rely` says, `each` holds of every exchange and those before it, and `post` of all
of them and the result. -/
def Meets (rely : Exchange → Prop) (each : List Exchange → Exchange → Prop)
    (post : List Exchange → Except AccessError α → Prop) : Plan α → List Exchange → Prop
  | done result, past => post past result
  | call c next, past =>
    ∀ answer, rely ⟨c, answer⟩ →
      each past ⟨c, answer⟩ ∧ (next answer).Meets rely each post (past ++ [⟨c, answer⟩])

variable {rely : Exchange → Prop} {each : List Exchange → Exchange → Prop} {past : List Exchange}

theorem Meets.mono {plan : Plan α} {post post' : List Exchange → Except AccessError α → Prop}
    {each' : List Exchange → Exchange → Prop} (meets : plan.Meets rely each post past)
    (eachwise : ∀ past x, each past x → each' past x)
    (weaker : ∀ past result, post past result → post' past result) :
    plan.Meets rely each' post' past := by
  induction plan generalizing past with
  | done result => exact weaker past result meets
  | call c next ih =>
      intro answer relied
      rcases meets answer relied with ⟨first, rest⟩
      exact ⟨eachwise past _ first, ih answer rest⟩

theorem Meets.bind {plan : Plan α} {f : α → Plan β} {mid : List Exchange → Except AccessError α → Prop}
    {post : List Exchange → Except AccessError β → Prop} (first : plan.Meets rely each mid past)
    (ok : ∀ past a, mid past (.ok a) → (f a).Meets rely each post past)
    (error : ∀ past e, mid past (.error e) → post past (.error e)) :
    (plan >>= f).Meets rely each post past := by
  rw [bind_eq]
  induction plan generalizing past with
  | done result =>
      cases result with
      | ok a => exact ok past a first
      | error e => exact error past e first
  | call c next ih =>
      intro answer relied
      rcases first answer relied with ⟨here, rest⟩
      exact ⟨here, ih answer rest⟩

theorem Meets.ask_bind {request : Request} {f : request.Reply → Plan β}
    {post : List Exchange → Except AccessError β → Prop}
    (here : ∀ answer, rely ⟨.store request, answer⟩ → each past ⟨.store request, answer⟩)
    (ok : ∀ reply, rely ⟨.store request, .ok reply⟩ →
      (f reply).Meets rely each post (past ++ [⟨.store request, .ok reply⟩]))
    (error : ∀ e, post (past ++ [⟨.store request, .error e⟩]) (.error (.store e))) :
    (Plan.ask request >>= f).Meets rely each post past := by
  intro answer relied
  refine ⟨here answer relied, ?_⟩
  cases answer with
  | ok reply => exact ok reply relied
  | error e => exact error e

theorem Meets.ite {condition : Prop} [Decidable condition] {yes no : Plan α}
    {post : List Exchange → Except AccessError α → Prop}
    (holds : condition → yes.Meets rely each post past) (fails : ¬ condition → no.Meets rely each post past) :
    (if condition then yes else no).Meets rely each post past := by
  split
  · next h => exact holds h
  · next h => exact fails h

theorem Meets.keep {plan : Plan α} {post : List Exchange → Except AccessError α → Prop}
    (meets : plan.Meets rely each post past) (kept : List Exchange → Prop) (holds : kept past)
    (keeps : ∀ past x, kept past → each past x → kept (past ++ [x])) :
    plan.Meets rely (fun past x => kept past ∧ each past x) (fun past result => kept past ∧ post past result)
      past := by
  induction plan generalizing past with
  | done result => exact ⟨holds, meets⟩
  | call c next ih =>
      intro answer relied
      rcases meets answer relied with ⟨here, rest⟩
      exact ⟨⟨holds, here⟩, ih answer rest (keeps past _ holds here)⟩

theorem Meets.and {plan : Plan α} {each' : List Exchange → Exchange → Prop}
    {post post' : List Exchange → Except AccessError α → Prop} (first : plan.Meets rely each post past)
    (second : plan.Meets rely each' post' past) :
    plan.Meets rely (fun past x => each past x ∧ each' past x)
      (fun past result => post past result ∧ post' past result) past := by
  induction plan generalizing past with
  | done result => exact ⟨first, second⟩
  | call c next ih =>
      intro answer relied
      rcases first answer relied with ⟨here, rest⟩
      rcases second answer relied with ⟨here', rest'⟩
      exact ⟨⟨here, here'⟩, ih answer rest rest'⟩

theorem Meets.relied {plan : Plan α} {post : List Exchange → Except AccessError α → Prop}
    (meets : plan.Meets rely each post past) (before : ∀ x ∈ past, rely x) :
    plan.Meets rely each (fun past result => (∀ x ∈ past, rely x) ∧ post past result) past := by
  induction plan generalizing past with
  | done result => exact ⟨before, meets⟩
  | call c next ih =>
      intro answer relied
      rcases meets answer relied with ⟨here, rest⟩
      refine ⟨here, ih answer rest ?_⟩
      intro x member
      rcases List.mem_append.mp member with earlier | newest
      · exact before x earlier
      · rw [List.mem_singleton.mp newest]
        exact relied

/-- What holds if the plan succeeds. -/
def Returns (post : List Exchange → α → Prop) (past : List Exchange) (result : Except AccessError α) : Prop :=
  ∀ a, result = .ok a → post past a

theorem returns_ok {post : List Exchange → α → Prop} {a : α} (holds : post past a) :
    Returns post past (.ok a) := by
  intro other same
  cases same
  exact holds

theorem returns_error {post : List Exchange → α → Prop} {e : AccessError} : Returns post past (.error e) := nofun

theorem Meets.bind_returns {plan : Plan α} {f : α → Plan β} {mid : List Exchange → α → Prop}
    {post : List Exchange → β → Prop} (first : plan.Meets rely each (Returns mid) past)
    (rest : ∀ past a, mid past a → (f a).Meets rely each (Returns post) past) :
    (plan >>= f).Meets rely each (Returns post) past := by
  refine first.bind ?_ (fun _ _ _ => returns_error)
  intro past a promised
  exact rest past a (promised a rfl)

theorem Meets.also {plan : Plan α} {each' : List Exchange → Exchange → Prop} {post : List Exchange → α → Prop}
    {post' : List Exchange → Except AccessError α → Prop} (first : plan.Meets rely each (Returns post) past)
    (second : plan.Meets rely each' post' past) :
    plan.Meets rely each (Returns fun past a => post past a ∧ post' past (.ok a)) past := by
  refine (first.and second).mono (fun _ _ both => both.1) ?_
  intro past result both a same
  rcases both with ⟨returned, promised⟩
  subst same
  exact ⟨returned a rfl, promised⟩

theorem Leads.meets {plan rest : Plan α} {trace : List Exchange}
    {post : List Exchange → Except AccessError α → Prop} (led : plan.Leads trace rest)
    (meets : plan.Meets rely each post []) (relied : ∀ x ∈ trace, rely x) :
    (∀ before x after, trace = before ++ x :: after → each before x) ∧ rest.Meets rely each post trace := by
  induction led with
  | here =>
      refine ⟨?_, meets⟩
      intro before x after split
      cases before <;> cases split
  | next led answer ih =>
      rcases ih fun x member => relied x (List.mem_append_left _ member) with ⟨earlier, now⟩
      rcases now answer (relied _ (List.mem_append_right _ List.mem_cons_self)) with ⟨here, rest⟩
      refine ⟨?_, rest⟩
      intro before x after split
      rcases split_concat split with ⟨rfl, rfl, rfl⟩ | ⟨between, rfl, rfl⟩
      · exact here
      · exact earlier before x between rfl

end MailboxAccess.Plan
