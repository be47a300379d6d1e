import MailboxAccess.AccessError
import MailboxAccess.Acl.Diff
import MailboxAccess.Store

/-!
Operations as plans: trees of calls, with what happens next for each answer. Whoever runs a plan answers
its calls one at a time, so other plans may run between two of them.
-/
namespace MailboxAccess

structure Commit where
  mailbox : MailboxId
  version : UInt64
  diff : Diff
  deriving DecidableEq

inductive Call where
  | store (request : Request)
  /-- Asked before each conditional write of an update. -/
  | hook (mailbox : MailboxId) (attempt : Nat)
  | notify (listener : Nat) (commit : Commit)
  deriving DecidableEq

/-- A listener answers whether it coped. -/
def Call.Answer : Call → Type
  | .store request => Except StoreError request.Reply
  | .hook _ _ => Except AccessError Unit
  | .notify _ _ => Bool

structure Exchange where
  call : Call
  answer : call.Answer

inductive Plan (α : Type) where
  | done (result : Except AccessError α)
  | call (c : Call) (next : c.Answer → Plan α)

namespace Plan

variable {α β σ : Type}

def bind : Plan α → (α → Plan β) → Plan β
  | done (.ok a), f => f a
  | done (.error e), _ => done (.error e)
  | call c next, f => call c fun answer => (next answer).bind f

instance : Monad Plan where
  pure a := done (.ok a)
  bind := bind

def fail (e : AccessError) : Plan α := done (.error e)

def ask (request : Request) : Plan request.Reply :=
  call (.store request) fun
    | .ok reply => done (.ok reply)
    | .error e => done (.error (.store e))

/-- Runs a plan in a world that answers its calls. -/
def run (answer : (c : Call) → σ → c.Answer × σ) : Plan α → σ → Except AccessError α × σ
  | done result, world => (result, world)
  | call c next, world =>
    let (reply, world) := answer c world
    (next reply).run answer world

theorem bind_eq (plan : Plan α) (f : α → Plan β) : plan >>= f = plan.bind f := rfl

theorem run_bind (answer : (c : Call) → σ → c.Answer × σ) (plan : Plan α) (f : α → Plan β) (world : σ) :
    (plan.bind f).run answer world =
      match plan.run answer world with
      | (.ok a, after) => (f a).run answer after
      | (.error e, after) => (.error e, after) := by
  induction plan generalizing world with
  | done result => cases result <;> rfl
  | call c next ih => exact ih _ _

theorem bind_assoc {γ : Type} (plan : Plan α) (f : α → Plan β) (g : β → Plan γ) :
    (plan.bind f).bind g = plan.bind fun a => (f a).bind g := by
  induction plan with
  | done result => cases result <;> rfl
  | call c next ih =>
      simp only [bind]
      congr 1
      funext reply
      exact ih reply

end Plan

/-- A store by itself: hooks let every write pass, and listeners cope. -/
def Store.answer : (c : Call) → Store → c.Answer × Store
  | .store request, store =>
    match store.execute request with
    | .ok (reply, next) => (.ok reply, next)
    | .error e => (.error e, store)
  | .hook _ _, store => (.ok (), store)
  | .notify _ _, store => (true, store)

end MailboxAccess
