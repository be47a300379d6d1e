import MailboxAccess.Plan

/-!
Plans that run at the same time on one store. A schedule says whose turn it is; a turn makes one call, or
lets it go wrong. Every interleaving is the run of some schedule.
-/
namespace MailboxAccess

structure Race (α : Type) where
  store : Store
  plans : List (Plan α)

/-- Whose turn it is, and whether something goes wrong on it; what cannot go wrong that way goes on as usual. -/
inductive Turn where
  | act (actor : Nat)
  /-- A request fails and changes nothing. -/
  | fault (actor : Nat) (error : StoreError)
  /-- A hook stops the write, and a listener does not cope. -/
  | refuse (actor : Nat) (error : AccessError)
  deriving DecidableEq

structure Happening where
  actor : Nat
  exchange : Exchange

def Turn.actor : Turn → Nat
  | act actor => actor
  | fault actor _ => actor
  | refuse actor _ => actor

def Turn.answer : Turn → (c : Call) → Store → c.Answer × Store
  | fault _ e, .store _, store => (.error e, store)
  | refuse _ e, .hook _ _, store => (.error e, store)
  | refuse _ _, .notify _ _, store => (false, store)
  | _, c, store => Store.answer c store

namespace Race

variable {α : Type}

/-- Nothing happens on the turn of a plan that is done or was never there. -/
def step (race : Race α) (turn : Turn) : Option (Happening × Race α) :=
  match race.plans[turn.actor]? with
  | some (.call c next) =>
    let (answer, store) := turn.answer c race.store
    some (⟨turn.actor, c, answer⟩, ⟨store, race.plans.set turn.actor (next answer)⟩)
  | _ => none

def run : List Turn → Race α → List Happening × Race α
  | [], race => ([], race)
  | turn :: turns, race =>
    match race.step turn with
    | none => run turns race
    | some (happening, next) =>
      let (later, last) := run turns next
      (happening :: later, last)

def result? (race : Race α) (actor : Nat) : Option (Except AccessError α) :=
  match race.plans[actor]? with
  | some (.done result) => some result
  | _ => none

end Race

end MailboxAccess
