import MailboxAccess.Plan

/-!
A channel on which commits are announced. It keeps a limited number of the newest; a subscriber that falls
further behind is told once how many it missed.
-/
namespace MailboxAccess

structure Feed where
  capacity : Nat
  /-- How many commits were ever sent to somebody. -/
  sent : Nat
  /-- The newest of them, oldest first. -/
  kept : List Commit
  /-- For each subscriber that is still there, the number of the commit that it is to get next. -/
  subscribers : List (Option Nat)

inductive Received where
  | commit (commit : Commit)
  | empty
  | lagged (missed : Nat)
  deriving DecidableEq

namespace Feed

def maxCapacity : Nat := 0x100000000000000

/-- Room for at least the given number of commits, rounded up to a power of two. A feed without room is
none, and neither is one that asks for too much. -/
def make? (capacity : Nat) : Option Feed :=
  if capacity = 0 ∨ maxCapacity < capacity then none else some ⟨capacity.nextPowerOfTwo, 0, [], []⟩

def count (feed : Feed) : Nat := (feed.subscribers.filter Option.isSome).length

def send (feed : Feed) (commit : Commit) : Feed :=
  if feed.count = 0 then feed
  else
    let all := feed.kept ++ [commit]
    { feed with sent := feed.sent + 1, kept := all.drop (all.length - feed.capacity) }

def subscribe (feed : Feed) : Nat × Feed :=
  (feed.subscribers.length, { feed with subscribers := feed.subscribers ++ [some feed.sent] })

def unsubscribe (feed : Feed) (subscriber : Nat) : Feed :=
  { feed with subscribers := feed.subscribers.set subscriber none }

def advance (feed : Feed) (subscriber next : Nat) : Feed :=
  { feed with subscribers := feed.subscribers.set subscriber (some next) }

def receive (feed : Feed) (subscriber : Nat) : Option (Received × Feed) := do
  let next ← (← feed.subscribers[subscriber]?)
  let oldest := feed.sent - feed.kept.length
  if next < oldest then
    return (.lagged (oldest - next), feed.advance subscriber oldest)
  else
    match feed.kept[next - oldest]? with
    | some commit => return (.commit commit, feed.advance subscriber (next + 1))
    | none => return (.empty, feed)

end Feed

end MailboxAccess
