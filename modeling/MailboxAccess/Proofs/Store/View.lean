import MailboxAccess.Store
import Mathlib.Tactic

/-!
What a store holds about one mailbox, whichever kind of store it is: its record and its rows. The view
determines the answers about the mailbox, and each answer the next view.
-/
namespace MailboxAccess

namespace Request

def stored? (mailbox : MailboxId) : (request : Request) → request.Reply → Option Record
  | insert place acl, created =>
    if place = mailbox then cond created (some ⟨acl, Record.firstVersion⟩) none else none
  | swap place acl new _, swapped =>
    if place = mailbox then cond swapped (some ⟨acl, new⟩) none else none
  | overwrite place acl, _ => if place = mailbox then some ⟨acl, Record.firstVersion⟩ else none
  | _, _ => none

/-- What the request puts into the mailbox's row of the key, or `none` if it leaves that row alone. -/
def row? (mailbox : MailboxId) (key : EntryKey) : Request → Option (Option Rights)
  | upsert identity place rights => if place = mailbox ∧ identity = key then some (some rights) else none
  | delete identity place => if place = mailbox ∧ identity = key then some none else none
  | _ => none

def mailbox? : Request → Option MailboxId
  | read mailbox => some mailbox
  | insert mailbox _ => some mailbox
  | swap mailbox _ _ _ => some mailbox
  | overwrite mailbox _ => some mailbox
  | upsert _ mailbox _ => some mailbox
  | delete _ mailbox => some mailbox
  | retrieve _ mailbox => some mailbox
  | listMailbox mailbox => some mailbox
  | listIdentity _ => none

end Request

structure View where
  record : Option Record
  rows : SortedMap EntryKey Rights
  deriving DecidableEq

namespace View

def rowsAfter (mailbox : MailboxId) (rows : SortedMap EntryKey Rights) : Request → SortedMap EntryKey Rights
  | .upsert identity place rights => if place = mailbox then rows.insert identity rights else rows
  | .delete identity place => if place = mailbox then rows.erase identity else rows
  | _ => rows

def after (mailbox : MailboxId) (view : View) (request : Request) (reply : request.Reply) : View where
  record := (request.stored? mailbox reply).or view.record
  rows := rowsAfter mailbox view.rows request

/-- What a store with this view may answer; what concerns other mailboxes is left open. -/
def Allows (mailbox : MailboxId) (view : View) : (request : Request) → request.Reply → Prop
  | .read place, record => place = mailbox → record = view.record
  | .insert place _, created => place = mailbox → created = view.record.isNone
  | .swap place _ _ expected, swapped =>
    place = mailbox → swapped = decide (view.record.map Record.version = some expected)
  | .retrieve key place, rights => place = mailbox → rights = view.rows.get? key
  | .listMailbox place, rows => place = mailbox → rows = view.rows
  | _, _ => True

theorem get?_rowsAfter (mailbox : MailboxId) (rows : SortedMap EntryKey Rights) (request : Request)
    (key : EntryKey) :
    (rowsAfter mailbox rows request).get? key = (request.row? mailbox key).getD (rows.get? key) := by
  cases request with
  | upsert identity place rights =>
      by_cases here : place = mailbox
      · simp only [rowsAfter, Request.row?, here, if_true, true_and, SortedMap.get?_insert,
          Std.LawfulEqCmp.compare_eq_iff_eq, eq_comm (a := key)]
        split <;> rfl
      · simp [rowsAfter, Request.row?, here]
  | delete identity place =>
      by_cases here : place = mailbox
      · simp only [rowsAfter, Request.row?, here, if_true, true_and, SortedMap.get?_erase,
          Std.LawfulEqCmp.compare_eq_iff_eq, eq_comm (a := key)]
        split <;> rfl
      · simp [rowsAfter, Request.row?, here]
  | _ => rfl

variable {view : View} {mailbox place : MailboxId} {request : Request} {reply other : request.Reply}

theorem after_elsewhere (apart : request.mailbox? ≠ some mailbox) : view.after mailbox request reply = view := by
  cases request <;> simp_all [after, Request.stored?, rowsAfter, Request.mailbox?]

theorem allows_unique (about : request.mailbox? = some mailbox) (first : view.Allows mailbox request reply)
    (second : view.Allows mailbox request other) : reply = other := by
  cases request with
  | read | insert | swap | retrieve | listMailbox =>
      have here := Option.some.inj about
      exact (first here).trans (second here).symm
  | overwrite | upsert | delete => rfl
  | listIdentity => cases about

end View

end MailboxAccess
