import MailboxAccess.Proofs.Grants

namespace MailboxAccess

theorem Rights.except_empty (a : Rights) : a.except empty = a := by
  apply ext_contains
  intro right
  rw [contains_except, contains_empty, Bool.not_false, Bool.and_true]

theorem Mode.edit_empty {mode : Mode} (keeps : mode ≠ .replace) (held : Rights) :
    mode.edit held Rights.empty = held := by
  cases mode with
  | add => exact held.union_empty
  | remove => exact held.except_empty
  | replace => exact absurd rfl keeps

def Command.each (mode : Mode) (entries : List (EntryKey × Rights)) : List Command :=
  entries.map fun entry => ⟨entry.1, mode, entry.2⟩

namespace Acl

open SortedMap (find find_cons_self find_cons_of_ne find_eq_none_iff find_eq_some_iff)

variable {listed entries : List (EntryKey × Rights)}

theorem rightsOf_foldl_apply (commands : List Command) (acl : Acl) (key : EntryKey) :
    (commands.foldl apply acl).rightsOf key =
      (commands.filter fun command => command.key = key).foldl
        (fun held command => command.mode.edit held command.rights) (acl.rightsOf key) := by
  induction commands generalizing acl with
  | nil => rfl
  | cons command rest ih =>
      rw [List.foldl_cons, ih, rightsOf_apply, List.filter_cons]
      by_cases same : key = command.key
      · simp [same]
      · simp [same, Ne.symm same]

theorem filter_each (distinct : listed.Pairwise fun a b => a.1 ≠ b.1) (mode : Mode) (key : EntryKey) :
    (Command.each mode listed).filter (fun command => command.key = key) =
      ((find key listed).map fun rights => ⟨key, mode, rights⟩).toList := by
  induction listed with
  | nil => rfl
  | cons head rest ih =>
      rcases List.pairwise_cons.mp distinct with ⟨apart, tail⟩
      have later := ih tail
      rw [Command.each] at later ⊢
      rw [List.map_cons, List.filter_cons, later]
      by_cases same : key = head.1
      · have gone : find key rest = none :=
          find_eq_none_iff.mpr fun entry member => same ▸ (apart entry member).symm
        rw [gone, same, find_cons_self]
        simp
      · rw [find_cons_of_ne same]
        simp [Ne.symm same]

theorem find_of_perm (order : listed.Perm entries) (apart : listed.Pairwise fun a b => a.1 ≠ b.1)
    (distinct : entries.Pairwise fun a b => a.1 ≠ b.1) (key : EntryKey) : find key listed = find key entries := by
  apply Option.ext
  intro rights
  rw [find_eq_some_iff apart, find_eq_some_iff distinct, order.mem_iff]

theorem rightsOf_foldl_each {b : Acl} (order : listed.Perm b.entries) {mode : Mode} (keeps : mode ≠ .replace) (a : Acl)
    (key : EntryKey) :
    ((Command.each mode listed).foldl apply a).rightsOf key = mode.edit (a.rightsOf key) (b.rightsOf key) := by
  have distinct : b.entries.Pairwise fun a b => a.1 ≠ b.1 := b.table.distinct
  have apart : listed.Pairwise fun a b => a.1 ≠ b.1 := distinct.perm order.symm fun differ => differ.symm
  rw [rightsOf_foldl_apply, filter_each apart, find_of_perm order apart distinct]
  cases held : find key b.entries with
  | none =>
      rw [rightsOf, rightsOf, show b.get? key = none from held]
      exact (Mode.edit_empty keeps _).symm
  | some rights =>
      rw [rightsOf, rightsOf, show b.get? key = some rights from held]
      rfl

/-- A list is joined, or taken away, by one command for each of its entries, whichever comes first. -/
theorem bulk_edits (a b : Acl) (order : listed.Perm b.entries) :
    (Command.each .add listed).foldl apply a = a.union b ∧
      (Command.each .remove listed).foldl apply a = a.except b := by
  constructor
  · apply ext_rightsOf
    intro key
    rw [rightsOf_foldl_each order (by decide), rightsOf_union]
    rfl
  · apply ext_rightsOf
    intro key
    rw [rightsOf_foldl_each order (by decide), rightsOf_except]
    rfl

def clientList : Acl := ofEntries [(.owner, .full), (.anyone, .only .lookup)]

def revoked : Acl := ofEntries [(.owner, .only .administer), (.anyone, .only .lookup)]

theorem bulk_edits_of_revoked :
    revoked.entries.reverse.Perm revoked.entries ∧
      (Command.each .add revoked.entries.reverse).foldl apply clientList = clientList.union revoked ∧
      (Command.each .remove revoked.entries.reverse).foldl apply clientList = clientList.except revoked := by
  have order : revoked.entries.reverse.Perm revoked.entries := List.reverse_perm _
  exact ⟨order, bulk_edits clientList revoked order⟩

end Acl

end MailboxAccess
