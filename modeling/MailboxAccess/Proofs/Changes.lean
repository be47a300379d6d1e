import MailboxAccess.Proofs.ByteOrder
import MailboxAccess.Proofs.Grants

namespace MailboxAccess

def Change.swap (change : Change) : Change := ⟨change.key, change.new, change.old⟩

namespace Diff

open SortedMap (find find_eq_none mem_of_find_eq_some)

def Rising (changes : List Change) : Prop := changes.Pairwise fun a b => compare a.key b.key = .lt

theorem above_merge {old new : List (EntryKey × Rights)} (oldAscending : Ascending old) (newAscending : Ascending new)
    {key : EntryKey} (aboveOld : ∀ entry ∈ old, compare key entry.1 = .lt)
    (aboveNew : ∀ entry ∈ new, compare key entry.1 = .lt) : ∀ change ∈ merge old new, compare key change.key = .lt := by
  intro change member
  rcases (mem_merge_iff oldAscending newAscending change).mp member with ⟨before, after, differ⟩
  cases inOld : find change.key old with
  | some rights => exact aboveOld (change.key, rights) (mem_of_find_eq_some inOld)
  | none =>
      cases inNew : find change.key new with
      | some rights => exact aboveNew (change.key, rights) (mem_of_find_eq_some inNew)
      | none => exact absurd (by rw [before, after, inOld, inNew]) differ

theorem rising_merge {old new : List (EntryKey × Rights)} (oldAscending : Ascending old)
    (newAscending : Ascending new) : Rising (merge old new) := by
  -- What goes first is below all that is left on both sides, and so below every later change.
  induction old, new using merge.induct with
  | case1 new =>
      rw [merge, Rising, List.pairwise_map]
      exact newAscending
  | case2 old left =>
      rw [merge.eq_2 _ left, Rising, List.pairwise_map]
      exact oldAscending
  | case3 a old b new less ih =>
      rcases List.pairwise_cons.mp oldAscending with ⟨below, rest⟩
      rw [merge, less]
      exact List.pairwise_cons.mpr
        ⟨above_merge rest newAscending below (above_of_lt less newAscending), ih rest newAscending⟩
  | case4 a old b new more ih =>
      rcases List.pairwise_cons.mp newAscending with ⟨below, rest⟩
      have less := above_of_lt (Std.OrientedCmp.lt_of_gt more) oldAscending
      rw [merge, more]
      exact List.pairwise_cons.mpr ⟨above_merge oldAscending rest less below, ih oldAscending rest⟩
  | case5 a old b new equal rights ih =>
      rw [merge, equal]
      simp only [rights, if_true]
      exact ih oldAscending.tail newAscending.tail
  | case6 a old b new equal rights ih =>
      rcases List.pairwise_cons.mp oldAscending with ⟨belowOld, restOld⟩
      rcases List.pairwise_cons.mp newAscending with ⟨belowNew, restNew⟩
      have keys : a.1 = b.1 := Std.LawfulEqCmp.eq_of_compare equal
      rw [merge, equal]
      simp only [rights, if_false]
      rw [← keys] at belowNew
      exact List.pairwise_cons.mpr ⟨above_merge restOld restNew belowOld belowNew, ih restOld restNew⟩

theorem rising_between (old new : Acl) : Rising (between old new).changes :=
  rising_merge old.table.ascending new.table.ascending

theorem rising_map {entries : List (EntryKey × Rights)} (ascending : Ascending entries)
    {change : EntryKey × Rights → Change} (keyed : ∀ entry, (change entry).key = entry.1) :
    Rising (entries.map change) := by
  rw [Rising, List.pairwise_map]
  apply ascending.imp
  intro a b less
  rwa [keyed, keyed]

theorem ofKind_eq {old new : Acl} {kind : ChangeKind} {listed : List Change} (rising : Rising listed)
    (members : ∀ change : Change, change ∈ listed ↔ change.kind = kind ∧
      change.old = old.get? change.key ∧ change.new = new.get? change.key ∧ change.old ≠ change.new) :
    (between old new).ofKind kind = listed := by
  apply SortedMap.eq_of_ascending Change.key
  · exact (rising_between old new).filter _
  · exact rising
  · intro change
    rw [members, ofKind, List.mem_filter, mem_between_iff, decide_eq_true_eq, and_comm]

theorem get?_of_mem {acl : Acl} {key : EntryKey} {rights : Rights} (member : (key, rights) ∈ acl.entries) :
    acl.get? key = some rights :=
  SortedMap.get?_eq_some_iff.mpr member

theorem mem_of_get? {acl : Acl} {key : EntryKey} {rights : Rights} (found : acl.get? key = some rights) :
    (key, rights) ∈ acl.entries :=
  SortedMap.get?_eq_some_iff.mp found

theorem added_between (old new : Acl) :
    (between old new).added = (new.entries.filter fun entry => old.get? entry.1 = none).map addition := by
  apply ofKind_eq (rising_map (new.table.ascending.filter _) fun entry => rfl)
  intro change
  rw [List.mem_map]
  constructor
  · intro listed
    rcases listed with ⟨⟨key, rights⟩, member, rfl⟩
    rcases List.mem_filter.mp member with ⟨held, fresh⟩
    exact ⟨rfl, (of_decide_eq_true fresh).symm, (get?_of_mem held).symm, nofun⟩
  · intro facts
    rcases change with ⟨key, _ | before, _ | after⟩
    · exact absurd rfl facts.2.2.2
    · have fresh : old.get? key = none := facts.2.1.symm
      exact ⟨(key, after), List.mem_filter.mpr ⟨mem_of_get? facts.2.2.1.symm, decide_eq_true fresh⟩, rfl⟩
    · cases facts.1
    · cases facts.1

theorem removed_between (old new : Acl) :
    (between old new).removed = (old.entries.filter fun entry => new.get? entry.1 = none).map removal := by
  apply ofKind_eq (rising_map (old.table.ascending.filter _) fun entry => rfl)
  intro change
  rw [List.mem_map]
  constructor
  · intro listed
    rcases listed with ⟨⟨key, rights⟩, member, rfl⟩
    rcases List.mem_filter.mp member with ⟨held, gone⟩
    exact ⟨rfl, (get?_of_mem held).symm, (of_decide_eq_true gone).symm, nofun⟩
  · intro facts
    rcases change with ⟨key, _ | before, _ | after⟩
    · cases facts.1
    · cases facts.1
    · have gone : new.get? key = none := facts.2.2.1.symm
      exact ⟨(key, before), List.mem_filter.mpr ⟨mem_of_get? facts.2.1.symm, decide_eq_true gone⟩, rfl⟩
    · cases facts.1

def alteration (new : Acl) (entry : EntryKey × Rights) : Change := ⟨entry.1, some entry.2, new.get? entry.1⟩

theorem changed_between (old new : Acl) :
    (between old new).changed =
      (old.entries.filter fun entry => new.get? entry.1 ≠ none ∧ new.get? entry.1 ≠ some entry.2).map
        (alteration new) := by
  apply ofKind_eq (rising_map (old.table.ascending.filter _) fun entry => rfl)
  intro change
  rw [List.mem_map]
  constructor
  · intro listed
    rcases listed with ⟨⟨key, rights⟩, member, rfl⟩
    rcases List.mem_filter.mp member with ⟨held, kept⟩
    rcases of_decide_eq_true kept with ⟨stays, differs⟩
    rcases Option.ne_none_iff_exists'.mp stays with ⟨other, found⟩
    refine ⟨?_, (get?_of_mem held).symm, rfl, differs.symm⟩
    rw [Change.kind, alteration, found]
  · intro facts
    rcases change with ⟨key, _ | before, _ | after⟩
    · cases facts.1
    · cases facts.1
    · cases facts.1
    · have found : new.get? key = some after := facts.2.2.1.symm
      have kept : new.get? key ≠ none ∧ new.get? key ≠ some before := by
        rw [found]
        exact ⟨nofun, facts.2.2.2.symm⟩
      refine ⟨(key, before), List.mem_filter.mpr ⟨mem_of_get? facts.2.1.symm, decide_eq_true kept⟩, ?_⟩
      rw [alteration, found]

theorem isEmpty_iff (old new : Acl) : (between old new).isEmpty = true ↔ old = new := by
  rw [isEmpty, List.isEmpty_iff]
  constructor
  · intro none
    apply Acl.ext_get?
    intro key
    apply get?_eq_of_unchanged
    rw [none]
    exact fun found => List.not_mem_nil found.choose_spec.1
  · intro same
    subst same
    apply List.eq_nil_iff_forall_not_mem.mpr
    intro change member
    rcases (mem_between_iff old old change).mp member with ⟨before, after, differ⟩
    exact differ (before.trans after.symm)

theorem between_swap (old new : Acl) : (between new old).changes = (between old new).changes.map Change.swap := by
  apply SortedMap.eq_of_ascending Change.key (rising_between new old)
  · rw [List.pairwise_map]
    exact rising_between old new
  · intro change
    rw [mem_between_iff, List.mem_map]
    constructor
    · intro facts
      exact ⟨change.swap, (mem_between_iff old new _).mpr ⟨facts.2.1, facts.1, facts.2.2.symm⟩, rfl⟩
    · intro swapped
      rcases swapped with ⟨other, member, rfl⟩
      rcases (mem_between_iff old new other).mp member with ⟨before, after, differ⟩
      exact ⟨after, before, differ.symm⟩

theorem get?_applyTo (old new base : Acl) (key : EntryKey) :
    ((between old new).applyTo base).get? key =
      if old.get? key = new.get? key then base.get? key else new.get? key := by
  by_cases same : old.get? key = new.get? key
  · rw [if_pos same, Acl.get?_eq_iff, rightsOf_applyTo, if_pos (Acl.get?_eq_iff.mp same)]
  · rw [if_neg same, Acl.get?_eq_iff, rightsOf_applyTo, if_neg fun rights => same (Acl.get?_eq_iff.mpr rights)]

theorem applyTo_between (old new : Acl) : (between old new).applyTo old = new := by
  apply Acl.ext_get?
  intro key
  rw [get?_applyTo]
  split
  · next same => exact same
  · rfl

/-- What a difference says of two lists: which keys differ and how, in key order and by kind, and what it makes of
another list. -/
structure Exact (old new : Acl) : Prop where
  sides : (between old new).old = old ∧ (between old new).new = new
  ascending : (between old new).changes.Pairwise fun a b => a.key.Before b.key
  keys : ∀ key, (∃ change ∈ (between old new).changes, change.key = key) ↔ old.get? key ≠ new.get? key
  rights : ∀ change ∈ (between old new).changes, change.old = old.get? change.key ∧ change.new = new.get? change.key
  added : (between old new).added = (new.entries.filter fun entry => old.get? entry.1 = none).map addition
  removed : (between old new).removed = (old.entries.filter fun entry => new.get? entry.1 = none).map removal
  changed : (between old new).changed =
    (old.entries.filter fun entry => new.get? entry.1 ≠ none ∧ new.get? entry.1 ≠ some entry.2).map (alteration new)
  empty : (between old new).isEmpty = true ↔ old = new
  reached : (between old new).applyTo old = new
  swapped : (between new old).changes = (between old new).changes.map Change.swap
  applied : ∀ base key, ((between old new).applyTo base).get? key =
    if old.get? key = new.get? key then base.get? key else new.get? key

theorem difference_exact (old new : Acl) : Exact old new where
  sides := ⟨rfl, rfl⟩
  ascending := by
    apply (rising_between old new).imp
    intro a b less
    exact (EntryKey.compare_iff_before a.key b.key).mp less
  keys := fun key => exists_change_iff
  rights := by
    intro change member
    rcases (mem_between_iff old new change).mp member with ⟨before, after, differ⟩
    exact ⟨before, after⟩
  added := added_between old new
  removed := removed_between old new
  changed := changed_between old new
  empty := isEmpty_iff old new
  reached := applyTo_between old new
  swapped := between_swap old new
  applied := get?_applyTo old new

end Diff

end MailboxAccess
