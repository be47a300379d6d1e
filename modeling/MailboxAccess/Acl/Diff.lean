import MailboxAccess.Acl

namespace MailboxAccess

inductive ChangeKind where
  | added | removed | changed
  deriving DecidableEq, Repr

structure Change where
  key : EntryKey
  old : Option Rights
  new : Option Rights
  deriving DecidableEq

def Change.kind (change : Change) : ChangeKind :=
  match change.old, change.new with
  | none, _ => .added
  | some _, none => .removed
  | some _, some _ => .changed

structure Diff where
  old : Acl
  new : Acl
  changes : List Change
  deriving DecidableEq

namespace Diff

def addition (entry : EntryKey × Rights) : Change := ⟨entry.1, none, some entry.2⟩

def removal (entry : EntryKey × Rights) : Change := ⟨entry.1, some entry.2, none⟩

/-- The entry with the lesser key goes first; a key on both sides counts if its rights differ. -/
def merge : List (EntryKey × Rights) → List (EntryKey × Rights) → List Change
  | [], new => new.map addition
  | old, [] => old.map removal
  | a :: old, b :: new =>
    match compare a.1 b.1 with
    | .lt => removal a :: merge old (b :: new)
    | .gt => addition b :: merge (a :: old) new
    | .eq =>
      if a.2 = b.2 then merge old new
      else ⟨a.1, some a.2, some b.2⟩ :: merge old new
termination_by old new => old.length + new.length

def between (old new : Acl) : Diff := ⟨old, new, merge old.entries new.entries⟩

def isEmpty (diff : Diff) : Bool := diff.changes.isEmpty

def ofKind (diff : Diff) (kind : ChangeKind) : List Change :=
  diff.changes.filter fun change => change.kind = kind

def added (diff : Diff) : List Change := diff.ofKind .added

def removed (diff : Diff) : List Change := diff.ofKind .removed

def changed (diff : Diff) : List Change := diff.ofKind .changed

def applyTo (diff : Diff) (base : Acl) : Acl :=
  diff.changes.foldl (fun acl change => acl.withEntry change.key (change.new.getD Rights.empty)) base

open SortedMap (find find_cons_self find_cons_of_ne find_eq_none find_eq_some_of_mem mem_of_find_eq_some)

theorem above_of_lt {a : EntryKey} {b : EntryKey × Rights} {rest : List (EntryKey × Rights)}
    (less : compare a b.1 = .lt) (ascending : Ascending (b :: rest)) :
    ∀ entry ∈ b :: rest, compare a entry.1 = .lt := by
  intro entry member
  rcases List.mem_cons.mp member with rfl | later
  · exact less
  · exact Std.TransCmp.lt_trans less ((List.pairwise_cons.mp ascending).1 entry later)

/-- What two lists have under the key of the change, which is not the same. -/
def Tells (change : Change) (old new : List (EntryKey × Rights)) : Prop :=
  change.old = find change.key old ∧ change.new = find change.key new ∧ change.old ≠ change.new

theorem tells_cons {key : EntryKey} {old new oldRest newRest : List (EntryKey × Rights)}
    (notOld : find key oldRest = none) (notNew : find key newRest = none)
    (others : ∀ other, other ≠ key → find other old = find other oldRest ∧ find other new = find other newRest)
    (change : Change) :
    Tells change old new ↔
      change = ⟨key, find key old, find key new⟩ ∧ find key old ≠ find key new ∨ Tells change oldRest newRest := by
  rcases change with ⟨place, held, granted⟩
  by_cases same : place = key
  · subst same
    constructor
    · intro told
      dsimp only [Tells] at told
      rcases told with ⟨rfl, rfl, differ⟩
      exact .inl ⟨rfl, differ⟩
    · intro either
      rcases either with ⟨first, differ⟩ | ⟨inOld, inNew, differ⟩
      · cases first
        exact ⟨rfl, rfl, differ⟩
      · exact absurd (inOld.trans (notOld.trans (notNew.symm.trans inNew.symm))) differ
  · rcases others place same with ⟨inOld, inNew⟩
    constructor
    · intro told
      exact .inr ⟨told.1.trans inOld, told.2.1.trans inNew, told.2.2⟩
    · intro either
      rcases either with ⟨first, -⟩ | told
      · exact absurd (congrArg Change.key first) same
      · exact ⟨told.1.trans inOld.symm, told.2.1.trans inNew.symm, told.2.2⟩

theorem tells_heads {a b : EntryKey × Rights} {old new : List (EntryKey × Rights)} (oldAscending : Ascending (a :: old))
    (newAscending : Ascending (b :: new)) (equal : compare a.1 b.1 = .eq) (change : Change) :
    Tells change (a :: old) (b :: new) ↔
      change = ⟨a.1, some a.2, some b.2⟩ ∧ a.2 ≠ b.2 ∨ Tells change old new := by
  have keys : a.1 = b.1 := Std.LawfulEqCmp.eq_of_compare equal
  have notOld : find a.1 old = none := find_eq_none (List.pairwise_cons.mp oldAscending).1
  have notNew : find a.1 new = none := by
    rw [keys]
    exact find_eq_none (List.pairwise_cons.mp newAscending).1
  have inNew : find a.1 (b :: new) = some b.2 := by rw [keys, find_cons_self]
  rw [tells_cons notOld notNew fun other apart =>
    ⟨find_cons_of_ne apart old, find_cons_of_ne (keys ▸ apart) new⟩, find_cons_self, inNew]
  simp

theorem mem_merge_iff {old new : List (EntryKey × Rights)} (oldAscending : Ascending old)
    (newAscending : Ascending new) (change : Change) : change ∈ merge old new ↔ Tells change old new := by
  induction old, new using merge.induct with
  | case1 new =>
      rw [merge, List.mem_map]
      constructor
      · intro added
        rcases added with ⟨entry, member, rfl⟩
        exact ⟨rfl, (find_eq_some_of_mem newAscending member).symm, nofun⟩
      · intro told
        rcases change with ⟨key, held, granted⟩
        dsimp only [Tells, find] at told
        rcases told with ⟨rfl, found, differ⟩
        rcases Option.ne_none_iff_exists'.mp differ.symm with ⟨rights, rfl⟩
        exact ⟨(key, rights), mem_of_find_eq_some found.symm, rfl⟩
  | case2 old left =>
      rw [merge.eq_2 _ left, List.mem_map]
      constructor
      · intro removed
        rcases removed with ⟨entry, member, rfl⟩
        exact ⟨(find_eq_some_of_mem oldAscending member).symm, rfl, nofun⟩
      · intro told
        rcases change with ⟨key, held, granted⟩
        dsimp only [Tells, find] at told
        rcases told with ⟨found, rfl, differ⟩
        rcases Option.ne_none_iff_exists'.mp differ with ⟨rights, rfl⟩
        exact ⟨(key, rights), mem_of_find_eq_some found.symm, rfl⟩
  | case3 a old b new less ih =>
      rcases List.pairwise_cons.mp oldAscending with ⟨below, rest⟩
      have notNew : find a.1 (b :: new) = none := find_eq_none (above_of_lt less newAscending)
      rw [merge, less, List.mem_cons, ih rest newAscending,
        tells_cons (find_eq_none below) notNew fun other apart => ⟨find_cons_of_ne apart old, rfl⟩,
        find_cons_self, notNew]
      simp [removal]
  | case4 a old b new more ih =>
      rcases List.pairwise_cons.mp newAscending with ⟨below, rest⟩
      have notOld : find b.1 (a :: old) = none :=
        find_eq_none (above_of_lt (Std.OrientedCmp.lt_of_gt more) oldAscending)
      rw [merge, more, List.mem_cons, ih oldAscending rest,
        tells_cons notOld (find_eq_none below) fun other apart => ⟨rfl, find_cons_of_ne apart new⟩,
        find_cons_self, notOld]
      simp [addition]
  | case5 a old b new equal rights ih =>
      rw [merge, equal]
      simp only [rights, if_true]
      rw [tells_heads oldAscending newAscending equal, ih oldAscending.tail newAscending.tail]
      simp [rights]
  | case6 a old b new equal rights ih =>
      rw [merge, equal]
      simp only [rights, if_false]
      rw [tells_heads oldAscending newAscending equal, List.mem_cons, ih oldAscending.tail newAscending.tail]
      simp [rights]

theorem mem_between_iff (old new : Acl) (change : Change) :
    change ∈ (between old new).changes ↔
      change.old = old.get? change.key ∧ change.new = new.get? change.key ∧ change.old ≠ change.new :=
  mem_merge_iff old.table.ascending new.table.ascending change

theorem new_eq_of_mem {old new : Acl} {change : Change} (member : change ∈ (between old new).changes) :
    change.new = new.get? change.key := ((mem_between_iff old new change).mp member).2.1

theorem exists_change_iff {old new : Acl} {key : EntryKey} :
    (∃ change ∈ (between old new).changes, change.key = key) ↔ old.get? key ≠ new.get? key := by
  constructor
  · intro found
    rcases found with ⟨change, member, rfl⟩
    rcases (mem_between_iff old new change).mp member with ⟨before, after, differ⟩
    rwa [before, after] at differ
  · intro differ
    exact ⟨⟨key, _, _⟩, (mem_between_iff old new _).mpr ⟨rfl, rfl, differ⟩, rfl⟩

theorem get?_eq_of_unchanged {old new : Acl} {key : EntryKey}
    (unchanged : ¬ ∃ change ∈ (between old new).changes, change.key = key) : old.get? key = new.get? key := by
  rwa [exists_change_iff, Classical.not_not] at unchanged

end Diff

end MailboxAccess
