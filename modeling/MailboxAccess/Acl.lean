import MailboxAccess.EntryKey
import MailboxAccess.Rights
import MailboxAccess.SortedMap

/-!
Access control lists: which rights each key has. A key without rights has no entry, so two lists that
answer `get?` alike are the same list (`ext_get?`).
-/
namespace MailboxAccess

structure Acl where
  table : SortedMap EntryKey Rights
  granting : ∀ entry ∈ table.entries, entry.2 ≠ Rights.empty
  deriving DecidableEq

namespace Acl

def entries (acl : Acl) : List (EntryKey × Rights) := acl.table.entries

def get? (acl : Acl) (key : EntryKey) : Option Rights := acl.table.get? key

def rightsOf (acl : Acl) (key : EntryKey) : Rights := (acl.get? key).getD Rights.empty

def keys (acl : Acl) : List EntryKey := acl.table.keys

def size (acl : Acl) : Nat := acl.table.size

def isEmpty (acl : Acl) : Bool := acl.table.isEmpty

def empty : Acl := ⟨SortedMap.empty, nofun⟩

theorem granting_insert {table : SortedMap EntryKey Rights} (granting : ∀ entry ∈ table.entries, entry.2 ≠ Rights.empty)
    (key : EntryKey) {rights : Rights} (h : rights ≠ Rights.empty) :
    ∀ entry ∈ (table.insert key rights).entries, entry.2 ≠ Rights.empty := by
  intro entry member
  rcases SortedMap.mem_of_mem_put member with rfl | old
  · exact h
  · exact granting entry old

def withEntry (acl : Acl) (key : EntryKey) (rights : Rights) : Acl :=
  if none : rights = Rights.empty then
    ⟨acl.table.erase key, fun entry member => acl.granting entry ((List.mem_filter.mp member).1)⟩
  else ⟨acl.table.insert key rights, granting_insert acl.granting key none⟩

/-- Entries without rights are passed over; of two entries for one key the later one stays. -/
def ofEntries (entries : List (EntryKey × Rights)) : Acl :=
  (entries.filter fun entry => !entry.2.isEmpty).foldl
    (fun acl entry => acl.withEntry entry.1 entry.2) empty

def ownerFull : Acl := ofEntries [(EntryKey.owner, Rights.full)]

def merge (table : SortedMap EntryKey Rights) (entry : EntryKey × Rights) : SortedMap EntryKey Rights :=
  table.insert entry.1 (((table.get? entry.1).getD Rights.empty).union entry.2)

theorem granting_merge {table : SortedMap EntryKey Rights} {entry : EntryKey × Rights}
    (granting : ∀ entry ∈ table.entries, entry.2 ≠ Rights.empty) (given : entry.2 ≠ Rights.empty) :
    ∀ other ∈ (merge table entry).entries, other.2 ≠ Rights.empty :=
  granting_insert granting entry.1 (Rights.union_ne_empty given)

theorem granting_foldl_merge {table : SortedMap EntryKey Rights} {entries : List (EntryKey × Rights)}
    (granting : ∀ entry ∈ table.entries, entry.2 ≠ Rights.empty) (given : ∀ entry ∈ entries, entry.2 ≠ Rights.empty) :
    ∀ entry ∈ (entries.foldl merge table).entries, entry.2 ≠ Rights.empty := by
  induction entries generalizing table with
  | nil => exact granting
  | cons head rest ih =>
      have first := granting_merge granting (given head List.mem_cons_self)
      exact ih first fun entry later => given entry (List.mem_cons_of_mem _ later)

def union (a b : Acl) : Acl := ⟨b.entries.foldl merge a.table, granting_foldl_merge a.granting b.granting⟩

def except (a b : Acl) : Acl :=
  ofEntries (a.entries.map fun entry => (entry.1, entry.2.except (b.rightsOf entry.1)))

theorem get?_empty (key : EntryKey) : empty.get? key = none := rfl

theorem get?_withEntry (acl : Acl) (key other : EntryKey) (rights : Rights) :
    (acl.withEntry key rights).get? other =
      if other = key then (if rights = Rights.empty then none else some rights) else acl.get? other := by
  by_cases none : rights = Rights.empty
  · have erased := SortedMap.get?_erase acl.table key other
    simpa [withEntry, get?, none] using erased
  · have inserted := SortedMap.get?_insert acl.table key other rights
    simpa [withEntry, get?, none] using inserted

theorem rightsOf_withEntry (acl : Acl) (key other : EntryKey) (rights : Rights) :
    (acl.withEntry key rights).rightsOf other = if other = key then rights else acl.rightsOf other := by
  by_cases same : other = key
  · by_cases none : rights = Rights.empty <;> simp [rightsOf, get?_withEntry, same, none]
  · simp [rightsOf, get?_withEntry, same]

theorem ne_empty_of_get? {acl : Acl} {key : EntryKey} {rights : Rights}
    (h : acl.get? key = some rights) : rights ≠ Rights.empty :=
  acl.granting (key, rights) (SortedMap.get?_eq_some_iff.mp h)

/-- No entry and no rights are one and the same. -/
theorem get?_eq_rightsOf (acl : Acl) (key : EntryKey) :
    acl.get? key = if acl.rightsOf key = Rights.empty then none else some (acl.rightsOf key) := by
  cases found : acl.get? key with
  | none => simp [rightsOf, found]
  | some rights => simp [rightsOf, found, ne_empty_of_get? found]

theorem ext_get? {a b : Acl} (h : ∀ key, a.get? key = b.get? key) : a = b := by
  have tables : a.table = b.table := SortedMap.ext_get? h
  cases a
  cases b
  simpa using tables

theorem get?_foldl_withEntry {entries : List (EntryKey × Rights)}
    (granting : ∀ entry ∈ entries, entry.2 ≠ Rights.empty) (acl : Acl) (key : EntryKey) :
    (entries.foldl (fun acl entry => acl.withEntry entry.1 entry.2) acl).get? key =
      (SortedMap.find key entries.reverse).or (acl.get? key) := by
  induction entries generalizing acl with
  | nil => rfl
  | cons head rest ih =>
      have first := granting head List.mem_cons_self
      rw [List.foldl_cons, ih (fun entry later => granting entry (List.mem_cons_of_mem _ later)),
        get?_withEntry, List.reverse_cons, SortedMap.find_append, Option.or_assoc]
      by_cases same : key = head.1
      · simp [SortedMap.find, same, first, Std.ReflCmp.compare_self]
      · simp [SortedMap.find, same, Std.LawfulEqCmp.compare_eq_iff_eq]

theorem get?_ofEntries (entries : List (EntryKey × Rights)) (key : EntryKey) :
    (ofEntries entries).get? key =
      SortedMap.find key (entries.filter fun entry => !entry.2.isEmpty).reverse := by
  have granting : ∀ entry ∈ entries.filter fun entry => !entry.2.isEmpty, entry.2 ≠ Rights.empty := by
    intro entry member none
    have kept := (List.mem_filter.mp member).2
    simp [Rights.isEmpty_iff.mpr none] at kept
  rw [ofEntries, get?_foldl_withEntry granting, get?_empty, Option.or_none]

theorem get?_ofEntries_eq_some_iff {entries : List (EntryKey × Rights)}
    (distinct : entries.Pairwise fun a b => a.1 ≠ b.1) {key : EntryKey} {rights : Rights} :
    (ofEntries entries).get? key = some rights ↔ (key, rights) ∈ entries ∧ rights ≠ Rights.empty := by
  have backwards :
      (entries.filter fun entry => !entry.2.isEmpty).reverse.Pairwise fun a b => a.1 ≠ b.1 := by
    rw [List.pairwise_reverse]
    exact (distinct.filter _).imp fun apart => apart.symm
  have granting : (!rights.isEmpty) = true ↔ rights ≠ Rights.empty := by
    simp [← Rights.isEmpty_iff]
  rw [get?_ofEntries, SortedMap.find_eq_some_iff backwards, List.mem_reverse, List.mem_filter, granting]

theorem ofEntries_eq_of_mem_iff {acl : Acl} {entries : List (EntryKey × Rights)}
    (distinct : entries.Pairwise fun a b => a.1 ≠ b.1) (members : ∀ entry, entry ∈ entries ↔ entry ∈ acl.entries) :
    ofEntries entries = acl := by
  apply ext_get?
  intro key
  apply Option.ext
  intro rights
  rw [get?_ofEntries_eq_some_iff distinct, members]
  constructor
  · intro held
    exact SortedMap.get?_eq_some_iff.mpr held.1
  · intro found
    exact ⟨SortedMap.get?_eq_some_iff.mp found, ne_empty_of_get? found⟩

theorem ofEntries_entries (acl : Acl) : ofEntries acl.entries = acl :=
  ofEntries_eq_of_mem_iff acl.table.distinct fun _ => Iff.rfl

theorem get?_ofEntries_table {rows : SortedMap EntryKey Rights} {key : EntryKey}
    (granting : rows.get? key ≠ some Rights.empty) : (ofEntries rows.entries).get? key = rows.get? key := by
  apply Option.ext
  intro rights
  rw [get?_ofEntries_eq_some_iff rows.distinct, SortedMap.get?_eq_some_iff]
  constructor
  · intro held
    exact held.1
  · intro member
    refine ⟨member, ?_⟩
    intro none
    subst none
    exact granting (SortedMap.get?_eq_some_iff.mpr member)

theorem mem_keys_iff (acl : Acl) (key : EntryKey) : key ∈ acl.keys ↔ acl.get? key ≠ none := by
  rw [keys, SortedMap.keys, List.mem_map, Option.ne_none_iff_exists']
  constructor
  · intro found
    rcases found with ⟨⟨other, rights⟩, member, rfl⟩
    exact ⟨rights, SortedMap.get?_eq_some_iff.mpr member⟩
  · intro found
    rcases found with ⟨rights, held⟩
    exact ⟨(key, rights), SortedMap.get?_eq_some_iff.mp held, rfl⟩

theorem nodup_keys (acl : Acl) : acl.keys.Nodup := by
  rw [keys, SortedMap.keys, List.Nodup, List.pairwise_map]
  exact acl.table.distinct

theorem get?_eq_iff {a b : Acl} {key : EntryKey} :
    a.get? key = b.get? key ↔ a.rightsOf key = b.rightsOf key := by
  constructor
  · intro same
    rw [rightsOf, rightsOf, same]
  · intro same
    rw [get?_eq_rightsOf, get?_eq_rightsOf, same]

theorem ext_rightsOf {a b : Acl} (h : ∀ key, a.rightsOf key = b.rightsOf key) : a = b := by
  apply ext_get?
  intro key
  exact get?_eq_iff.mpr (h key)

end Acl

end MailboxAccess
