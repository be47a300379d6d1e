import MailboxAccess.Acl.Command
import MailboxAccess.Acl.Diff
import MailboxAccess.Proofs.Codec
import MailboxAccess.Proofs.Store.Rows

namespace MailboxAccess

namespace Rights

theorem union_empty (a : Rights) : a.union empty = a := by
  apply ext_contains
  intro right
  rw [contains_union, contains_empty, Bool.or_false]

theorem empty_except (a : Rights) : empty.except a = empty := by
  apply ext_contains
  intro right
  rw [contains_except, contains_empty, Bool.false_and]

end Rights

namespace SortedMap

variable {κ β : Type} [Ord κ] [Std.LawfulEqOrd κ]

theorem find_eq_none_iff {entries : List (κ × β)} {key : κ} :
    find key entries = none ↔ ∀ entry ∈ entries, entry.1 ≠ key := by
  induction entries with
  | nil => simp [find]
  | cons head rest ih =>
      by_cases same : key = head.1
      · simp [same, find_cons_self]
      · rw [find_cons_of_ne same, ih, List.forall_mem_cons]
        simp [Ne.symm same]

theorem find_eq_head? (key : κ) [DecidableEq κ] (entries : List (κ × β)) :
    find key entries = (entries.filter fun entry => entry.1 = key).head?.map Prod.snd := by
  induction entries with
  | nil => rfl
  | cons head rest ih =>
      by_cases same : key = head.1
      · simp [same, find_cons_self]
      · rw [find_cons_of_ne same, ih]
        simp [Ne.symm same]

end SortedMap

namespace Acl

open SortedMap (find find_cons_self find_cons_of_ne find_eq_none_iff find_eq_some_iff find_eq_head?)

theorem get?_merge (table : SortedMap EntryKey Rights) (entry : EntryKey × Rights) (key : EntryKey) :
    ((merge table entry).get? key).getD Rights.empty =
      if key = entry.1 then ((table.get? key).getD Rights.empty).union entry.2
      else (table.get? key).getD Rights.empty := by
  by_cases same : key = entry.1
  · simp [merge, SortedMap.get?_insert, same, Std.ReflCmp.compare_self]
  · simp [merge, SortedMap.get?_insert, same, Std.LawfulEqCmp.compare_eq_iff_eq]

theorem get?_foldl_merge {entries : List (EntryKey × Rights)} (distinct : entries.Pairwise fun a b => a.1 ≠ b.1)
    (table : SortedMap EntryKey Rights) (key : EntryKey) :
    ((entries.foldl merge table).get? key).getD Rights.empty =
      ((table.get? key).getD Rights.empty).union ((find key entries).getD Rights.empty) := by
  induction entries generalizing table with
  | nil => exact (Rights.union_empty _).symm
  | cons head rest ih =>
      rcases List.pairwise_cons.mp distinct with ⟨apart, tail⟩
      rw [List.foldl_cons, ih tail, get?_merge]
      by_cases same : key = head.1
      · have gone : find key rest = none :=
          find_eq_none_iff.mpr fun entry later => same ▸ (apart entry later).symm
        rw [if_pos same, gone, same, find_cons_self]
        exact Rights.union_empty _
      · rw [if_neg same, find_cons_of_ne same]

theorem rightsOf_union (a b : Acl) (key : EntryKey) :
    (a.union b).rightsOf key = (a.rightsOf key).union (b.rightsOf key) :=
  get?_foldl_merge b.table.distinct a.table key

theorem rightsOf_ofEntries_of_distinct {entries : List (EntryKey × Rights)}
    (distinct : entries.Pairwise fun a b => a.1 ≠ b.1) (key : EntryKey) :
    (ofEntries entries).rightsOf key = (find key entries).getD Rights.empty := by
  have held (rights : Rights) :
      (ofEntries entries).get? key = some rights ↔ find key entries = some rights ∧ rights ≠ Rights.empty := by
    rw [get?_ofEntries_eq_some_iff distinct, find_eq_some_iff distinct]
  cases granted : (ofEntries entries).get? key with
  | some rights =>
      rw [rightsOf, granted, ((held rights).mp granted).1]
  | none =>
      rw [rightsOf, granted]
      cases found : find key entries with
      | none => rfl
      | some rights =>
          by_cases none : rights = Rights.empty
          · rw [none]
            rfl
          · rw [(held rights).mpr ⟨found, none⟩] at granted
            cases granted

theorem rightsOf_except (a b : Acl) (key : EntryKey) :
    (a.except b).rightsOf key = (a.rightsOf key).except (b.rightsOf key) := by
  have distinct : (a.entries.map fun entry => (entry.1, entry.2.except (b.rightsOf entry.1))).Pairwise
      fun x y => x.1 ≠ y.1 := List.pairwise_map.mpr a.table.distinct
  have reduced (entries : List (EntryKey × Rights)) :
      find key (entries.map fun entry => (entry.1, entry.2.except (b.rightsOf entry.1))) =
        (find key entries).map fun rights => rights.except (b.rightsOf key) := by
    induction entries with
    | nil => rfl
    | cons head rest ih =>
        by_cases same : key = head.1
        · simp [find, same, Std.ReflCmp.compare_self]
        · simp [find, same, Std.LawfulEqCmp.compare_eq_iff_eq, ih]
  calc
    (a.except b).rightsOf key = ((a.get? key).map fun rights => rights.except (b.rightsOf key)).getD Rights.empty := by
      rw [except, rightsOf_ofEntries_of_distinct distinct, reduced]
      rfl
    _ = (a.rightsOf key).except (b.rightsOf key) := by
      cases held : a.get? key with
      | none => simp [rightsOf, held, Rights.empty_except]
      | some rights => simp [rightsOf, held]

/-- Of the entries for a key that grant something the last one. -/
def lastGrant (entries : List (EntryKey × Rights)) (key : EntryKey) : Rights :=
  ((entries.filter fun entry => entry.1 = key ∧ entry.2 ≠ Rights.empty).getLast?.map Prod.snd).getD Rights.empty

theorem rightsOf_ofEntries (entries : List (EntryKey × Rights)) (key : EntryKey) :
    (ofEntries entries).rightsOf key = lastGrant entries key := by
  have granting : (entries.filter fun entry => !entry.2.isEmpty).filter (fun entry => entry.1 = key) =
      entries.filter fun entry => entry.1 = key ∧ entry.2 ≠ Rights.empty := by
    rw [List.filter_filter]
    congr 1
    funext entry
    simp [← Rights.isEmpty_iff]
  rw [rightsOf, get?_ofEntries, find_eq_head?, List.filter_reverse, List.head?_reverse, granting, lastGrant]

end Acl

namespace Diff

theorem rightsOf_foldl_change {changes : List Change} {new : Acl}
    (granted : ∀ change ∈ changes, change.new = new.get? change.key) (base : Acl) (key : EntryKey) :
    (changes.foldl (fun acl change => acl.withEntry change.key (change.new.getD Rights.empty)) base).rightsOf key =
      if ∃ change ∈ changes, change.key = key then new.rightsOf key else base.rightsOf key := by
  induction changes generalizing base with
  | nil => simp
  | cons change changes ih =>
      have first : change.new.getD Rights.empty = new.rightsOf change.key := by
        rw [granted change List.mem_cons_self, Acl.rightsOf]
      rw [List.foldl_cons, ih fun other later => granted other (List.mem_cons_of_mem _ later),
        Acl.rightsOf_withEntry, first]
      by_cases same : key = change.key
      · simp [same]
      · simp [same, Ne.symm same]

theorem rightsOf_applyTo (old new base : Acl) (key : EntryKey) :
    ((between old new).applyTo base).rightsOf key =
      if old.rightsOf key = new.rightsOf key then base.rightsOf key else new.rightsOf key := by
  have granted : ∀ change ∈ (between old new).changes, change.new = new.get? change.key :=
    fun change => new_eq_of_mem
  have changed : (∃ change ∈ (between old new).changes, change.key = key) ↔
      old.rightsOf key ≠ new.rightsOf key := by
    exact exists_change_iff.trans (not_congr Acl.get?_eq_iff)
  rw [applyTo, rightsOf_foldl_change granted]
  by_cases same : old.rightsOf key = new.rightsOf key
  · rw [if_neg (fun found => changed.mp found same), if_pos same]
  · rw [if_pos (changed.mpr same), if_neg same]

end Diff

namespace Document

/-- What the document says under the text of a key. -/
def rightsAt (document : Document) (key : EntryKey) : Rights :=
  match document.get? key.text with
  | some letters => (Rights.parse letters).toOption.getD Rights.empty
  | none => Rights.empty

def ReadFrom (pair : String × String) (entry : EntryKey × Rights) : Prop :=
  pair.1 = entry.1.text ∧ Rights.parse pair.2 = .ok entry.2

theorem readFrom_of_readEntry {pair : String × String} {entry : EntryKey × Rights}
    (read : readEntry pair = .ok entry) : ReadFrom pair entry := by
  unfold readEntry at read
  cases key : EntryKey.parse pair.1 with
  | error e =>
      rw [key] at read
      cases read
  | ok parsed =>
      cases rights : Rights.parse pair.2 with
      | error e =>
          rw [key, rights] at read
          cases read
      | ok granted =>
          rw [key, rights] at read
          cases read
          exact ⟨(EntryKey.text_of_parse key).symm, rights⟩

theorem readFrom_of_mapM {pairs : List (String × String)} {read : List (EntryKey × Rights)}
    (ran : pairs.mapM readEntry = .ok read) : List.Forall₂ ReadFrom pairs read := by
  have each : List.Forall₂ (fun pair entry => readEntry pair = .ok entry) pairs read := by
    have mapped : List.Forall₂ Eq (pairs.map readEntry) (read.map .ok) := by
      rw [List.forall₂_eq_eq_eq]
      exact Database.map_of_mapM ran
    rwa [List.forall₂_map_left_iff, List.forall₂_map_right_iff] at mapped
  exact each.imp fun _ _ => readFrom_of_readEntry

theorem texts_of_readFrom {pairs : List (String × String)} {read : List (EntryKey × Rights)}
    (worded : List.Forall₂ ReadFrom pairs read) :
    pairs.map Prod.fst = read.map fun entry => entry.1.text := by
  induction worded with
  | nil => rfl
  | cons first _ ih => rw [List.map_cons, List.map_cons, first.1, ih]

theorem distinct_of_readFrom {pairs : List (String × String)} {read : List (EntryKey × Rights)}
    (distinct : pairs.Pairwise fun a b => a.1 ≠ b.1) (worded : List.Forall₂ ReadFrom pairs read) :
    read.Pairwise fun a b => a.1 ≠ b.1 := by
  have texts : (pairs.map Prod.fst).Pairwise (· ≠ ·) := List.pairwise_map.mpr distinct
  rw [texts_of_readFrom worded, List.pairwise_map] at texts
  exact texts.imp fun apart same => apart (congrArg EntryKey.text same)

theorem find_of_readFrom {pairs : List (String × String)} {read : List (EntryKey × Rights)}
    (worded : List.Forall₂ ReadFrom pairs read) (key : EntryKey) :
    (SortedMap.find key read).getD Rights.empty =
      match SortedMap.find key.text pairs with
      | some letters => (Rights.parse letters).toOption.getD Rights.empty
      | none => Rights.empty := by
  induction worded with
  | nil => rfl
  | @cons pair entry _ _ first _ ih =>
      by_cases same : key = entry.1
      · rw [same, SortedMap.find_cons_self, ← first.1, SortedMap.find_cons_self]
        simp only [first.2, Except.toOption, Option.getD_some]
      · have texts : key.text ≠ pair.1 := by
          rw [first.1]
          exact fun equal => same (EntryKey.text_injective equal)
        rw [SortedMap.find_cons_of_ne same, SortedMap.find_cons_of_ne texts, ih]

theorem rightsOf_toAcl {document : Document} {acl : Acl} (read : document.toAcl = .ok acl) (key : EntryKey) :
    acl.rightsOf key = document.rightsAt key := by
  unfold toAcl at read
  cases ran : document.entries.mapM readEntry with
  | error e =>
      rw [ran] at read
      cases read
  | ok entries =>
      rw [ran] at read
      cases read
      have worded := readFrom_of_mapM ran
      rw [Acl.rightsOf_ofEntries_of_distinct (distinct_of_readFrom document.distinct worded), find_of_readFrom worded]
      rfl

end Document

theorem Codec.exists_document_of_decode {codec : Codec} {bytes : Bytes} {acl : Acl}
    (read : codec.decode bytes = .ok acl) :
    ∃ document, codec.read? bytes = some document ∧ document.toAcl = .ok acl := by
  unfold decode at read
  cases found : codec.read? bytes with
  | none =>
      rw [found] at read
      cases read
  | some document =>
      refine ⟨document, rfl, ?_⟩
      cases listed : document.toAcl with
      | error e => simp [found, listed] at read
      | ok list =>
          simp only [found, listed, Except.ok.injEq] at read
          rw [read]

end MailboxAccess
