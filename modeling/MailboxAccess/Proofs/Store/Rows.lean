import MailboxAccess.Proofs.Spelling
import MailboxAccess.Proofs.Store.View

namespace MailboxAccess

namespace Database

def readRow (row : String × String) : Except StoreError (EntryKey × Rights) := do
  return (← readIdentity row.1, ← readRights row.2)

theorem readRow_eq_ok_iff {row : String × String} {entry : EntryKey × Rights} :
    readRow row = .ok entry ↔ EntryKey.parse row.1 = .ok entry.1 ∧ Rights.parse row.2 = .ok entry.2 := by
  rcases row with ⟨identity, text⟩
  rcases entry with ⟨key, rights⟩
  simp only [readRow, readIdentity, readRights]
  cases EntryKey.parse identity with
  | error e => simp [readCell, bind, Except.bind]
  | ok found =>
      cases Rights.parse text with
      | error e => simp [readCell, bind, Except.bind]
      | ok rights => simp [readCell, bind, Except.bind, pure, Except.pure]

theorem mem_rowsIn_iff {rows : InsertionMap (String × Bytes) String} {mailbox : Bytes}
    {identity text : String} :
    (identity, text) ∈ rowsIn rows mailbox ↔ rows.get? (identity, mailbox) = some text := by
  rw [rowsIn, List.mem_filterMap, InsertionMap.get?_eq_some_iff]
  constructor
  · intro listed
    rcases listed with ⟨⟨⟨owner, place⟩, rights⟩, member, kept⟩
    dsimp only at kept
    split at kept
    · next here =>
        cases kept
        cases here
        exact member
    · cases kept
  · intro member
    exact ⟨_, member, by simp⟩

theorem distinct_rowsIn (rows : InsertionMap (String × Bytes) String) (mailbox : Bytes) :
    ((rowsIn rows mailbox).map Prod.fst).Pairwise (· ≠ ·) := by
  rw [List.pairwise_map, rowsIn, List.pairwise_filterMap]
  apply rows.distinct.imp
  intro row row' apart entry kept entry' kept' same
  rcases row with ⟨⟨owner, place⟩, rights⟩
  rcases row' with ⟨⟨owner', place'⟩, rights'⟩
  dsimp only at kept kept'
  split at kept
  · next here =>
      split at kept'
      · next there =>
          cases kept
          cases kept'
          exact apart (by rw [Prod.mk.injEq, here, there]; exact ⟨same, rfl⟩)
      · cases kept'
  · cases kept

def legibleRows (rows : InsertionMap (String × Bytes) String) (mailbox : MailboxId) : SortedMap EntryKey Rights :=
  SortedMap.ofList ((rowsIn rows mailbox.bytes).filterMap fun row => (readRow row).toOption)

theorem toOption_eq_some_iff {ε α : Type} {result : Except ε α} {a : α} :
    result.toOption = some a ↔ result = .ok a := by
  cases result <;> simp [Except.toOption]

theorem get?_legibleRows (rows : InsertionMap (String × Bytes) String) (mailbox : MailboxId) (key : EntryKey) :
    (legibleRows rows mailbox).get? key =
      (rows.get? (key.text, mailbox.bytes)).bind fun text => (Rights.parse text).toOption := by
  apply Option.ext
  intro rights
  rw [legibleRows, SortedMap.get?_ofList_filterMap, Option.bind_eq_some_iff]
  · constructor
    · intro listed
      rcases listed with ⟨⟨identity, text⟩, member, read⟩
      have legible := readRow_eq_ok_iff.mp (toOption_eq_some_iff.mp read)
      have same : key.text = identity := EntryKey.text_of_parse legible.1
      subst same
      exact ⟨text, mem_rowsIn_iff.mp member, toOption_eq_some_iff.mpr legible.2⟩
    · intro stored
      rcases stored with ⟨text, found, granted⟩
      have read : readRow (key.text, text) = .ok (key, rights) :=
        readRow_eq_ok_iff.mpr ⟨key.parse_text, toOption_eq_some_iff.mp granted⟩
      exact ⟨_, mem_rowsIn_iff.mpr found, toOption_eq_some_iff.mpr read⟩
  · have texts := distinct_rowsIn rows mailbox.bytes
    rw [List.pairwise_map] at texts
    apply texts.imp
    intro row row' apart entry read entry' read' same
    have first := (readRow_eq_ok_iff.mp (toOption_eq_some_iff.mp read)).1
    have second := (readRow_eq_ok_iff.mp (toOption_eq_some_iff.mp read')).1
    rw [← EntryKey.text_of_parse first, ← EntryKey.text_of_parse second, same] at apart
    exact apart rfl

theorem mailbox_eq {a b : MailboxId} (same : a.bytes = b.bytes) : a = b := by
  cases a
  cases b
  cases same
  rfl

theorem row_iff {key other : EntryKey} {place mailbox : MailboxId} :
    (key.text, place.bytes) = (other.text, mailbox.bytes) ↔ place = mailbox ∧ key = other := by
  constructor
  · intro same
    rcases Prod.mk.inj same with ⟨texts, bytes⟩
    exact ⟨mailbox_eq bytes, EntryKey.text_injective texts⟩
  · intro same
    rw [same.1, same.2]

theorem legibleRows_insert (rows : InsertionMap (String × Bytes) String) (mailbox place : MailboxId)
    (key : EntryKey) (rights : Rights) :
    legibleRows (rows.insert (key.text, place.bytes) rights.text) mailbox =
      View.rowsAfter mailbox (legibleRows rows mailbox) (.upsert key place rights) := by
  apply SortedMap.ext_get?
  intro other
  rw [get?_legibleRows, InsertionMap.get?_insert, View.get?_rowsAfter, get?_legibleRows, Request.row?]
  by_cases here : place = mailbox ∧ key = other
  · rw [if_pos (row_iff.mpr here), if_pos here, Option.bind_some, rights.parse_text]
    rfl
  · rw [if_neg fun same => here (row_iff.mp same), if_neg here, Option.getD_none]

theorem legibleRows_erase (rows : InsertionMap (String × Bytes) String) (mailbox place : MailboxId)
    (key : EntryKey) :
    legibleRows (rows.erase (key.text, place.bytes)) mailbox =
      View.rowsAfter mailbox (legibleRows rows mailbox) (.delete key place) := by
  apply SortedMap.ext_get?
  intro other
  rw [get?_legibleRows, InsertionMap.get?_erase, View.get?_rowsAfter, get?_legibleRows, Request.row?]
  by_cases here : place = mailbox ∧ key = other
  · rw [if_pos (row_iff.mpr here), if_pos here]
    rfl
  · rw [if_neg fun same => here (row_iff.mp same), if_neg here, Option.getD_none]

def readPlace (row : Bytes × String) : Except StoreError (MailboxId × Rights) := do
  return (← readMailbox row.1, ← readRights row.2)

theorem readPlace_eq_ok_iff {row : Bytes × String} {entry : MailboxId × Rights} :
    readPlace row = .ok entry ↔ row.1 = entry.1.bytes ∧ Rights.parse row.2 = .ok entry.2 := by
  rcases row with ⟨bytes, text⟩
  rcases entry with ⟨⟨place, sixteen⟩, rights⟩
  simp only [readPlace, readMailbox, MailboxId.ofBytes?, readRights]
  by_cases whole : bytes.length = 16
  · cases Rights.parse text with
    | error e => simp [whole, readCell, bind, Except.bind]
    | ok found => simp [whole, readCell, bind, Except.bind, pure, Except.pure]
  · have other : bytes ≠ place := by
      intro same
      rw [same] at whole
      exact whole sixteen
    simp [whole, other, bind, Except.bind]

theorem get?_rowsOf (rows : InsertionMap (String × Bytes) String) (identity : String) (mailbox : Bytes) :
    (rowsOf rows identity).get? mailbox = rows.get? (identity, mailbox) := by
  apply Option.ext
  intro text
  rw [rowsOf, SortedMap.get?_ofList_filterMap, InsertionMap.get?_eq_some_iff]
  · constructor
    · intro listed
      rcases listed with ⟨⟨⟨owner, place⟩, rights⟩, member, kept⟩
      simp only [Option.ite_none_right_eq_some, Option.some.injEq, Prod.mk.injEq] at kept
      rcases kept with ⟨rfl, rfl, rfl⟩
      exact member
    · intro member
      exact ⟨_, member, by simp⟩
  · apply rows.distinct.imp
    intro a b apart x kept y kept' same
    rcases a with ⟨⟨owner, place⟩, rights⟩
    rcases b with ⟨⟨owner', place'⟩, rights'⟩
    simp only [Option.ite_none_right_eq_some, Option.some.injEq] at kept kept'
    rcases kept with ⟨rfl, rfl⟩
    rcases kept' with ⟨rfl, rfl⟩
    exact apart (Prod.ext rfl same)

def legiblePlaces (rows : InsertionMap (String × Bytes) String) (key : EntryKey) : SortedMap MailboxId Rights :=
  SortedMap.ofList ((rowsOf rows key.text).entries.filterMap fun row => (readPlace row).toOption)

theorem get?_legiblePlaces (rows : InsertionMap (String × Bytes) String) (key : EntryKey) (mailbox : MailboxId) :
    (legiblePlaces rows key).get? mailbox = (legibleRows rows mailbox).get? key := by
  apply Option.ext
  intro rights
  rw [get?_legibleRows, Option.bind_eq_some_iff, legiblePlaces, SortedMap.get?_ofList_filterMap]
  · constructor
    · intro listed
      rcases listed with ⟨⟨bytes, text⟩, member, read⟩
      have legible := readPlace_eq_ok_iff.mp (toOption_eq_some_iff.mp read)
      rcases legible with ⟨rfl, granted⟩
      rw [← SortedMap.get?_eq_some_iff, get?_rowsOf] at member
      exact ⟨text, member, toOption_eq_some_iff.mpr granted⟩
    · intro stored
      rcases stored with ⟨text, found, granted⟩
      have read : readPlace (mailbox.bytes, text) = .ok (mailbox, rights) :=
        readPlace_eq_ok_iff.mpr ⟨rfl, toOption_eq_some_iff.mp granted⟩
      rw [← get?_rowsOf, SortedMap.get?_eq_some_iff] at found
      exact ⟨_, found, toOption_eq_some_iff.mpr read⟩
  · apply (rowsOf rows key.text).distinct.imp
    intro a b apart x read y read' same
    have first := (readPlace_eq_ok_iff.mp (toOption_eq_some_iff.mp read)).1
    have second := (readPlace_eq_ok_iff.mp (toOption_eq_some_iff.mp read')).1
    exact apart (by rw [first, second, same])

theorem map_of_mapM {α β ε : Type} {f : α → Except ε β} {as : List α} {bs : List β}
    (mapped : as.mapM f = .ok bs) : as.map f = bs.map .ok := by
  induction as generalizing bs with
  | nil =>
      cases mapped
      rfl
  | cons a as ih =>
      rw [List.mapM_cons] at mapped
      cases first : f a with
      | error e =>
          rw [first] at mapped
          cases mapped
      | ok b =>
          cases rest : as.mapM f with
          | error e =>
              rw [first, rest] at mapped
              cases mapped
          | ok others =>
              rw [first, rest] at mapped
              cases mapped
              rw [List.map_cons, List.map_cons, first, ih rest]

/-- If all rows can be read, those that can be read are all of them. -/
theorem filterMap_of_mapM {α β ε : Type} {f : α → Except ε β} {as : List α} {bs : List β}
    (mapped : as.mapM f = .ok bs) : as.filterMap (fun a => (f a).toOption) = bs := by
  calc
    as.filterMap (fun a => (f a).toOption) = (as.map f).filterMap Except.toOption := by
      rw [List.filterMap_map]
      rfl
    _ = (bs.map .ok).filterMap fun result : Except ε β => result.toOption := by rw [map_of_mapM mapped]
    _ = bs := by
      rw [List.filterMap_map]
      exact List.filterMap_some

theorem exists_mapM_eq_ok {α β ε : Type} {f : α → Except ε β} {as : List α}
    (each : ∀ a ∈ as, ∃ b, f a = .ok b) : ∃ bs, as.mapM f = .ok bs := by
  induction as with
  | nil => exact ⟨[], rfl⟩
  | cons a as ih =>
      rcases each a List.mem_cons_self with ⟨b, first⟩
      rcases ih fun other later => each other (List.mem_cons_of_mem _ later) with ⟨bs, rest⟩
      exact ⟨b :: bs, by rw [List.mapM_cons, first, rest]; rfl⟩

end Database

end MailboxAccess
