import MailboxAccess.Proofs.Codec
import MailboxAccess.Proofs.Store.Elsewhere

namespace MailboxAccess

theorem MailboxId.ofBytes_bytes (mailbox : MailboxId) : ofBytes? mailbox.bytes = some mailbox :=
  dif_pos mailbox.sixteen

theorem MailboxId.bytes_of_ofBytes {bytes : Bytes} {mailbox : MailboxId} (read : ofBytes? bytes = some mailbox) :
    mailbox.bytes = bytes := by
  rw [ofBytes?] at read
  split at read
  · cases read
    rfl
  · cases read

namespace InsertionMap

variable {κ β : Type} [DecidableEq κ]

theorem put_idle {key : κ} {value : β} {entries : List (κ × β)} (held : find key entries = some value) :
    put key value entries = entries := by
  induction entries with
  | nil => cases held
  | cons head rest ih =>
      rcases head with ⟨k, v⟩
      simp only [find] at held
      simp only [put]
      split
      · next same =>
          rw [if_pos same] at held
          cases held
          rw [same]
      · next other =>
          rw [if_neg other] at held
          rw [ih held]

theorem insert_idle {map : InsertionMap κ β} {key : κ} {value : β} (held : map.get? key = some value) :
    map.insert key value = map := by
  cases map
  simp only [insert, mk.injEq]
  exact put_idle held

theorem erase_idle {map : InsertionMap κ β} {key : κ} (missing : map.get? key = none) : map.erase key = map := by
  have apart : ∀ entry ∈ map.entries, entry.1 ≠ key := by
    intro entry member same
    rcases entry with ⟨k, v⟩
    rw [← show k = key from same, get?_eq_some_iff.mpr member] at missing
    cases missing
  cases map
  simp only [erase, mk.injEq]
  exact List.filter_eq_self.mpr fun entry member => decide_eq_true (apart entry member)

end InsertionMap

namespace SortedMap

variable {κ β : Type} [Ord κ] [Std.TransOrd κ] [Std.LawfulEqOrd κ]

theorem insert_idle {map : SortedMap κ β} {key : κ} {value : β} (held : map.get? key = some value) :
    map.insert key value = map := by
  apply ext_get?
  intro other
  rw [get?_insert]
  split
  · next same => rw [Std.LawfulEqCmp.eq_of_compare same, held]
  · rfl

theorem erase_idle {map : SortedMap κ β} {key : κ} (missing : map.get? key = none) : map.erase key = map := by
  apply ext_get?
  intro other
  rw [get?_erase]
  split
  · next same => rw [Std.LawfulEqCmp.eq_of_compare same, missing]
  · rfl

end SortedMap

namespace Memory

variable {memory : Memory} {identity : EntryKey} {mailbox : MailboxId}

theorem get?_rowsOf_eq_some {rights : Rights} (held : (memory.rowsOf identity).get? mailbox = some rights) :
    memory.rights.get? identity = some (memory.rowsOf identity) := by
  cases kept : memory.rights.get? identity with
  | some places => rw [rowsOf_eq kept]
  | none =>
      rw [rowsOf, kept] at held
      cases held

theorem get?_rowsOf_putRow (memory : Memory) (identity other : EntryKey) (mailbox place : MailboxId)
    (rights : Rights) :
    ((memory.putRow identity mailbox rights).rowsOf other).get? place =
      if other = identity ∧ place = mailbox then some rights else (memory.rowsOf other).get? place := by
  rw [rowsOf_putRow]
  by_cases same : other = identity
  · simp [same, SortedMap.get?_insert, Std.LawfulEqCmp.compare_eq_iff_eq]
  · simp [same]

theorem get?_rowsOf_dropRow (memory : Memory) (identity other : EntryKey) (mailbox place : MailboxId) :
    ((memory.dropRow identity mailbox).rowsOf other).get? place =
      if other = identity ∧ place = mailbox then none else (memory.rowsOf other).get? place := by
  rw [rowsOf_dropRow]
  by_cases same : other = identity
  · simp [same, SortedMap.get?_erase, Std.LawfulEqCmp.compare_eq_iff_eq]
  · simp [same]

theorem putRow_idle {rights : Rights} (held : (memory.rowsOf identity).get? mailbox = some rights) :
    memory.putRow identity mailbox rights = memory := by
  have kept := get?_rowsOf_eq_some held
  cases memory
  simp only [putRow, mk.injEq, true_and]
  rw [SortedMap.insert_idle held, SortedMap.insert_idle kept]

theorem dropRow_idle (missing : (memory.rowsOf identity).get? mailbox = none) :
    memory.dropRow identity mailbox = memory := by
  unfold dropRow
  split
  · rfl
  · next places kept =>
      rw [rowsOf_eq kept] at missing
      have occupied := memory.occupied _ (SortedMap.get?_eq_some_iff.mp kept)
      have same : places.erase mailbox = places := SortedMap.erase_idle missing
      split
      · next left =>
          rw [same] at left
          exact absurd left occupied
      · cases memory
        simp only [mk.injEq, true_and]
        rw [same, SortedMap.insert_idle kept]

end Memory

namespace Store

/-- The text of a row, or what it would be written as. -/
def cell (store : Store) (identity : String) (place : Bytes) : Option String :=
  match store with
  | memory m => do
    let key ← (EntryKey.parse identity).toOption
    let mailbox ← MailboxId.ofBytes? place
    return (← (m.rowsOf key).get? mailbox).text
  | database db => db.rights.bind fun rows => rows.get? (identity, place)

def Indexed : Store → Prop
  | memory _ => True
  | database db => ∃ rows, db.rights = some rows

def setRow (store : Store) (key : EntryKey) (mailbox : MailboxId) (value : Option Rights) : Store :=
  match store, value with
  | memory m, some rights => memory (m.putRow key mailbox rights)
  | memory m, none => memory (m.dropRow key mailbox)
  | database db, some rights =>
    database { db with rights := db.rights.map fun rows => rows.insert (key.text, mailbox.bytes) rights.text }
  | database db, none =>
    database { db with rights := db.rights.map fun rows => rows.erase (key.text, mailbox.bytes) }

variable {store : Store} {key : EntryKey} {mailbox : MailboxId}

theorem cell_memory (memory : Memory) (key : EntryKey) (mailbox : MailboxId) :
    (Store.memory memory).cell key.text mailbox.bytes = ((memory.rowsOf key).get? mailbox).map Rights.text := by
  simp only [cell, key.parse_text, Except.toOption, mailbox.ofBytes_bytes, bind, Option.bind_some, pure]
  cases (memory.rowsOf key).get? mailbox <;> rfl

theorem cell_memory_of_unnamed {identity : String} {place : Bytes}
    (unnamed : ¬ ∃ (key : EntryKey) (mailbox : MailboxId), key.text = identity ∧ mailbox.bytes = place)
    (memory : Memory) : (Store.memory memory).cell identity place = none := by
  cases parsed : EntryKey.parse identity with
  | error e => simp only [cell, parsed, Except.toOption, bind, Option.bind_none]
  | ok key =>
      cases read : MailboxId.ofBytes? place with
      | none => simp only [cell, parsed, read, Except.toOption, bind, Option.bind_some, Option.bind_none]
      | some mailbox =>
          exact absurd ⟨key, mailbox, EntryKey.text_of_parse parsed, MailboxId.bytes_of_ofBytes read⟩ unnamed

theorem execute_upsert (indexed : store.Indexed) (key : EntryKey) (mailbox : MailboxId) (rights : Rights) :
    store.execute (.upsert key mailbox rights) = .ok ((), store.setRow key mailbox (some rights)) := by
  cases store with
  | memory memory => rfl
  | database db =>
      rcases indexed with ⟨rows, held⟩
      simp only [execute, Database.execute, held, Database.table, bind, Except.bind, pure, Except.pure, setRow,
        Option.map_some]

theorem execute_delete (indexed : store.Indexed) (key : EntryKey) (mailbox : MailboxId) :
    store.execute (.delete key mailbox) = .ok ((), store.setRow key mailbox none) := by
  cases store with
  | memory memory => rfl
  | database db =>
      rcases indexed with ⟨rows, held⟩
      simp only [execute, Database.execute, held, Database.table, bind, Except.bind, pure, Except.pure, setRow,
        Option.map_some]

theorem Indexed.setRow (indexed : store.Indexed) (key : EntryKey) (mailbox : MailboxId) (value : Option Rights) :
    (store.setRow key mailbox value).Indexed := by
  cases store with
  | memory memory => cases value <;> trivial
  | database db =>
      rcases indexed with ⟨rows, held⟩
      cases value with
      | none => exact ⟨_, by rw [held]; rfl⟩
      | some rights => exact ⟨_, by rw [held]; rfl⟩

theorem cell_setRow (indexed : store.Indexed) (key : EntryKey) (mailbox : MailboxId) (value : Option Rights)
    (identity : String) (place : Bytes) :
    (store.setRow key mailbox value).cell identity place =
      if identity = key.text ∧ place = mailbox.bytes then value.map Rights.text else store.cell identity place := by
  cases store with
  | memory memory =>
      by_cases named : ∃ (other : EntryKey) (elsewhere : MailboxId), other.text = identity ∧ elsewhere.bytes = place
      · rcases named with ⟨other, elsewhere, rfl, rfl⟩
        have here : (other.text = key.text ∧ elsewhere.bytes = mailbox.bytes) ↔ other = key ∧ elsewhere = mailbox :=
          and_congr ⟨EntryKey.text_injective, congrArg EntryKey.text⟩ ⟨Database.mailbox_eq, congrArg MailboxId.bytes⟩
        simp only [here]
        cases value with
        | none =>
            rw [setRow, cell_memory, cell_memory, Memory.get?_rowsOf_dropRow]
            split <;> rfl
        | some rights =>
            rw [setRow, cell_memory, cell_memory, Memory.get?_rowsOf_putRow]
            split <;> rfl
      · have apart : ¬ (identity = key.text ∧ place = mailbox.bytes) :=
          fun both => named ⟨key, mailbox, both.1.symm, both.2.symm⟩
        rw [if_neg apart, cell_memory_of_unnamed named]
        cases value with
        | none => exact cell_memory_of_unnamed named _
        | some rights => exact cell_memory_of_unnamed named _
  | database db =>
      rcases indexed with ⟨rows, held⟩
      have here : ((key.text, mailbox.bytes) = (identity, place)) ↔ identity = key.text ∧ place = mailbox.bytes := by
        rw [Prod.mk.injEq, eq_comm, eq_comm (b := place)]
      cases value with
      | none => simp [setRow, cell, held, InsertionMap.get?_erase, here]
      | some rights => simp [setRow, cell, held, InsertionMap.get?_insert, here]

/-- Writing what is there already changes nothing. -/
theorem setRow_idle {value : Option Rights} (held : store.cell key.text mailbox.bytes = value.map Rights.text) :
    store.setRow key mailbox value = store := by
  cases store with
  | memory memory =>
      rw [cell_memory] at held
      have row : (memory.rowsOf key).get? mailbox = value :=
        Option.map_injective (fun _ _ => Rights.text_injective) held
      cases value with
      | none => exact congrArg Store.memory (Memory.dropRow_idle row)
      | some rights => exact congrArg Store.memory (Memory.putRow_idle row)
  | database db =>
      rcases db with ⟨versions, records, table⟩
      cases table with
      | none => cases value <;> rfl
      | some rows =>
          have row : rows.get? (key.text, mailbox.bytes) = value.map Rights.text := held
          cases value with
          | none => simp only [setRow, Option.map_some, InsertionMap.erase_idle row]
          | some rights => simp only [setRow, Option.map_some, InsertionMap.insert_idle row]

theorem look_retrieve (indexed : store.Indexed) (key : EntryKey) (place : MailboxId) :
    store.look (.retrieve key place) =
      match store.cell key.text place.bytes with
      | none => .ok none
      | some text => (Database.readRights text).map some := by
  cases store with
  | memory memory =>
      have row : (memory.execute (.retrieve key place)).1 = (memory.rowsOf key).get? place := by
        simp only [Memory.execute, Memory.rowsOf]
        cases memory.rights.get? key <;> rfl
      rw [cell_memory]
      change Except.ok (memory.execute (.retrieve key place)).1 = _
      rw [row]
      cases (memory.rowsOf key).get? place with
      | none => rfl
      | some rights =>
          simp only [Option.map_some, Database.readRights, rights.parse_text]
          rfl
  | database db =>
      rcases indexed with ⟨rows, held⟩
      rw [look_database, Database.retrieve_eq, cell, held, Option.map_some, Option.bind_some]
      cases rows.get? (key.text, place.bytes) with
      | none => rfl
      | some text =>
          simp only [Database.table, bind, Except.bind, pure, Except.pure]
          cases Database.readRights text <;> rfl

end Store

end MailboxAccess
