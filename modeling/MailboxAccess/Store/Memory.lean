import MailboxAccess.Store.Request

/-!
A store that keeps records and index rows as values. Rows are kept by identity and then by mailbox, and an
identity is kept only as long as it has rows.
-/
namespace MailboxAccess

structure Memory where
  records : SortedMap MailboxId Record
  rights : SortedMap EntryKey (SortedMap MailboxId Rights)
  occupied : ∀ entry ∈ rights.entries, entry.2.entries ≠ []

namespace Memory

def empty : Memory := ⟨SortedMap.empty, SortedMap.empty, nofun⟩

def putRecord (memory : Memory) (mailbox : MailboxId) (record : Record) : Memory :=
  { memory with records := memory.records.insert mailbox record }

def rowsOf (memory : Memory) (identity : EntryKey) : SortedMap MailboxId Rights :=
  (memory.rights.get? identity).getD SortedMap.empty

def rowsIn (memory : Memory) (mailbox : MailboxId) : SortedMap EntryKey Rights :=
  SortedMap.ofList (memory.rights.entries.filterMap fun (identity, places) =>
    (places.get? mailbox).map fun rights => (identity, rights))

theorem occupied_insert (memory : Memory) (identity : EntryKey) {places : SortedMap MailboxId Rights}
    (some : places.entries ≠ []) :
    ∀ entry ∈ (memory.rights.insert identity places).entries, entry.2.entries ≠ [] := by
  intro entry member
  rcases SortedMap.mem_of_mem_put member with rfl | old
  · exact some
  · exact memory.occupied entry old

def putRow (memory : Memory) (identity : EntryKey) (mailbox : MailboxId) (rights : Rights) : Memory where
  records := memory.records
  rights := memory.rights.insert identity ((memory.rowsOf identity).insert mailbox rights)
  occupied := memory.occupied_insert identity (SortedMap.put_ne_nil mailbox rights _)

def dropRow (memory : Memory) (identity : EntryKey) (mailbox : MailboxId) : Memory :=
  match memory.rights.get? identity with
  | none => memory
  | some places =>
    if left : (places.erase mailbox).entries = [] then
      { records := memory.records
        rights := memory.rights.erase identity
        occupied := fun entry member => memory.occupied entry (List.mem_filter.mp member).1 }
    else
      { records := memory.records
        rights := memory.rights.insert identity (places.erase mailbox)
        occupied := memory.occupied_insert identity left }

def execute (memory : Memory) : (request : Request) → request.Reply × Memory
  | .read mailbox => (memory.records.get? mailbox, memory)
  | .insert mailbox acl =>
    match memory.records.get? mailbox with
    | some _ => (false, memory)
    | none => (true, memory.putRecord mailbox ⟨acl, Record.firstVersion⟩)
  | .swap mailbox acl new expected =>
    match memory.records.get? mailbox with
    | some record =>
      if record.version = expected then (true, memory.putRecord mailbox ⟨acl, new⟩) else (false, memory)
    | none => (false, memory)
  | .overwrite mailbox acl => ((), memory.putRecord mailbox ⟨acl, Record.firstVersion⟩)
  | .upsert identity mailbox rights => ((), memory.putRow identity mailbox rights)
  | .delete identity mailbox => ((), memory.dropRow identity mailbox)
  | .retrieve identity mailbox =>
    ((memory.rights.get? identity).bind fun places => places.get? mailbox, memory)
  | .listIdentity identity => (memory.rowsOf identity, memory)
  | .listMailbox mailbox => (memory.rowsIn mailbox, memory)

end Memory

end MailboxAccess
