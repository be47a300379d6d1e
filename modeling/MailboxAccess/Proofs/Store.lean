import MailboxAccess.Acl
import MailboxAccess.Plan
import MailboxAccess.Proofs.Store.Database
import MailboxAccess.Proofs.Store.Memory

namespace MailboxAccess

namespace Store

/-- What the store holds about the mailbox, as far as it can be read. -/
def viewOf (store : Store) (mailbox : MailboxId) : View :=
  match store with
  | memory m => m.viewOf mailbox
  | database db => db.viewOf mailbox

def view? (store : Store) (mailbox : MailboxId) : Except StoreError View := do
  return ⟨← store.look (.read mailbox), ← store.look (.listMailbox mailbox)⟩

variable {store next : Store} {mailbox : MailboxId} {request : Request} {reply : request.Reply}

theorem execute_memory {memory : Memory} (done : (Store.memory memory).execute request = .ok (reply, next)) :
    reply = (memory.execute request).1 ∧ next = .memory (memory.execute request).2 := by
  have answered : (Except.ok ((memory.execute request).1, Store.memory (memory.execute request).2) :
      Except StoreError (request.Reply × Store)) = .ok (reply, next) := done
  rcases Prod.mk.inj (Except.ok.inj answered) with ⟨rfl, rfl⟩
  exact ⟨rfl, rfl⟩

theorem execute_database {db : Database} (done : (Store.database db).execute request = .ok (reply, next)) :
    ∃ tables, next = .database tables ∧ db.execute request = .ok (reply, tables) := by
  simp only [execute, bind, Except.bind, pure, Except.pure] at done
  split at done
  · cases done
  · next executed =>
      cases done
      exact ⟨_, rfl, executed⟩

theorem execute_of_look (answered : store.look request = .ok reply) :
    ∃ next, store.execute request = .ok (reply, next) := by
  rw [look] at answered
  cases done : store.execute request with
  | error e =>
      rw [done] at answered
      cases answered
  | ok result =>
      rw [done] at answered
      cases answered
      exact ⟨result.2, rfl⟩

/-- A request that is answered is answered from the view, and what the store then holds follows from it. -/
theorem execute_view (done : store.execute request = .ok (reply, next)) :
    (store.viewOf mailbox).Allows mailbox request reply ∧
      next.viewOf mailbox = (store.viewOf mailbox).after mailbox request reply := by
  cases store with
  | memory memory =>
      rcases execute_memory done with ⟨rfl, rfl⟩
      exact ⟨memory.execute_allows mailbox request, memory.viewOf_execute mailbox request⟩
  | database db =>
      rcases execute_database done with ⟨tables, rfl, executed⟩
      have executes := Database.executes_of_execute executed
      exact ⟨executes.allows, executes.viewOf_eq⟩

theorem read_after {seen : Option Record} (shown : store.look (.read mailbox) = .ok seen)
    (done : store.execute request = .ok (reply, next)) :
    next.look (.read mailbox) = .ok (next.viewOf mailbox).record := by
  cases store with
  | memory memory =>
      rcases execute_memory done with ⟨-, rfl⟩
      rfl
  | database db =>
      rcases execute_database done with ⟨tables, rfl, executed⟩
      rcases execute_of_look shown with ⟨same, read⟩
      rcases execute_database read with ⟨_, rfl, readDone⟩
      rcases ((Database.executes_of_execute executed).showsRecord (Database.showsRecord_of_read readDone)).read with
        ⟨found, again⟩
      have held : found = (tables.viewOf mailbox).record := (Database.executes_of_execute again).allows rfl
      rw [look, execute, again, held]
      rfl

theorem list_after {rows : SortedMap EntryKey Rights} (shown : store.look (.listMailbox mailbox) = .ok rows)
    (done : store.execute request = .ok (reply, next)) :
    next.look (.listMailbox mailbox) = .ok (next.viewOf mailbox).rows := by
  cases store with
  | memory memory =>
      rcases execute_memory done with ⟨-, rfl⟩
      rfl
  | database db =>
      rcases execute_database done with ⟨tables, rfl, executed⟩
      rcases execute_of_look shown with ⟨same, listed⟩
      rcases execute_database listed with ⟨_, rfl, listDone⟩
      rcases ((Database.executes_of_execute executed).showsRows (Database.showsRows_of_list listDone)).list with
        ⟨found, again⟩
      have held : found = (tables.viewOf mailbox).rows := (Database.executes_of_execute again).allows rfl
      rw [look, execute, again, held]
      rfl

theorem record_of_look {seen : Option Record} (shown : store.look (.read mailbox) = .ok seen) :
    (store.viewOf mailbox).record = seen := by
  rcases execute_of_look shown with ⟨same, done⟩
  have allowed : (store.viewOf mailbox).Allows mailbox (.read mailbox) seen := (execute_view done).1
  exact (allowed rfl).symm

theorem rows_of_look {rows : SortedMap EntryKey Rights} (shown : store.look (.listMailbox mailbox) = .ok rows) :
    (store.viewOf mailbox).rows = rows := by
  rcases execute_of_look shown with ⟨same, done⟩
  have allowed : (store.viewOf mailbox).Allows mailbox (.listMailbox mailbox) rows := (execute_view done).1
  exact (allowed rfl).symm

theorem view_eq_ok_iff {view : View} :
    store.view? mailbox = .ok view ↔
      store.look (.read mailbox) = .ok view.record ∧ store.look (.listMailbox mailbox) = .ok view.rows := by
  simp only [view?, bind, Except.bind, pure, Except.pure]
  constructor
  · intro shown
    split at shown
    · cases shown
    · next seen read =>
        split at shown
        · cases shown
        · next rows listed =>
            cases shown
            exact ⟨read, listed⟩
  · intro both
    rw [both.1, both.2]

theorem viewOf_eq {view : View} (shown : store.view? mailbox = .ok view) : store.viewOf mailbox = view := by
  rcases view_eq_ok_iff.mp shown with ⟨read, listed⟩
  have record := record_of_look read
  have rows := rows_of_look listed
  cases view
  exact View.mk.injEq .. ▸ ⟨record, rows⟩

end Store

namespace Exchange

def stored? (mailbox : MailboxId) : Exchange → Option Record
  | ⟨.store request, .ok reply⟩ => request.stored? mailbox reply
  | _ => none

def row? (mailbox : MailboxId) (key : EntryKey) : Exchange → Option (Option Rights)
  | ⟨.store request, .ok _⟩ => request.row? mailbox key
  | _ => none

def shown? (mailbox : MailboxId) : Exchange → Option Record
  | ⟨.store (.read place), .ok seen⟩ => if place = mailbox then seen else none
  | exchange => exchange.stored? mailbox

/-- What the exchange tells about the mailbox's row of the key. Rows without rights count as missing. -/
def knows? (mailbox : MailboxId) (key : EntryKey) : Exchange → Option (Option Rights)
  | ⟨.store (.listMailbox place), .ok rows⟩ =>
    if place = mailbox then some ((Acl.ofEntries rows.entries).get? key) else none
  | exchange => exchange.row? mailbox key

theorem knows_upsert (key other : EntryKey) (mailbox : MailboxId) (rights : Rights) (reply : Unit) :
    knows? mailbox other ⟨.store (.upsert key mailbox rights), .ok reply⟩ =
      if key = other then some (some rights) else none := by
  by_cases same : key = other <;> simp [knows?, row?, Request.row?, same]

theorem knows_delete (key other : EntryKey) (mailbox : MailboxId) (reply : Unit) :
    knows? mailbox other ⟨.store (.delete key mailbox), .ok reply⟩ =
      if key = other then some none else none := by
  by_cases same : key = other <;> simp [knows?, row?, Request.row?, same]

def won? : Exchange → Option Bool
  | ⟨.store (.insert _ _), .ok created⟩ => some created
  | ⟨.store (.swap _ _ _ _), .ok swapped⟩ => some swapped
  | _ => none

structure Idle (mailbox : MailboxId) (exchange : Exchange) : Prop where
  stored : exchange.stored? mailbox = none
  knows : ∀ key, exchange.knows? mailbox key = none

def Failed : Exchange → Prop
  | ⟨.store _, .error _⟩ => True
  | _ => False

instance : DecidablePred Failed
  | ⟨.store _, .error _⟩ => isTrue trivial
  | ⟨.store _, .ok _⟩ => isFalse id
  | ⟨.hook _ _, _⟩ => isFalse id
  | ⟨.notify _ _, _⟩ => isFalse id

def Void : Exchange → Prop
  | ⟨.store _, .ok _⟩ => False
  | _ => True

end Exchange

namespace View

/-- Whether a store with this view may answer so; hooks and listeners are free. -/
def Permits (mailbox : MailboxId) (view : View) : Exchange → Prop
  | ⟨.store request, .ok reply⟩ => view.Allows mailbox request reply
  | _ => True

def next (mailbox : MailboxId) (view : View) : Exchange → View
  | ⟨.store request, .ok reply⟩ => view.after mailbox request reply
  | _ => view

theorem permits_of_void {exchange : Exchange} (void : exchange.Void) (mailbox : MailboxId) (view : View) :
    view.Permits mailbox exchange ∧ view.next mailbox exchange = view := by
  rcases exchange with ⟨c, answer⟩
  cases c with
  | store request =>
      cases answer with
      | ok reply => cases void
      | error => exact ⟨trivial, rfl⟩
  | hook => exact ⟨trivial, rfl⟩
  | notify => exact ⟨trivial, rfl⟩

theorem record_next (mailbox : MailboxId) (view : View) (exchange : Exchange) :
    (view.next mailbox exchange).record = (exchange.stored? mailbox).or view.record := by
  rcases exchange with ⟨c, answer⟩
  cases c with
  | store request => cases answer <;> rfl
  | hook => rfl
  | notify => rfl

theorem rows_next (mailbox : MailboxId) (view : View) (exchange : Exchange) (key : EntryKey) :
    (view.next mailbox exchange).rows.get? key =
      (exchange.row? mailbox key).getD (view.rows.get? key) := by
  rcases exchange with ⟨c, answer⟩
  cases c with
  | store request =>
      cases answer with
      | ok reply => exact get?_rowsAfter mailbox view.rows request key
      | error => rfl
  | hook => rfl
  | notify => rfl

end View

end MailboxAccess
