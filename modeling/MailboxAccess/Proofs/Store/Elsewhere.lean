import MailboxAccess.Proofs.Store

namespace MailboxAccess

/-- Whether nothing was written: the request only looks, or it is a conditional write that did not take place. -/
def Request.Looks : (request : Request) → request.Reply → Prop
  | insert _ _, created => created = false
  | swap _ _ _ _, swapped => swapped = false
  | overwrite _ _, _ | upsert _ _ _, _ | delete _ _, _ => False
  | read _, _ | retrieve _ _, _ | listIdentity _, _ | listMailbox _, _ => True

namespace Database

variable {rows : InsertionMap (String × Bytes) String} {place other : Bytes}

/-- A row that is put under another mailbox is not among those of this one. -/
theorem filterMap_place_put {identity text : String} (apart : other ≠ place)
    (entries : List ((String × Bytes) × String)) :
    (InsertionMap.put (identity, other) text entries).filterMap
        (fun ((identity, bytes), rights) => if bytes = place then some (identity, rights) else none) =
      entries.filterMap fun ((identity, bytes), rights) => if bytes = place then some (identity, rights) else none := by
  induction entries with
  | nil => simp [InsertionMap.put, apart]
  | cons head rest ih =>
      rcases head with ⟨⟨owner, bytes⟩, rights⟩
      simp only [InsertionMap.put]
      split
      · next same =>
          cases same
          simp [apart]
      · rw [List.filterMap_cons, List.filterMap_cons, ih]

theorem rowsIn_insert_elsewhere (apart : other ≠ place) (identity text : String) :
    rowsIn (rows.insert (identity, other) text) place = rowsIn rows place := filterMap_place_put apart rows.entries

theorem rowsIn_erase_elsewhere (apart : other ≠ place) (identity : String) :
    rowsIn (rows.erase (identity, other)) place = rowsIn rows place := by
  rw [rowsIn, rowsIn, InsertionMap.erase, List.filterMap_filter]
  congr 1
  funext entry
  rcases entry with ⟨⟨owner, bytes⟩, rights⟩
  by_cases here : bytes = place
  · simp [here, Ne.symm apart]
  · simp [here]

theorem get?_eq_of_rowsIn {others : InsertionMap (String × Bytes) String}
    (same : rowsIn others place = rowsIn rows place) (identity : String) :
    others.get? (identity, place) = rows.get? (identity, place) := by
  apply Option.ext
  intro text
  rw [← mem_rowsIn_iff, ← mem_rowsIn_iff, same]

/-- Two databases that hold the same about a mailbox, legible or not. -/
structure Agree (mailbox : MailboxId) (a b : Database) : Prop where
  records : a.records.map (fun records => records.get? mailbox) = b.records.map fun records => records.get? mailbox
  rights : a.rights.map (fun rows => rowsIn rows mailbox.bytes) = b.rights.map fun rows => rowsIn rows mailbox.bytes

theorem Executes.agree {db next : Database} {request : Request} {reply : request.Reply} {mailbox : MailboxId}
    (executes : db.Executes request reply next) (apart : request.mailbox? ≠ some mailbox) : Agree mailbox next db := by
  have put (place : MailboxId) (apart : place ≠ mailbox) (records : SortedMap MailboxId (Bytes × Int64))
      (recorded : db.records = some records) (stored : Bytes × Int64) :
      Agree mailbox { db with records := some (records.insert place stored) } db := by
    refine ⟨?_, rfl⟩
    have other : compare mailbox place ≠ .eq := fun same => apart (Std.LawfulEqCmp.eq_of_compare same).symm
    rw [recorded, Option.map_some, Option.map_some, SortedMap.get?_insert, if_neg other]
  have elsewhere (place : MailboxId) (about : request.mailbox? = some place) : place ≠ mailbox := by
    intro same
    exact apart (about.trans (congrArg some same))
  cases executes with
  | inserted recorded => exact put _ (elsewhere _ rfl) _ recorded _
  | swapped recorded => exact put _ (elsewhere _ rfl) _ recorded _
  | overwritten recorded => exact put _ (elsewhere _ rfl) _ recorded _
  | @upserted rows key place rights indexed =>
      have bytes : place.bytes ≠ mailbox.bytes := fun same => elsewhere place rfl (mailbox_eq same)
      refine ⟨rfl, ?_⟩
      rw [indexed, Option.map_some, Option.map_some, rowsIn_insert_elsewhere bytes]
  | @deleted rows key place indexed =>
      have bytes : place.bytes ≠ mailbox.bytes := fun same => elsewhere place rfl (mailbox_eq same)
      refine ⟨rfl, ?_⟩
      rw [indexed, Option.map_some, Option.map_some, rowsIn_erase_elsewhere bytes]
  | _ => exact ⟨rfl, rfl⟩

theorem Agree.row {mailbox : MailboxId} {a b : Database} (agree : Agree mailbox a b) (identity : String) :
    a.rights.map (fun rows => rows.get? (identity, mailbox.bytes)) =
      b.rights.map fun rows => rows.get? (identity, mailbox.bytes) := by
  have rights := agree.rights
  cases held : a.rights with
  | none =>
      rw [held, Option.map_none, eq_comm, Option.map_eq_none_iff] at rights
      rw [rights, Option.map_none]
  | some rows =>
      rw [held, Option.map_some, eq_comm, Option.map_eq_some_iff] at rights
      rcases rights with ⟨others, held', same⟩
      rw [held', Option.map_some, Option.map_some, get?_eq_of_rowsIn same]

section Answers

variable (db : Database) (mailbox : MailboxId)

theorem read_eq : (db.execute (.read mailbox)).map Prod.fst = (do
    match ← table (db.records.map fun records => records.get? mailbox) with
    | none => return none
    | some (acl, version) => return some ⟨acl, ← ofColumn version⟩) := by
  simp only [execute]
  cases db.records with
  | none => rfl
  | some records =>
      simp only [table, Option.map_some, bind, Except.bind, pure, Except.pure]
      cases records.get? mailbox with
      | none => rfl
      | some stored =>
          rcases stored with ⟨acl, column⟩
          cases read : ofColumn column <;> simp [read] <;> rfl

theorem retrieve_eq (key : EntryKey) : (db.execute (.retrieve key mailbox)).map Prod.fst = (do
    match ← table (db.rights.map fun rows => rows.get? (key.text, mailbox.bytes)) with
    | none => return none
    | some text => return some (← readRights text)) := by
  simp only [execute]
  cases db.rights with
  | none => rfl
  | some rows =>
      simp only [table, Option.map_some, bind, Except.bind, pure, Except.pure]
      cases rows.get? (key.text, mailbox.bytes) with
      | none => rfl
      | some text => cases granted : readRights text <;> simp [granted] <;> rfl

theorem listMailbox_eq : (db.execute (.listMailbox mailbox)).map Prod.fst = (do
    let rows ← table (db.rights.map fun rows => rowsIn rows mailbox.bytes)
    return SortedMap.ofList (← rows.mapM readRow)) := by
  simp only [execute]
  cases db.rights with
  | none => rfl
  | some rows =>
      change ((rowsIn rows mailbox.bytes).mapM readRow >>= fun read =>
        pure (SortedMap.ofList read, db)).map Prod.fst = _
      simp only [table, Option.map_some, bind, Except.bind, pure, Except.pure]
      cases (rowsIn rows mailbox.bytes).mapM readRow <;> rfl

end Answers

end Database

namespace Store

structure Alike (mailbox : MailboxId) (a b : Store) : Prop where
  record : a.look (.read mailbox) = b.look (.read mailbox)
  row : ∀ key, a.look (.retrieve key mailbox) = b.look (.retrieve key mailbox)
  rows : a.look (.listMailbox mailbox) = b.look (.listMailbox mailbox)

theorem Alike.refl (mailbox : MailboxId) (store : Store) : Alike mailbox store store := ⟨rfl, fun _ => rfl, rfl⟩

theorem Alike.trans {mailbox : MailboxId} {a b c : Store} (first : Alike mailbox a b) (second : Alike mailbox b c) :
    Alike mailbox a c where
  record := first.record.trans second.record
  row key := (first.row key).trans (second.row key)
  rows := first.rows.trans second.rows

theorem look_database (db : Database) (request : Request) :
    (database db).look request = (db.execute request).map Prod.fst := by
  simp only [look, execute, bind, Except.bind, pure, Except.pure]
  cases db.execute request <;> rfl

variable {store next : Store} {mailbox : MailboxId} {request : Request} {reply : request.Reply}

theorem eq_of_looks (done : store.execute request = .ok (reply, next)) (looks : request.Looks reply) :
    next = store := by
  cases store with
  | memory memory =>
      rcases execute_memory done with ⟨rfl, rfl⟩
      cases request with
      | insert place acl =>
          simp only [Request.Looks, Memory.execute] at looks ⊢
          cases found : memory.records.get? place with
          | some record => rfl
          | none => simp [found] at looks
      | swap place acl new expected =>
          simp only [Request.Looks, Memory.execute] at looks ⊢
          cases found : memory.records.get? place with
          | none => rfl
          | some record =>
              by_cases same : record.version = expected
              · simp [found, same] at looks
              · simp [same]
      | overwrite | upsert | delete => exact looks.elim
      | _ => rfl
  | database db =>
      rcases execute_database done with ⟨tables, rfl, executed⟩
      cases Database.executes_of_execute executed with
      | inserted | swapped => cases looks
      | overwritten | upserted | deleted => exact looks.elim
      | _ => rfl

inductive Agree (mailbox : MailboxId) : Store → Store → Prop where
  | memory {a b : Memory} (views : a.viewOf mailbox = b.viewOf mailbox) : Agree mailbox (.memory a) (.memory b)
  | database {a b : Database} (tables : Database.Agree mailbox a b) : Agree mailbox (.database a) (.database b)

theorem Agree.refl (mailbox : MailboxId) (store : Store) : Agree mailbox store store := by
  cases store with
  | memory memory => exact .memory rfl
  | database db => exact .database ⟨rfl, rfl⟩

theorem Agree.trans {mailbox : MailboxId} {a b c : Store} (first : Agree mailbox a b) (second : Agree mailbox b c) :
    Agree mailbox a c := by
  cases first with
  | memory views =>
      cases second with
      | memory views' => exact .memory (views.trans views')
  | database tables =>
      cases second with
      | database tables' =>
          exact .database ⟨tables.records.trans tables'.records, tables.rights.trans tables'.rights⟩

theorem agree_of_execute (done : store.execute request = .ok (reply, next))
    (apart : request.mailbox? ≠ some mailbox) : Agree mailbox next store := by
  cases store with
  | memory memory =>
      rcases execute_memory done with ⟨-, rfl⟩
      exact .memory (by rw [memory.viewOf_execute, View.after_elsewhere apart])
  | database db =>
      rcases execute_database done with ⟨tables, rfl, executed⟩
      exact .database ((Database.executes_of_execute executed).agree apart)

theorem Agree.alike {a b : Store} (agree : Agree mailbox a b) : Alike mailbox a b := by
  cases agree with
  | @memory a b views =>
      have same (question : Request) (about : question.mailbox? = some mailbox) :
          (Store.memory a).look question = (Store.memory b).look question := by
        have first := a.execute_allows mailbox question
        rw [views] at first
        exact congrArg Except.ok (View.allows_unique about first (b.execute_allows mailbox question))
      exact ⟨same _ rfl, fun _ => same _ rfl, same _ rfl⟩
  | @database a b tables =>
      refine ⟨?_, ?_, ?_⟩
      · rw [look_database, look_database, Database.read_eq, Database.read_eq, tables.records]
      · intro key
        rw [look_database, look_database, Database.retrieve_eq, Database.retrieve_eq, tables.row]
      · rw [look_database, look_database, Database.listMailbox_eq, Database.listMailbox_eq, tables.rights]

theorem alike_of_execute (done : store.execute request = .ok (reply, next))
    (apart : request.mailbox? ≠ some mailbox) : Alike mailbox next store := (agree_of_execute done apart).alike

end Store

end MailboxAccess
