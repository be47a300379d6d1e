import MailboxAccess.Proofs.Store.Elsewhere

/-!
A request about one mailbox is answered from what the store holds about it, and leaves of it what follows from that:
stores that agree about a mailbox give the same answer, be it an error, and agree about it again (`Agree.execute`).
-/
namespace MailboxAccess

/-- The same failure, or the same reply and states that stand in the relation. -/
inductive Matching {α σ : Type} (related : σ → σ → Prop) :
    Except StoreError (α × σ) → Except StoreError (α × σ) → Prop where
  | ok {a b : σ} (reply : α) (after : related a b) : Matching related (.ok (reply, a)) (.ok (reply, b))
  | error (e : StoreError) : Matching related (.error e) (.error e)

namespace Database

theorem filterMap_put_place (identity text : String) (place : Bytes) (entries : List ((String × Bytes) × String)) :
    (InsertionMap.put (identity, place) text entries).filterMap
        (fun ((identity, bytes), rights) => if bytes = place then some (identity, rights) else none) =
      InsertionMap.put identity text
        (entries.filterMap fun ((identity, bytes), rights) =>
          if bytes = place then some (identity, rights) else none) := by
  induction entries with
  | nil => simp [InsertionMap.put]
  | cons head rest ih =>
      rcases head with ⟨⟨owner, bytes⟩, rights⟩
      by_cases here : bytes = place
      · by_cases same : owner = identity
        · simp [InsertionMap.put, here, same]
        · simp [InsertionMap.put, here, same, ih]
      · simp [InsertionMap.put, here, ih]

theorem rowsIn_insert (rows : InsertionMap (String × Bytes) String) (identity text : String) (place : Bytes) :
    rowsIn (rows.insert (identity, place) text) place = InsertionMap.put identity text (rowsIn rows place) :=
  filterMap_put_place identity text place rows.entries

theorem rowsIn_erase (rows : InsertionMap (String × Bytes) String) (identity : String) (place : Bytes) :
    rowsIn (rows.erase (identity, place)) place = (rowsIn rows place).filter fun row => row.1 ≠ identity := by
  rw [rowsIn, rowsIn, InsertionMap.erase, List.filterMap_filter, List.filter_filterMap]
  congr 1
  funext entry
  rcases entry with ⟨⟨owner, bytes⟩, rights⟩
  by_cases here : bytes = place
  · by_cases same : owner = identity <;> simp [here, same, Option.filter]
  · simp [here]

variable {mailbox : MailboxId} {a b : Database}

theorem map_cases {α β : Type} {x y : Option α} {f : α → β} (same : x.map f = y.map f) :
    (x = none ∧ y = none) ∨ ∃ s t, x = some s ∧ y = some t ∧ f s = f t := by
  cases x with
  | none => exact .inl ⟨rfl, Option.map_eq_none_iff.mp same.symm⟩
  | some s =>
      rcases Option.map_eq_some_iff.mp same.symm with ⟨t, held, image⟩
      exact .inr ⟨s, t, rfl, held, image.symm⟩

theorem Agree.put (agree : Agree mailbox a b) (records records' : SortedMap MailboxId (Bytes × Int64))
    (stored : Bytes × Int64) :
    Agree mailbox { a with records := some (records.insert mailbox stored) }
      { b with records := some (records'.insert mailbox stored) } where
  records := by simp [SortedMap.get?_insert, Std.ReflCmp.compare_self]
  rights := agree.rights

theorem Agree.relisted {rows rows' : InsertionMap (String × Bytes) String} (agree : Agree mailbox a b)
    (same : rowsIn rows mailbox.bytes = rowsIn rows' mailbox.bytes) :
    Agree mailbox { a with rights := some rows } { b with rights := some rows' } where
  records := agree.records
  rights := congrArg some same

theorem Agree.read (agree : Agree mailbox a b) :
    Matching (Agree mailbox) (a.execute (.read mailbox)) (b.execute (.read mailbox)) := by
  rcases map_cases agree.records with ⟨missing, missing'⟩ | ⟨records, records', held, held', same⟩
  · simp only [execute, missing, missing', table, bind, Except.bind]
    exact .error _
  · simp only [execute, held, held', same, table, bind, Except.bind, pure, Except.pure]
    cases records'.get? mailbox with
    | none => exact .ok none agree
    | some stored =>
        rcases stored with ⟨acl, column⟩
        dsimp only
        cases ofColumn column with
        | error e => exact .error e
        | ok version => exact .ok (some (Record.mk acl version)) agree

theorem Agree.insert (agree : Agree mailbox a b) (acl : Bytes) :
    Matching (Agree mailbox) (a.execute (.insert mailbox acl)) (b.execute (.insert mailbox acl)) := by
  simp only [execute, putRecord]
  cases toColumn Record.firstVersion with
  | error e => exact .error e
  | ok column =>
      rcases map_cases agree.records with ⟨missing, missing'⟩ | ⟨records, records', held, held', same⟩
      · simp only [missing, missing', table, bind, Except.bind]
        exact .error _
      · simp only [held, held', same, table, bind, Except.bind, pure, Except.pure]
        cases records'.get? mailbox with
        | some stored => exact .ok false agree
        | none => exact .ok true (agree.put records records' (acl, column))

theorem Agree.swap (agree : Agree mailbox a b) (acl : Bytes) (new expected : UInt64) :
    Matching (Agree mailbox) (a.execute (.swap mailbox acl new expected))
      (b.execute (.swap mailbox acl new expected)) := by
  simp only [execute, putRecord]
  cases toColumn new with
  | error e => exact .error e
  | ok column =>
      cases toColumn expected with
      | error e => exact .error e
      | ok expectedColumn =>
          rcases map_cases agree.records with ⟨missing, missing'⟩ | ⟨records, records', held, held', same⟩
          · simp only [missing, missing', table, bind, Except.bind]
            exact .error _
          · simp only [held, held', same, table, bind, Except.bind, pure, Except.pure]
            cases records'.get? mailbox with
            | none => exact .ok false agree
            | some stored =>
                rcases stored with ⟨bytes, version⟩
                dsimp only
                split
                · exact .ok true (agree.put records records' (acl, column))
                · exact .ok false agree

theorem Agree.overwrite (agree : Agree mailbox a b) (acl : Bytes) :
    Matching (Agree mailbox) (a.execute (.overwrite mailbox acl)) (b.execute (.overwrite mailbox acl)) := by
  simp only [execute, putRecord]
  cases toColumn Record.firstVersion with
  | error e => exact .error e
  | ok column =>
      rcases map_cases agree.records with ⟨missing, missing'⟩ | ⟨records, records', held, held', -⟩
      · simp only [missing, missing', table, bind, Except.bind]
        exact .error _
      · simp only [held, held', table, bind, Except.bind, pure, Except.pure]
        exact .ok () (agree.put records records' (acl, column))

theorem Agree.retrieve (agree : Agree mailbox a b) (key : EntryKey) :
    Matching (Agree mailbox) (a.execute (.retrieve key mailbox)) (b.execute (.retrieve key mailbox)) := by
  rcases map_cases agree.rights with ⟨missing, missing'⟩ | ⟨rows, rows', held, held', same⟩
  · simp only [execute, missing, missing', table, bind, Except.bind]
    exact .error _
  · simp only [execute, held, held', get?_eq_of_rowsIn same, table, bind, Except.bind, pure, Except.pure]
    cases rows'.get? (key.text, mailbox.bytes) with
    | none => exact .ok none agree
    | some text =>
        dsimp only
        cases readRights text with
        | error e => exact .error e
        | ok rights => exact .ok (some rights) agree

theorem Agree.listMailbox (agree : Agree mailbox a b) :
    Matching (Agree mailbox) (a.execute (.listMailbox mailbox)) (b.execute (.listMailbox mailbox)) := by
  rcases map_cases agree.rights with ⟨missing, missing'⟩ | ⟨rows, rows', held, held', same⟩
  · simp only [execute, missing, missing', table, bind, Except.bind]
    exact .error _
  · simp only [execute, held, held', table]
    change Matching (Agree mailbox)
      ((rowsIn rows mailbox.bytes).mapM readRow >>= fun read => pure (SortedMap.ofList read, a))
      ((rowsIn rows' mailbox.bytes).mapM readRow >>= fun read => pure (SortedMap.ofList read, b))
    rw [same]
    cases (rowsIn rows' mailbox.bytes).mapM readRow with
    | error e => exact .error e
    | ok read => exact .ok (SortedMap.ofList read) agree

theorem Agree.execute {request : Request} (agree : Agree mailbox a b) (about : request.mailbox? = some mailbox) :
    Matching (Agree mailbox) (a.execute request) (b.execute request) := by
  cases request with
  | read place =>
      cases about
      exact agree.read
  | insert place acl =>
      cases about
      exact agree.insert acl
  | swap place acl new expected =>
      cases about
      exact agree.swap acl new expected
  | overwrite place acl =>
      cases about
      exact agree.overwrite acl
  | upsert key place rights =>
      cases about
      rcases map_cases agree.rights with ⟨missing, missing'⟩ | ⟨rows, rows', held, held', same⟩
      · simp only [Database.execute, missing, missing', table, bind, Except.bind]
        exact .error _
      · simp only [Database.execute, held, held', table, bind, Except.bind, pure, Except.pure]
        exact .ok () (agree.relisted (by rw [rowsIn_insert, rowsIn_insert, same]))
  | delete key place =>
      cases about
      rcases map_cases agree.rights with ⟨missing, missing'⟩ | ⟨rows, rows', held, held', same⟩
      · simp only [Database.execute, missing, missing', table, bind, Except.bind]
        exact .error _
      · simp only [Database.execute, held, held', table, bind, Except.bind, pure, Except.pure]
        exact .ok () (agree.relisted (by rw [rowsIn_erase, rowsIn_erase, same]))
  | retrieve key place =>
      cases about
      exact agree.retrieve key
  | listIdentity key => cases about
  | listMailbox place =>
      cases about
      exact agree.listMailbox

end Database

namespace Store

variable {mailbox : MailboxId} {a b : Store}

/-- Stores that agree about a mailbox cannot be told apart by what is done to it. -/
theorem Agree.execute {request : Request} (agree : Agree mailbox a b) (about : request.mailbox? = some mailbox) :
    Matching (Agree mailbox) (a.execute request) (b.execute request) := by
  cases agree with
  | @memory a b views =>
      have first := a.execute_allows mailbox request
      rw [views] at first
      have same := View.allows_unique about first (b.execute_allows mailbox request)
      have after : (a.execute request).2.viewOf mailbox = (b.execute request).2.viewOf mailbox := by
        rw [a.viewOf_execute, b.viewOf_execute, views, same]
      simp only [Store.execute, same]
      exact .ok _ (.memory after)
  | @database a b tables =>
      have matched := tables.execute about
      simp only [Store.execute]
      generalize a.execute request = executed, b.execute request = executed' at matched
      cases matched with
      | ok reply after => exact .ok reply (.database after)
      | error e => exact .error e

end Store

end MailboxAccess
