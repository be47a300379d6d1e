import MailboxAccess.Proofs.Store.Agreement
import MailboxAccess.Proofs.Store.Schema

namespace MailboxAccess

inductive Visit where
  | ask (request : Request)
  | reopen (refusals : List Bool)

def Visit.request? : Visit → Option Request
  | ask request => some request
  | reopen _ => none

namespace Database

def visit (db : Database) : Visit → Option Exchange × Database
  | .ask request =>
    match db.execute request with
    | .ok (reply, next) => (some ⟨.store request, .ok reply⟩, next)
    | .error e => (some ⟨.store request, .error e⟩, db)
  | .reopen refusals => (none, (db.opening refusals).2)

def visits : Database → List Visit → List Exchange × Database
  | db, [] => ([], db)
  | db, next :: later =>
    let (exchange, between) := db.visit next
    let (exchanges, last) := between.visits later
    (exchange.toList ++ exchanges, last)

structure Upgraded (before after : Database) : Prop where
  due : ∀ version : Nat, version ∈ before.pending ↔ before.newest < version ∧ version ≤ supportedVersion
  applied : Applied before.prepared before.pending after
  recorded : after.versions = some (before.recorded ++ before.pending.map Int.ofNat)
  once : ∀ version : Nat, version ∈ before.pending → after.recorded.count (version : Int) = 1
  kept : Keeps before after

/-- At most an empty table of versions has been added. -/
def Untouched (before after : Database) : Prop :=
  after = before ∨ (before.versions = none ∧ after = { before with versions := some [] })

structure Reopens (db : Database) : Prop where
  /-- Whoever asks is answered as if nobody had opened the file in between. -/
  unnoticed : ∀ visits, (db.visits visits).1 = (Store.database db).exchanges (visits.filterMap Visit.request?)
  unchanged : ∀ visits refusals, ((db.visits visits).2.opening refusals).2 = (db.visits visits).2
  succeeds : ∀ visits refusals, true ∉ refusals → ((db.visits visits).2.opening refusals).1 = .ok ()

/-- How the opening of a file may end, if the engine refuses some of what it is asked. -/
structure AllOrNothing (db : Database) (refusals : List Bool) : Prop where
  succeeded : ∀ after, db.opening refusals = (.ok (), after) → Upgraded db after
  /-- What failed has been rolled back. -/
  failed : ∀ e after, db.opening refusals = (.error e, after) →
    Untouched db after ∧ (Script.Refused refusals e ∨ Fault db e)
  /-- A fault is always reported, unless the engine refuses something before it is found. -/
  faulty : ∀ e, Fault db e → ∃ reported, (db.opening refusals).1 = .error reported ∧
    (reported = e ∨ Script.Refused refusals reported)
  faultless : (∀ e, ¬ Fault db e) → true ∉ refusals → (db.opening refusals).1 = .ok ()
  reopens : ∀ after, db.opening refusals = (.ok (), after) → Reopens after

section Opening

variable {db after : Database} {refusals : List Bool}

theorem upgraded_of_applied (natural : 0 ≤ db.newest) (applied : Applied db.prepared db.pending after) :
    Upgraded db after := by
  have recorded : after.versions = some (db.recorded ++ db.pending.map Int.ofNat) := applied.versions rfl
  refine ⟨fun version => mem_pending_iff natural, applied, recorded, ?_, applied.keeps.records, applied.keeps.rights⟩
  intro version due
  rw [Database.recorded, recorded, Option.getD_some]
  exact count_pending natural due

theorem untouched_prepared (db : Database) : Untouched db db.prepared := by
  rcases db with ⟨versions, records, rights⟩
  cases versions with
  | none => exact .inr ⟨rfl, rfl⟩
  | some => exact .inl rfl

theorem opening_of_newest (current : db.newest = supportedVersion) (refusals : List Bool) :
    (db.opening refusals).2 = db ∧ (true ∉ refusals → (db.opening refusals).1 = .ok ()) := by
  have listed : db.prepared = db := by
    rcases untouched_prepared db with same | ⟨untold, -⟩
    · exact same
    · rw [newest, Database.recorded, untold] at current
      cases current
  have done : db.pending = [] := by
    rw [pending, current]
    rfl
  rcases opening_cases db refusals with ⟨after, opened, -, applied⟩ | ⟨e, after, opened, left, why⟩
  · rw [done] at applied
    cases applied
    rw [opened, listed]
    exact ⟨rfl, fun _ => rfl⟩
  · have same : after = db := by
      rcases left with same | same
      · exact same
      · rw [same, listed]
    rw [opened, same]
    refine ⟨rfl, ?_⟩
    intro unrefused
    rcases why with refused | fault
    · exact absurd refused.foreseen unrefused
    · -- with nothing pending the file has no fault either
      have applied : Applied db.prepared db.pending db.prepared := by
        rw [done]
        exact .nil
      exact absurd fault (applied.faultless (by omega) (Int.le_of_eq current))

theorem newest_execute {request : Request} {reply : request.Reply} {next : Database}
    (done : db.execute request = .ok (reply, next)) : next.newest = db.newest := by
  have same : next.versions = db.versions := by
    cases executes_of_execute done <;> rfl
  rw [newest, newest, recorded, recorded, same]

theorem visits_of_newest (current : db.newest = supportedVersion) (visits : List Visit) :
    (db.visits visits).1 = (Store.database db).exchanges (visits.filterMap Visit.request?) ∧
      (db.visits visits).2.newest = supportedVersion := by
  induction visits generalizing db with
  | nil => exact ⟨rfl, current⟩
  | cons next later ih =>
      cases next with
      | reopen refusals =>
          rw [visits, visit, (opening_of_newest current refusals).1]
          exact ih current
      | ask request =>
          simp only [visits, visit, List.filterMap_cons, Visit.request?, Store.exchanges, Store.answer, Store.execute]
          cases done : db.execute request with
          | ok result =>
              rcases result with ⟨reply, between⟩
              rcases ih ((newest_execute done).trans current) with ⟨answered, last⟩
              exact ⟨congrArg _ answered, last⟩
          | error e =>
              rcases ih current with ⟨answered, last⟩
              exact ⟨congrArg _ answered, last⟩

theorem reopens_of_newest (current : db.newest = supportedVersion) : Reopens db where
  unnoticed visits := (visits_of_newest current visits).1
  unchanged visits refusals := (opening_of_newest (visits_of_newest current visits).2 refusals).1
  succeeds visits refusals := (opening_of_newest (visits_of_newest current visits).2 refusals).2

theorem upgraded_of_opening (opened : db.opening refusals = (.ok (), after)) :
    Upgraded db after ∧ Reopens after ∧ ∀ e, ¬ Fault db e := by
  rcases opening_cases db refusals with ⟨_, same, ⟨natural, known⟩, applied⟩ | ⟨e, _, failed, -⟩
  · cases same.symm.trans opened
    have upgraded := upgraded_of_applied natural applied
    have current : after.newest = supportedVersion := newest_of_recorded natural known upgraded.recorded
    exact ⟨upgraded, reopens_of_newest current, fun e => applied.faultless natural known⟩
  · cases failed.symm.trans opened

theorem untouched_of_opening {e : StoreError} (failed : db.opening refusals = (.error e, after)) :
    Untouched db after ∧ (Script.Refused refusals e ∨ Fault db e) := by
  rcases opening_cases db refusals with ⟨_, opened, -⟩ | ⟨_, _, same, left, why⟩
  · cases opened.symm.trans failed
  · cases same.symm.trans failed
    refine ⟨?_, why⟩
    rcases left with rfl | rfl
    · exact .inl rfl
    · exact untouched_prepared db

theorem allOrNothing (db : Database) (refusals : List Bool) : AllOrNothing db refusals where
  succeeded after opened := (upgraded_of_opening opened).1
  failed e after := untouched_of_opening
  reopens after opened := (upgraded_of_opening opened).2.1
  faulty e fault := by
    rcases ended : db.opening refusals with ⟨_ | ⟨⟩, after⟩
    · rcases (untouched_of_opening ended).2 with refused | own
      · exact ⟨_, rfl, .inr refused⟩
      · exact ⟨_, rfl, .inl (own.unique fault)⟩
    · exact absurd fault ((upgraded_of_opening ended).2.2 e)
  faultless sound unrefused := by
    rcases ended : db.opening refusals with ⟨e | ⟨⟩, after⟩
    · rcases (untouched_of_opening ended).2 with refused | own
      · exact absurd refused.foreseen unrefused
      · exact absurd own (sound e)
    · rfl

end Opening

/-- Opening a file brings it up to the supported version, after which it may be opened again at any time, or it fails
and has changed nothing that anybody could miss. A file that is not there yet becomes a fresh database. -/
theorem opening_all_or_nothing :
    (∀ db refusals, AllOrNothing db refusals) ∧ empty.opening [] = (.ok (), fresh) :=
  ⟨allOrNothing, rfl⟩

end Database

end MailboxAccess
