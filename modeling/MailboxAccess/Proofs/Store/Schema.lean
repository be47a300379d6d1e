import Mathlib.Data.List.Count
import Mathlib.Data.List.Nodup
import MailboxAccess.Proofs.Store.Connection
import MailboxAccess.Store.Schema

namespace MailboxAccess

namespace Database

def recorded (db : Database) : List Int := db.versions.getD []

def newest (db : Database) : Int := db.recorded.max?.getD 0

def pending (db : Database) : List Nat := List.range' (db.newest.toNat + 1) (supportedVersion - db.newest.toNat)

def prepared (db : Database) : Database := { db with versions := some db.recorded }

inductive Applies : Database → Nat → Database → Prop where
  | tables {versions : Option (List Int)} :
      Applies ⟨versions, none, none⟩ 1 ⟨versions, some SortedMap.empty, some InsertionMap.empty⟩

inductive Applied : Database → List Nat → Database → Prop where
  | nil {db : Database} : Applied db [] db
  | next {db between after : Database} {version : Nat} {later : List Nat} {versions : List Int}
      (applies : Applies db version between) (listed : between.versions = some versions)
      (new : (version : Int) ∉ versions)
      (rest : Applied { between with versions := some (versions ++ [(version : Int)]) } later after) :
      Applied db (version :: later) after

inductive Blocked (db : Database) : Nat → StoreError → Prop where
  | unknown {version : Nat} (other : version ≠ 1) :
      Blocked db version (.migration ("unknown migration version: " ++ toString version))
  | occupied (there : db.records ≠ none ∨ db.rights ≠ none) : Blocked db 1 .database
  | untold {version : Nat} (missing : db.versions = none) : Blocked db version .database
  | repeated {version : Nat} (seen : (version : Int) ∈ db.recorded) : Blocked db version .database

inductive Stops : Database → List Nat → StoreError → Prop where
  | here {db : Database} {version : Nat} {later : List Nat} {e : StoreError} (blocked : Blocked db version e) :
      Stops db (version :: later) e
  | later {db between : Database} {version : Nat} {later : List Nat} {versions : List Int} {e : StoreError}
      (applies : Applies db version between)
      (stops : Stops { between with versions := some (versions ++ [(version : Int)]) } later e) :
      Stops db (version :: later) e

theorem Applies.versions {db after : Database} {version : Nat} (applies : Applies db version after) :
    after.versions = db.versions := by
  cases applies
  rfl

/-- Tables that are there keep all their rows. -/
structure Keeps (before after : Database) : Prop where
  records : ∀ records, before.records = some records → after.records = some records
  rights : ∀ rights, before.rights = some rights → after.rights = some rights

theorem Applies.keeps {db after : Database} {version : Nat} (applies : Applies db version after) : Keeps db after := by
  cases applies
  exact ⟨nofun, nofun⟩

theorem createRecords_cases (db : Database) :
    (db.records = none ∧ db.createRecords = .ok ((), { db with records := some SortedMap.empty })) ∨
      (db.records ≠ none ∧ db.createRecords = .error .database) := by
  rcases db with ⟨versions, records, rights⟩
  cases records with
  | none => exact .inl ⟨rfl, rfl⟩
  | some => exact .inr ⟨nofun, rfl⟩

theorem createRights_cases (db : Database) :
    (db.rights = none ∧ db.createRights = .ok ((), { db with rights := some InsertionMap.empty })) ∨
      (db.rights ≠ none ∧ db.createRights = .error .database) := by
  rcases db with ⟨versions, records, rights⟩
  cases rights with
  | none => exact .inl ⟨rfl, rfl⟩
  | some => exact .inr ⟨nofun, rfl⟩

theorem recordVersion_cases (db : Database) (version : Int) :
    (∃ versions, db.versions = some versions ∧ version ∉ versions ∧
      db.recordVersion version = .ok { db with versions := some (versions ++ [version]) }) ∨
      ((db.versions = none ∨ version ∈ db.recorded) ∧ db.recordVersion version = .error .database) := by
  rcases db with ⟨versions, records, rights⟩
  cases versions with
  | none => exact .inr ⟨.inl rfl, rfl⟩
  | some versions =>
      by_cases seen : version ∈ versions
      · exact .inr ⟨.inr seen, by simp [recordVersion, table, seen, bind, Except.bind]⟩
      · exact .inl ⟨versions, rfl, seen, by simp [recordVersion, table, seen, bind, Except.bind, pure, Except.pure]⟩

theorem applyVersion_meets (db : Database) (version : Nat) :
    (applyVersion version).Meets db (fun _ after => Applies db version after) (Blocked db version) := by
  by_cases known : version = 1
  · subst known
    rcases db.createRecords_cases with ⟨noRecords, created⟩ | ⟨there, failed⟩
    · refine .statement_bind created ?_
      rcases createRights_cases { db with records := some SortedMap.empty } with ⟨noRights, created⟩ | ⟨there, failed⟩
      · refine .statement_bind created ?_
        rcases db with ⟨versions, records, rights⟩
        cases noRecords
        cases noRights
        exact .statement rfl .tables
      · exact .failing_bind failed (.occupied (.inr there))
    · exact .failing_bind failed (.occupied (.inl there))
  · rw [applyVersion]
    · exact Script.meets_throw (.unknown known)
    · exact known

theorem applyAll_meets (db : Database) (versions : List Nat) :
    (applyAll versions).Meets db (fun _ after => Applied db versions after) (Stops db versions) := by
  induction versions generalizing db with
  | nil => exact Script.meets_pure .nil
  | cons version later ih =>
      refine ((applyVersion_meets db version).mono (fun _ _ => id) fun _ => .here).bind ?_
      intro _ between applies
      rcases between.recordVersion_cases version with ⟨versions, listed, new, written⟩ | ⟨untold | seen, refused⟩
      · refine .statement_bind (by rw [written]; rfl) ?_
        exact (ih _).mono (fun _ _ => .next applies listed new) fun _ => .later applies
      · rw [applies.versions] at untold
        exact .failing_bind (by rw [refused]; rfl) (.here (.untold untold))
      · rw [Database.recorded, applies.versions] at seen
        exact .failing_bind (by rw [refused]; rfl) (.here (.repeated seen))

/-- Why a file cannot be brought up to the supported version. -/
inductive Fault (db : Database) : StoreError → Prop where
  | outOfRange (out : db.newest < 0 ∨ 0x100000000 ≤ db.newest) : Fault db .database
  | newer (newer : supportedVersion < db.newest) (fits : db.newest < 0x100000000) :
      Fault db (.migration ("database schema version " ++ toString db.newest.toNat ++
        " is newer than supported version " ++ toString supportedVersion))
  | occupied (due : 1 ∈ db.pending) (there : db.records ≠ none ∨ db.rights ≠ none) : Fault db .database

section Versions

variable {db after : Database} {version : Nat} {added : List Nat} {e : StoreError}

theorem le_newest {version : Int} (seen : version ∈ db.recorded) : version ≤ db.newest := by
  rw [newest]
  cases greatest : db.recorded.max? with
  | none =>
      rw [List.max?_eq_none_iff.mp greatest] at seen
      cases seen
  | some top => exact (List.max?_eq_some_iff.mp greatest).2 version seen

theorem newest_eq_iff {version : Int} (positive : 0 < version) :
    db.newest = version ↔ version ∈ db.recorded ∧ ∀ other ∈ db.recorded, other ≤ version := by
  rw [newest, ← List.max?_eq_some_iff]
  cases db.recorded.max? with
  | none =>
      simp only [Option.getD_none, reduceCtorEq, iff_false]
      omega
  | some top => simp

theorem mem_pending_iff (natural : 0 ≤ db.newest) :
    version ∈ db.pending ↔ db.newest < version ∧ version ≤ supportedVersion := by
  rw [pending, List.mem_range'_1]
  omega

theorem Applied.versions {recorded : List Int} (applied : Applied db added after)
    (listed : db.versions = some recorded) : after.versions = some (recorded ++ added.map Int.ofNat) := by
  induction applied generalizing recorded with
  | nil => simpa using listed
  | next applies found new rest ih =>
      rw [← applies.versions, found] at listed
      cases listed
      simpa using ih rfl

/-- Each version that was due is recorded just once, whatever was recorded before. -/
theorem count_pending (natural : 0 ≤ db.newest) (due : version ∈ db.pending) :
    (db.recorded ++ db.pending.map Int.ofNat).count (version : Int) = 1 := by
  have before : db.recorded.count (version : Int) = 0 := by
    rw [List.count_eq_zero]
    intro seen
    exact absurd (le_newest seen) (Int.not_le.mpr ((mem_pending_iff natural).mp due).1)
  have since : (db.pending.map Int.ofNat).count (Int.ofNat version) = 1 := by
    have once : db.pending.Nodup := List.nodup_range'
    rw [List.count_map_of_injective _ _ (fun _ _ => Int.ofNat.inj), List.count_eq_one_of_mem once due]
  rw [List.count_append, before]
  exact congrArg (0 + ·) since

theorem newest_of_recorded (natural : 0 ≤ db.newest) (known : db.newest ≤ supportedVersion)
    (recorded : after.versions = some (db.recorded ++ db.pending.map Int.ofNat)) :
    after.newest = supportedVersion := by
  rw [newest_eq_iff (by decide), Database.recorded, recorded, Option.getD_some]
  constructor
  · by_cases current : db.newest = supportedVersion
    · exact List.mem_append_left _ ((newest_eq_iff (by decide)).mp current).1
    · have due : supportedVersion ∈ db.pending := (mem_pending_iff natural).mpr ⟨by omega, Nat.le_refl _⟩
      exact List.mem_append_right _ (List.mem_map_of_mem due)
  · intro other member
    rcases List.mem_append.mp member with seen | added
    · exact Int.le_trans (le_newest seen) known
    · rcases List.mem_map.mp added with ⟨version, due, rfl⟩
      exact Int.ofNat_le.mpr ((mem_pending_iff natural).mp due).2

theorem Applied.keeps (applied : Applied db added after) : Keeps db after := by
  induction applied with
  | nil => exact ⟨fun _ => id, fun _ => id⟩
  | next applies listed new rest ih =>
      exact ⟨fun _ there => ih.records _ (applies.keeps.records _ there),
        fun _ there => ih.rights _ (applies.keeps.rights _ there)⟩

/-- There is only one version that can be applied, and it creates the tables. -/
theorem Applied.vacant (applied : Applied db added after) (due : 1 ∈ added) :
    db.records = none ∧ db.rights = none := by
  cases applied with
  | nil => cases due
  | next applies =>
      cases applies
      exact ⟨rfl, rfl⟩

theorem Fault.unique {other : StoreError} (fault : Fault db e) (fault' : Fault db other) : e = other := by
  cases fault with
  | outOfRange out =>
      cases fault' with
      | newer newer fits => omega
      | _ => rfl
  | newer newer fits =>
      cases fault' with
      | outOfRange out => omega
      | newer => rfl
      | occupied due there =>
          have above := (mem_pending_iff (by omega)).mp due
          omega
  | occupied due there =>
      cases fault' with
      | newer newer fits =>
          have above := (mem_pending_iff (by omega)).mp due
          omega
      | _ => rfl

theorem Applied.faultless (applied : Applied db.prepared db.pending after) (natural : 0 ≤ db.newest)
    (known : db.newest ≤ supportedVersion) : ¬ Fault db e := by
  intro fault
  cases fault with
  | outOfRange out =>
      change db.newest ≤ 1 at known
      omega
  | newer newer fits => omega
  | occupied due there =>
      rcases applied.vacant due with ⟨noRecords, noRights⟩
      rcases there with records | rights
      · exact records noRecords
      · exact rights noRights

theorem Stops.fault (stops : Stops db.prepared db.pending e) (natural : 0 ≤ db.newest)
    (known : db.newest ≤ supportedVersion) : Fault db e := by
  change db.newest ≤ 1 at known
  rcases Int.lt_or_eq_of_le known with old | current
  · have first : db.newest = 0 := by omega
    have due : db.pending = [1] := by
      rw [pending, first]
      rfl
    rw [due] at stops
    cases stops with
    | later applies stops => cases stops
    | here blocked =>
        cases blocked with
        | unknown other => exact absurd rfl other
        | occupied there => exact .occupied (due ▸ List.mem_singleton_self 1) there
        | untold missing => cases missing
        | repeated seen => exact absurd (le_newest seen) (Int.not_le.mpr old)
  · have done : db.pending = [] := by
      rw [pending, current]
      rfl
    rw [done] at stops
    cases stops

theorem upgrade_meets (db : Database) :
    upgrade.Meets db.prepared
      (fun _ after => (0 ≤ db.newest ∧ db.newest ≤ supportedVersion) ∧ Applied db.prepared db.pending after)
      (Fault db) := by
  by_cases fits : 0 ≤ db.newest ∧ db.newest < 0x100000000
  · have read : db.prepared.currentVersion = .ok db.newest.toNat := if_pos fits
    refine .statement_bind (by rw [read]; rfl) ?_
    by_cases newer : supportedVersion < db.newest.toNat
    · rw [if_pos newer]
      exact Script.meets_throw (.newer (by omega) fits.2)
    · rw [if_neg newer]
      have known : db.newest ≤ supportedVersion := by omega
      exact (applyAll_meets db.prepared db.pending).mono (fun _ _ applied => ⟨⟨fits.1, known⟩, applied⟩)
        fun _ stops => stops.fault fits.1 known
  · have unread : db.prepared.currentVersion = .error .database := if_neg fits
    exact .failing_bind (by rw [unread]; rfl) (.outOfRange (by omega))

theorem opening_cases (db : Database) (refusals : List Bool) :
    (∃ after, db.opening refusals = (.ok (), after) ∧ (0 ≤ db.newest ∧ db.newest ≤ supportedVersion) ∧
      Applied db.prepared db.pending after) ∨
      ∃ e after, db.opening refusals = (.error e, after) ∧ (after = db ∨ after = db.prepared) ∧
        (Script.Refused refusals e ∨ Fault db e) := by
  rw [opening, migration, Script.bind_run]
  have prepares :
      (true ∈ refusals ∧ Script.statement prepareVersions ⟨db, none, refusals⟩ =
        (.error .database, ⟨db, none, refusals.tail⟩)) ∨
        Script.statement prepareVersions ⟨db, none, refusals⟩ = (.ok (), ⟨db.prepared, none, refusals.tail⟩) :=
    Script.attempt_cases _ ⟨db, none, refusals⟩
  rcases prepares with ⟨refused, ran⟩ | ran
  · rw [ran]
    exact .inr ⟨_, _, rfl, .inl rfl, .inl ⟨rfl, refused⟩⟩
  · rw [ran]
    dsimp only
    have commits := Script.transaction_commits (upgrade_meets db) refusals.tail
    generalize Script.transaction upgrade ⟨db.prepared, none, refusals.tail⟩ = result at commits ⊢
    cases commits with
    | committed holds => exact .inl ⟨_, rfl, holds⟩
    | rolledBack why =>
        refine .inr ⟨_, _, rfl, .inr rfl, why.imp_left ?_⟩
        exact fun refused => refused.mono fun _ => List.mem_of_mem_tail

end Versions

end Database

end MailboxAccess
