import MailboxAccess.Proofs.Editor.Failures
import MailboxAccess.Proofs.Retries
import MailboxAccess.Proofs.Store.Elsewhere

/-!
What the failure of an update means to those who share the store with it: either nothing that it did has had any
effect, or its record was stored in full and only rows may be missing (`update_failure`).
-/
namespace MailboxAccess

namespace Exchange

def Unnoticed : Exchange → Prop
  | ⟨.store request, .ok reply⟩ => request.Looks reply
  | ⟨.notify _ _, _⟩ => False
  | _ => True

theorem Unnoticed.untold {x : Exchange} (unnoticed : x.Unnoticed) (listener : Nat) (commit : Commit) :
    x.call ≠ .notify listener commit := by
  intro told
  rcases x with ⟨c, answer⟩
  cases told
  exact unnoticed

theorem won_of_void {x : Exchange} (void : x.Void) : x.won? = none := by
  rcases x with ⟨c, answer⟩
  cases c with
  | store request =>
      cases answer with
      | ok reply => cases void
      | error e => exact Editor.won_of_failed
  | hook => rfl
  | notify => rfl

end Exchange

namespace Store

variable {store next : Store} {mailbox : MailboxId} {request : Request} {reply : request.Reply}

def SameRecords (store next : Store) : Prop := ∀ place, next.look (.read place) = store.look (.read place)

structure Takes (mailbox : MailboxId) (record : Record) (store next : Store) : Prop where
  record : next.look (.read mailbox) = .ok (some record)
  records : ∀ place, place ≠ mailbox → next.look (.read place) = store.look (.read place)
  rows : ∀ place, next.look (.listMailbox place) = store.look (.listMailbox place)
  row : ∀ key place, next.look (.retrieve key place) = store.look (.retrieve key place)

theorem sameRecords_of_execute (done : store.execute request = .ok (reply, next))
    (quiet : ∀ place, request.stored? place reply = none) : SameRecords store next := by
  intro place
  cases store with
  | memory memory =>
      rcases execute_memory done with ⟨rfl, rfl⟩
      have view : ((memory.execute request).2.viewOf place).record = (memory.viewOf place).record := by
        rw [memory.viewOf_execute, View.after, quiet place, Option.none_or]
      exact congrArg Except.ok view
  | database db =>
      rcases execute_database done with ⟨tables, rfl, executed⟩
      rw [look_database, look_database, Database.read_eq, Database.read_eq]
      cases Database.executes_of_execute executed with
      | @inserted _ other => exact absurd (quiet other) (by simp [Request.stored?])
      | @swapped _ other => exact absurd (quiet other) (by simp [Request.stored?])
      | @overwritten _ other => exact absurd (quiet other) (by simp [Request.stored?])
      | _ => rfl

theorem rights_of_stored {memory : Memory} {record : Record}
    (stored : request.stored? mailbox (memory.execute request).1 = some record) :
    (memory.execute request).2.rights = memory.rights := by
  cases request with
  | insert place acl =>
      simp only [Memory.execute]
      split <;> rfl
  | swap place acl new expected =>
      simp only [Memory.execute]
      split
      · split <;> rfl
      · rfl
  | overwrite place acl => rfl
  | _ => cases stored

theorem read_put {db : Database} {records : SortedMap MailboxId (Bytes × Int64)} {version : UInt64} {column : Int64}
    (fits : Database.toColumn version = .ok column) (acl : Bytes) :
    (database { db with records := some (records.insert mailbox (acl, column)) }).look (.read mailbox) =
      .ok (some ⟨acl, version⟩) := by
  have there : compare mailbox mailbox = .eq := Std.ReflCmp.compare_self
  rw [look_database, Database.read_eq, Option.map_some, SortedMap.get?_insert, if_pos there]
  simp only [Database.table, bind, Except.bind, pure, Except.pure, Database.ofColumn_toColumn fits]
  rfl

theorem about_of_stored {record : Record} (stored : request.stored? mailbox reply = some record) :
    request.mailbox? = some mailbox := by
  cases request with
  | insert | swap | overwrite =>
      simp only [Request.stored?] at stored
      split at stored
      · next here => exact congrArg some here
      · cases stored
  | _ => cases stored

theorem rights_of_executed {db tables : Database} {record : Record} (executes : db.Executes request reply tables)
    (stored : request.stored? mailbox reply = some record) : tables.rights = db.rights := by
  cases executes with
  | upserted | deleted => cases stored
  | _ => rfl

theorem read_of_executed {db tables : Database} {record : Record} (executes : db.Executes request reply tables)
    (stored : request.stored? mailbox reply = some record) :
    (database tables).look (.read mailbox) = .ok (some record) := by
  have about := about_of_stored stored
  cases executes with
  | inserted recorded missing fits =>
      cases about
      rw [read_put fits, ← stored]
      exact congrArg Except.ok (if_pos rfl).symm
  | swapped recorded same fits =>
      cases about
      rw [read_put fits, ← stored]
      exact congrArg Except.ok (if_pos rfl).symm
  | overwritten recorded fits =>
      cases about
      rw [read_put fits, ← stored]
      exact congrArg Except.ok (if_pos rfl).symm
  | present | outdated =>
      simp only [Request.stored?, cond_false, ite_self] at stored
      cases stored
  | _ => cases stored

theorem takes_of_execute {record : Record} (done : store.execute request = .ok (reply, next))
    (stored : request.stored? mailbox reply = some record) : Takes mailbox record store next := by
  have elsewhere (place : MailboxId) (apart : place ≠ mailbox) :
      next.look (.read place) = store.look (.read place) := by
    apply Alike.record
    apply alike_of_execute done
    rw [about_of_stored stored]
    exact fun same => apart (Option.some.inj same).symm
  cases store with
  | memory memory =>
      rcases execute_memory done with ⟨rfl, rfl⟩
      have rights := rights_of_stored stored
      have view : ((memory.execute request).2.viewOf mailbox).record = some record := by
        rw [memory.viewOf_execute, View.after, stored, Option.some_or]
      refine ⟨congrArg Except.ok view, elsewhere, ?_, ?_⟩
      · intro place
        change Except.ok ((memory.execute request).2.rowsIn place) = Except.ok (memory.rowsIn place)
        rw [Memory.rowsIn, rights, Memory.rowsIn]
      · intro key place
        change Except.ok (((memory.execute request).2.rights.get? key).bind _) =
          Except.ok ((memory.rights.get? key).bind _)
        rw [rights]
  | database db =>
      rcases execute_database done with ⟨tables, rfl, executed⟩
      have executes := Database.executes_of_execute executed
      have rights := rights_of_executed executes stored
      refine ⟨read_of_executed executes stored, elsewhere, ?_, ?_⟩
      · intro place
        rw [look_database, look_database, Database.listMailbox_eq, Database.listMailbox_eq, rights]
      · intro key place
        rw [look_database, look_database, Database.retrieve_eq, Database.retrieve_eq, rights]

end Store

theorem Turn.store_eq_of_unnoticed (turn : Turn) (c : Call) (store : Store)
    (unnoticed : Exchange.Unnoticed ⟨c, (turn.answer c store).1⟩) : (turn.answer c store).2 = store := by
  rcases turn.answer_cases c store with ⟨same, -⟩ | ⟨request, reply, done, exchange⟩
  · exact same
  · rw [exchange] at unnoticed
    exact Store.eq_of_looks done unnoticed

theorem Turn.sameRecords_of_upkeep (turn : Turn) {c : Call} (store : Store) {mailbox : MailboxId}
    (upkeep : Upkeep mailbox c) : store.SameRecords (turn.answer c store).2 := by
  rcases turn.answer_cases c store with ⟨same, -⟩ | ⟨request, reply, done, exchange⟩
  · rw [same]
    exact fun place => rfl
  · cases congrArg Exchange.call exchange
    apply Store.sameRecords_of_execute done
    intro place
    have quiet : (⟨.store request, .ok reply⟩ : Exchange).stored? place = none ∧
        (⟨.store request, .ok reply⟩ : Exchange).won? = none := upkeep.quiet
    exact quiet.1

namespace Race

variable {α : Type} {race : Race α} {turns : List Turn} {actor : Nat}

theorem run_append (race : Race α) (front back : List Turn) :
    race.run (front ++ back) =
      ((race.run front).1 ++ ((race.run front).2.run back).1, ((race.run front).2.run back).2) := by
  induction front generalizing race with
  | nil => rfl
  | cons turn front ih =>
      simp only [List.cons_append, run]
      cases race.step turn with
      | none => exact ih race
      | some stepped => simp only [ih stepped.2, List.cons_append]

theorem run_concat_cases (race : Race α) (front : List Turn) (turn : Turn) :
    race.run (front ++ [turn]) = race.run front ∨
      ∃ c, (race.run (front ++ [turn])).1 =
          (race.run front).1 ++ [⟨turn.actor, c, (turn.answer c (race.run front).2.store).1⟩] ∧
        (race.run (front ++ [turn])).2.store = (turn.answer c (race.run front).2.store).2 := by
  rw [run_append]
  cases stepped : (race.run front).2.step turn with
  | none =>
      left
      simp only [run, stepped, List.append_nil]
  | some result =>
      right
      rcases step_cases stepped with ⟨c, resume, -, happened, next⟩
      refine ⟨c, ?_, ?_⟩
      · simp only [run, stepped, happened]
      · simp only [run, stepped, next]

def Keeps (like : Store → Store → Prop) (actor : Nat) (turns : List Turn) (race : Race α) : Prop :=
  ∀ front turn back, turns = front ++ turn :: back → turn.actor = actor →
    like (race.run front).2.store (race.run (front ++ [turn])).2.store

theorem keeps_of_own {like : Store → Store → Prop} {good : Exchange → Prop}
    (all : ∀ x ∈ own actor (race.run turns).1, good x) (self : ∀ store, like store store)
    (answered : ∀ (turn : Turn) c store, good ⟨c, (turn.answer c store).1⟩ → like store (turn.answer c store).2) :
    race.Keeps like actor turns := by
  intro front turn back split mine
  rcases race.run_concat_cases front turn with same | ⟨c, happened, after⟩
  · rw [same]
    exact self _
  · rw [after]
    apply answered
    apply all
    rw [split, List.append_cons, run_append, happened, mine, own_append, own_concat_self]
    simp

theorem keeps_of_unnoticed (unnoticed : ∀ x ∈ own actor (race.run turns).1, x.Unnoticed) :
    race.Keeps Eq actor turns := by
  refine keeps_of_own unnoticed (fun _ => rfl) ?_
  intro turn c store quiet
  exact (turn.store_eq_of_unnoticed c store quiet).symm

/-- After these turns and what happened on them, this happens on the turn. -/
structure Brings (race : Race α) (front : List Turn) (turn : Turn) (earlier : List Happening) (happening : Happening)
    (c : Call) : Prop where
  before : (race.run front).1 = earlier
  now : (race.run (front ++ [turn])).1 = earlier ++ [happening]
  here : happening = ⟨turn.actor, c, (turn.answer c (race.run front).2.store).1⟩
  store : (race.run (front ++ [turn])).2.store = (turn.answer c (race.run front).2.store).2

theorem exists_turn {earlier later : List Happening} {happening : Happening}
    (split : (race.run turns).1 = earlier ++ happening :: later) :
    ∃ front turn back c, turns = front ++ turn :: back ∧ race.Brings front turn earlier happening c := by
  induction turns using List.reverseRecOn generalizing later with
  | nil => cases earlier <;> cases split
  | append_singleton turns turn ih =>
      have sooner {later : List Happening} (split : (race.run turns).1 = earlier ++ happening :: later) :
          ∃ front turn' back c, turns ++ [turn] = front ++ turn' :: back ∧
            race.Brings front turn' earlier happening c := by
        rcases ih split with ⟨front, turn', back, c, rfl, brings⟩
        exact ⟨front, turn', back ++ [turn], c, by simp, brings⟩
      rcases race.run_concat_cases turns turn with same | ⟨c, happened, after⟩
      · rw [same] at split
        exact sooner split
      · rw [happened] at split
        rcases split_concat split with ⟨before, here, rfl⟩ | ⟨between, -, before⟩
        · exact ⟨turns, turn, [], c, rfl, before, by rw [happened, before, here], here.symm, after⟩
        · exact sooner before

theorem history_after {front : List Turn} {turn : Turn} {back : List Turn} {earlier later : List Happening}
    {happening : Happening} (split : (race.run (front ++ turn :: back)).1 = earlier ++ happening :: later)
    (now : (race.run (front ++ [turn])).1 = earlier ++ [happening]) :
    ((race.run (front ++ [turn])).2.run back).1 = later := by
  rw [List.append_cons, run_append, now, List.append_assoc] at split
  exact List.cons.inj (List.append_cancel_left split) |>.2

end Race

section Update

variable {coder : Coder} {editor : Editor} {mailbox : MailboxId} {command : Command} {past : List Exchange}

theorem Editor.unnoticed_opening {attempt : Nat} {seen : Option Record} :
    ∀ x ∈ editor.opening mailbox attempt seen, x.Unnoticed := by
  intro x member
  rcases List.mem_cons.mp member with rfl | asked
  · exact trivial
  · split at asked
    · rw [List.mem_singleton.mp asked]
      exact trivial
    · cases asked

namespace Coder

variable {lost : Nat}

theorem unnoticed_of_refused {bytes : Bytes} {seen : Option Record} {x : Exchange}
    (call : x.call = .store (Editor.replacing mailbox bytes seen)) (refused : x.won? = some false) : x.Unnoticed := by
  rcases x with ⟨c, answer⟩
  dsimp only at call
  subst call
  cases seen with
  | none =>
      cases answer with
      | error e => cases refused
      | ok created => exact Option.some.inj refused
  | some record =>
      cases answer with
      | error e => cases refused
      | ok swapped => exact Option.some.inj refused

theorem Beaten.unnoticed (beaten : coder.Beaten editor mailbox command lost past) : ∀ x ∈ past, x.Unnoticed := by
  induction beaten with
  | fresh => exact List.forall_mem_nil _
  | again beaten encoded call refused ih =>
      refine List.forall_mem_append.mpr ⟨List.forall_mem_append.mpr ⟨ih, Editor.unnoticed_opening⟩, ?_⟩
      exact List.forall_mem_singleton.mpr (unnoticed_of_refused call refused)

theorem Barred.unnoticed {e : AccessError} (barred : coder.Barred editor mailbox command past e) :
    ∀ x ∈ past, x.Unnoticed := by
  cases barred with
  | exhausted beaten => exact beaten.unnoticed
  | unread beaten left =>
      exact List.forall_mem_append.mpr ⟨beaten.unnoticed, List.forall_mem_singleton.mpr trivial⟩
  | unencoded beaten left failed =>
      exact List.forall_mem_append.mpr ⟨beaten.unnoticed, List.forall_mem_singleton.mpr trivial⟩
  | refused beaten left hooked =>
      refine List.forall_mem_append.mpr ⟨beaten.unnoticed, ?_⟩
      exact List.forall_mem_cons.mpr ⟨trivial, List.forall_mem_singleton.mpr trivial⟩
  | unwritten beaten left encoded =>
      refine List.forall_mem_append.mpr
        ⟨List.forall_mem_append.mpr ⟨beaten.unnoticed, Editor.unnoticed_opening⟩, ?_⟩
      exact List.forall_mem_singleton.mpr trivial

theorem Won.unnoticed {seen : Option Record} {bytes : Bytes} {before : List Exchange} {x : Exchange}
    (won : coder.Won editor mailbox command seen bytes before x) : ∀ y ∈ before, y.Unnoticed := by
  rcases won.opened with ⟨lost, earlier, beaten, left, rfl⟩
  exact List.forall_mem_append.mpr ⟨beaten.unnoticed, Editor.unnoticed_opening⟩

def hooksAsked (past : List Exchange) : List Nat :=
  past.filterMap fun x =>
    match x.call with
    | .hook _ attempt => some attempt
    | _ => none

theorem hooksAsked_append (earlier later : List Exchange) :
    hooksAsked (earlier ++ later) = hooksAsked earlier ++ hooksAsked later := List.filterMap_append

theorem Beaten.hooksAsked_eq (beaten : coder.Beaten editor mailbox command lost past) :
    hooksAsked past = if editor.hooked then List.range' 1 lost else [] := by
  induction beaten with
  | fresh => simp [hooksAsked]
  | @again lost past seen bytes x beaten encoded call refused ih =>
      have silent : hooksAsked [x] = [] := by simp [hooksAsked, call]
      rw [hooksAsked_append, hooksAsked_append, ih, silent, List.append_nil, Editor.opening]
      by_cases hooked : editor.hooked = true
      · rw [if_pos hooked, if_pos hooked, if_pos hooked, List.range'_1_concat, Nat.add_comm 1 lost]
        rfl
      · rw [if_neg hooked, if_neg hooked, if_neg hooked]
        rfl

/-- How an update has failed in a race, with what its turns have made of the store. -/
inductive Failed (coder : Coder) (editor : Editor) (mailbox : MailboxId) (command : Command) (race : Race Outcome)
    (turns : List Turn) (actor : Nat) (past : List Exchange) (e : AccessError) : Prop where
  /-- Nothing that it did has had any effect. -/
  | barred (barred : coder.Barred editor mailbox command past e) (unnoticed : ∀ x ∈ past, x.Unnoticed)
      (inert : race.Keeps Eq actor turns) : Failed coder editor mailbox command race turns actor past e
  /-- One of its turns has put the edited list in the place of the record that it had read, at the next version.
  Before that it has changed nothing, and after that no record. The next version is one more unless it wraps around. -/
  | unfinished {seen : Option Record} {bytes : Bytes} {before : List Exchange} {x : Exchange} {after : List Exchange}
      {front : List Turn} {turn : Turn} {back : List Turn} (split : past = before ++ x :: after)
      (unfinished : coder.Unfinished editor mailbox command seen bytes before x after e)
      (whole : turns = front ++ turn :: back) (mine : turn.actor = actor) (earlier : race.Keeps Eq actor front)
      (takes : Store.Takes mailbox ⟨bytes, Editor.nextVersion seen⟩ (race.run front).2.store
        (race.run (front ++ [turn])).2.store)
      (later : (race.run (front ++ [turn])).2.Keeps Store.SameRecords actor back)
      (version : ∀ record, seen = some record → record.version.toNat + 1 < 2 ^ 64 →
        (Editor.nextVersion seen).toNat = record.version.toNat + 1)
      (untold : ∀ y ∈ past, ∀ listener commit, y.call ≠ .notify listener commit) :
      Failed coder editor mailbox command race turns actor past e

variable {race last : Race Outcome} {turns : List Turn} {history : List Happening} {actor : Nat}

theorem meets_of_run (present : race.plans[actor]? = some (coder.task editor mailbox command))
    (ran : race.run turns = (history, last)) :
    ∃ rest, last.plans[actor]? = some rest ∧ rest.Meets (fun _ => True) (fun past _ => editor.Spares past)
      (coder.Ends editor mailbox command) (own actor history) := by
  rcases (Race.reaches_of_run ran).leads present with ⟨rest, found, led⟩
  exact ⟨rest, found, (led.meets task_fails fun _ _ => trivial).2⟩

theorem ends_of_run (present : race.plans[actor]? = some (coder.task editor mailbox command))
    (ran : race.run turns = (history, last)) {result : Except AccessError Outcome}
    (done : last.result? actor = some result) : coder.Ends editor mailbox command (own actor history) result := by
  rcases meets_of_run present ran with ⟨rest, found, meets⟩
  rw [Race.result_eq_some_iff, found] at done
  cases done
  exact meets

theorem result_of_beaten (present : race.plans[actor]? = some (coder.task editor mailbox command))
    (ran : race.run turns = (history, last))
    (beaten : coder.Beaten editor mailbox command editor.attempts (own actor history)) :
    last.result? actor = some (.error (.retriesExhausted mailbox editor.attempts)) := by
  have spent : ¬ editor.Spares (own actor history) := by
    rw [Editor.Spares, beaten.losses_eq]
    exact Nat.lt_irrefl _
  rcases meets_of_run present ran with ⟨rest, found, meets⟩
  cases rest with
  | call c next => exact absurd (meets (Store.answer c last.store).1 trivial).1 spent
  | done result =>
      rcases Ends.exhausted_or_spares meets with ⟨-, same⟩ | spares
      · rw [Race.result_eq_some_iff, found, same]
      · exact absurd spares spent

theorem failed_of_unfinished {seen : Option Record} {bytes : Bytes} {before : List Exchange} {x : Exchange}
    {after : List Exchange} {e : AccessError} (split : own actor (race.run turns).1 = before ++ x :: after)
    (unfinished : coder.Unfinished editor mailbox command seen bytes before x after e) :
    coder.Failed editor mailbox command race turns actor (own actor (race.run turns).1) e := by
  rcases exists_of_own split with ⟨earlier, later, whole, rfl, rfl⟩
  rcases Race.exists_turn whole with ⟨front, turn, back, c, rfl, rfl, now, here, store⟩
  have rest := Race.history_after whole now
  cases here
  have stored := Editor.stored_of_won unfinished.call unfinished.won
  refine .unfinished split unfinished rfl rfl (Race.keeps_of_unnoticed unfinished.toWon.unnoticed) ?_ ?_ ?_ ?_
  · rcases turn.answer_cases c (race.run front).2.store with ⟨-, void⟩ | ⟨request, reply, done, exchange⟩
    · have lost := unfinished.won
      rw [Exchange.won_of_void void] at lost
      cases lost
    · rw [store]
      rw [exchange] at stored
      exact Store.takes_of_execute done stored
  · rw [← rest] at unfinished
    refine Race.keeps_of_own unfinished.upkeep (fun _ _ => rfl) ?_
    intro turn c store upkeep
    exact turn.sameRecords_of_upkeep store upkeep
  · intro record same small
    rw [same, Editor.nextVersion, UInt64.toNat_add]
    exact Nat.mod_eq_of_lt small
  · intro y member listener commit
    rw [split] at member
    rcases List.mem_append.mp member with sooner | later
    · exact (unfinished.toWon.unnoticed y sooner).untold listener commit
    · rcases List.mem_cons.mp later with rfl | after
      · rw [unfinished.call]
        exact nofun
      · intro told
        have upkeep := unfinished.upkeep y after
        rw [told] at upkeep
        cases upkeep

theorem failed_of_run (present : race.plans[actor]? = some (coder.task editor mailbox command))
    (ran : race.run turns = (history, last)) {e : AccessError} (done : last.result? actor = some (.error e)) :
    coder.Failed editor mailbox command race turns actor (own actor history) e := by
  have same : (race.run turns).1 = history := congrArg Prod.fst ran
  rw [← same]
  cases ends_of_run present ran done with
  | barred barred =>
      rw [← same] at barred
      exact .barred barred barred.unnoticed (Race.keeps_of_unnoticed barred.unnoticed)
  | unfinished split unfinished =>
      rw [← same] at split
      exact failed_of_unfinished split unfinished

/-- Errors that leave no trace of the update. A request for the record that fails is one of an attempt if no attempt
was won before. -/
inductive Traceless (mailbox : MailboxId) (past : List Exchange) : AccessError → Prop where
  | exhausted (place : MailboxId) (attempts : Nat) : Traceless mailbox past (.retriesExhausted place attempts)
  | refused {e : AccessError} (refused : Refused past e) : Traceless mailbox past e
  | unencoded (e : FormatError) : Traceless mailbox past (.format e)
  | unread {e : AccessError} (lost : ∀ x ∈ past, x.won? ≠ some true) : Traceless mailbox past e
  | unwritten {front : List Exchange} {bytes : Bytes} {seen : Option Record} {e : StoreError}
      (split : past = front ++ [⟨.store (Editor.replacing mailbox bytes seen), .error e⟩]) :
      Traceless mailbox past (.store e)

theorem not_upkeep_of_replacing {bytes : Bytes} {seen : Option Record} :
    ¬ Upkeep mailbox (.store (Editor.replacing mailbox bytes seen)) := by
  intro upkeep
  cases seen with
  | none =>
      cases upkeep with
      | rows rowwise => cases rowwise
  | some record =>
      cases upkeep with
      | rows rowwise => cases rowwise

theorem Unfinished.not_traceless {seen : Option Record} {bytes : Bytes} {before : List Exchange} {x : Exchange}
    {after : List Exchange} {e : AccessError}
    (unfinished : coder.Unfinished editor mailbox command seen bytes before x after e) :
    ¬ Traceless mailbox (before ++ x :: after) e := by
  rcases unfinished.last with ⟨between, request, cause, rfl, rfl⟩
  have newest {front : List Exchange} {y : Exchange}
      (split : before ++ x :: (between ++ [⟨.store request, .error cause⟩]) = front ++ [y]) :
      y = ⟨.store request, .error cause⟩ := by
    rw [← List.cons_append, ← List.append_assoc] at split
    exact (List.cons.inj (List.append_inj' split rfl).2).1.symm
  intro traceless
  cases traceless with
  | refused refused =>
      rcases refused with ⟨front, place, attempt, split⟩
      cases newest split
  | unread lost => exact lost x (by simp) unfinished.won
  | unwritten split =>
      cases newest split
      exact not_upkeep_of_replacing (unfinished.upkeep _ List.mem_concat_self)

structure Accounted (coder : Coder) (editor : Editor) (mailbox : MailboxId) (command : Command) (race : Race Outcome)
    (turns : List Turn) (actor : Nat) (past : List Exchange) (result? : Option (Except AccessError Outcome)) :
    Prop where
  failed : ∀ e, result? = some (.error e) → coder.Failed editor mailbox command race turns actor past e
  traceless : ∀ e, result? = some (.error e) → Traceless mailbox past e →
    (∀ x ∈ past, x.Unnoticed) ∧ race.Keeps Eq actor turns
  /-- Unless a hook says so, retries are exhausted just in case all attempts were lost. -/
  exhausted_iff : ∀ place attempts, result? = some (.error (.retriesExhausted place attempts)) ∧
      ¬ Refused past (.retriesExhausted place attempts) ↔
    place = mailbox ∧ attempts = editor.attempts ∧ coder.Beaten editor mailbox command editor.attempts past
  /-- The hook was then asked once for each attempt. -/
  asked : coder.Beaten editor mailbox command editor.attempts past →
    hooksAsked past = if editor.hooked then List.range' 1 editor.attempts else []

theorem Beaten.not_refused (beaten : coder.Beaten editor mailbox command lost past) (e : AccessError) :
    ¬ Refused past e := by
  intro refused
  rcases refused with ⟨front, place, attempt, split⟩
  cases beaten with
  | fresh => cases front <;> cases split
  | again beaten encoded call lost =>
      rcases List.append_inj' split rfl with ⟨-, same⟩
      cases same
      cases lost

theorem Barred.exhausted_or_refused {place : MailboxId} {attempts : Nat}
    (barred : coder.Barred editor mailbox command past (.retriesExhausted place attempts)) :
    (place = mailbox ∧ attempts = editor.attempts ∧ coder.Beaten editor mailbox command editor.attempts past) ∨
      Refused past (.retriesExhausted place attempts) := by
  generalize told : AccessError.retriesExhausted place attempts = e at barred
  cases barred with
  | exhausted beaten =>
      cases told
      exact .inl ⟨rfl, rfl, beaten⟩
  | @refused lost past seen e beaten left hooked =>
      exact .inr ⟨past ++ [⟨.store (.read mailbox), .ok seen⟩], mailbox, lost + 1, by simp⟩
  | unread => cases told
  | unencoded => cases told
  | unwritten => cases told

/-- If an update fails, either nothing that it did has had any effect, or it has stored its list in full and a later
request for rows, or to see whether the record stands still, has failed; no listener is told. It holds for formats
of any kind, and those of an editor are among them. -/
theorem update_failure (present : race.plans[actor]? = some (coder.task editor mailbox command))
    (ran : race.run turns = (history, last)) :
    coder.Accounted editor mailbox command race turns actor (own actor history) (last.result? actor) ∧
      (ofCodec editor.codec).task editor mailbox command = (Task.update editor mailbox command).plan := by
  refine ⟨⟨fun e => failed_of_run present ran, ?_, ?_, Beaten.hooksAsked_eq⟩, task_ofCodec⟩
  · intro e done traceless
    cases failed_of_run present ran done with
    | barred barred unnoticed inert => exact ⟨unnoticed, inert⟩
    | unfinished split unfinished =>
        rw [split] at traceless
        exact absurd traceless unfinished.not_traceless
  · intro place attempts
    constructor
    · intro both
      rcases both with ⟨done, free⟩
      cases ends_of_run present ran done with
      | barred barred => exact barred.exhausted_or_refused.resolve_right free
      | unfinished split unfinished =>
          rcases unfinished.last with ⟨between, request, cause, -, raised⟩
          cases raised
    · intro facts
      rcases facts with ⟨rfl, rfl, beaten⟩
      exact ⟨result_of_beaten present ran beaten, beaten.not_refused _⟩

end Coder

end Update

def unluckyEditor : Editor := ⟨⟨2⟩, .json, true, 1⟩

def unluckyTasks : List Task :=
  [.update unluckyEditor sampleMailbox addReader, .update sampleEditor sampleMailbox giveOwner]

/-- The first attempt is lost to the other update, the second one stores the list, and then the row cannot be
written. -/
def unluckyTurns : List Turn :=
  [.act 0, .act 0, .act 1, .act 1, .act 0, .act 0, .act 0, .act 0, .fault 0 .database]

def unluckyRun : List Happening × Race Outcome := (Race.start Store.inMemory unluckyTasks).run unluckyTurns

theorem update_failure_of_unluckyRun :
    unluckyRun.2.result? 0 = some (.error (.store .database)) ∧
      (unluckyRun.2.store.view? sampleMailbox).map View.record =
        .ok (some ⟨Codec.json.encode ((Acl.empty.apply giveOwner).apply addReader), 1⟩) ∧
      Coder.hooksAsked (own 0 unluckyRun.1) = [1, 2] ∧
      (Coder.ofCodec .json).Failed unluckyEditor sampleMailbox addReader (Race.start Store.inMemory unluckyTasks)
        unluckyTurns 0 (own 0 unluckyRun.1) (.store .database) := by
  have done : unluckyRun.2.result? 0 = some (.error (.store .database)) := by decide +kernel
  have present : (Race.start Store.inMemory unluckyTasks).plans[0]? =
      some ((Coder.ofCodec .json).task unluckyEditor sampleMailbox addReader) :=
    congrArg some Coder.task_ofCodec.symm
  have ran : (Race.start Store.inMemory unluckyTasks).run unluckyTurns = (unluckyRun.1, unluckyRun.2) := by
    rw [unluckyRun]
  refine ⟨done, by decide +kernel, by decide +kernel, ?_⟩
  exact (Coder.update_failure present ran).1.failed _ done

end MailboxAccess
