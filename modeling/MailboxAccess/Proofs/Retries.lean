import MailboxAccess.Proofs.Attempts
import MailboxAccess.Proofs.Editor.Rounds

/-!
How many retries are enough. Every lost attempt is charged to a record that another task has stored while it
was under way (`Course.losses_le`), and so is every round that found the record moved on (`Course.rounds_le`).
No task stores twice, so whoever may try as often as there are tasks that write is never left without retries.
-/
namespace MailboxAccess

def overtakers (mailbox : MailboxId) (actor : Nat) (history : List Happening) : List Nat :=
  (committers mailbox history).filter fun other => other ≠ actor

/-- Since the task has read the record, right before trying to write it, another task has stored one. -/
structure Overtaken (mailbox : MailboxId) (actor : Nat) (before : List Happening) (seen : Option Record)
    (earlier between : List Happening) : Prop where
  read : before = earlier ++ ⟨actor, .store (.read mailbox), .ok seen⟩ :: between
  hooked : ∀ y ∈ own actor between, ∃ attempt, y.call = .hook mailbox attempt
  written : overtakers mailbox actor between ≠ []

def Refused (past : List Exchange) (e : AccessError) : Prop :=
  ∃ front place attempt, past = front ++ [⟨.hook place attempt, .error e⟩]

/-- Whoever knew this version and has seen another one each time since, has seen no more of them than there
were records stored, and fewer if there is yet another one now. -/
structure Paced (mailbox : MailboxId) (view : View) (actor : Nat) (version : UInt64)
    (earlier later : List Happening) : Prop where
  most : (sightings mailbox (own actor later)).length ≤ (storedRecords mailbox later).length
  fewer : (view.replay mailbox (earlier ++ later)).record.map Record.version ≠
      some ((sightings mailbox (own actor later)).getLast?.getD version) →
    (sightings mailbox (own actor later)).length < (storedRecords mailbox later).length

theorem overtakers_append (mailbox : MailboxId) (actor : Nat) (earlier later : List Happening) :
    overtakers mailbox actor (earlier ++ later) =
      overtakers mailbox actor earlier ++ overtakers mailbox actor later := by
  rw [overtakers, committers, List.filterMap_append, List.filter_append]
  rfl

theorem overtakers_eq_committers {mailbox : MailboxId} {actor : Nat} {history : List Happening}
    (idle : ∀ x ∈ own actor history, x.stored? mailbox = none) :
    overtakers mailbox actor history = committers mailbox history := by
  refine List.filter_eq_self.mpr ?_
  intro other member
  apply decide_eq_true
  intro same
  subst same
  rcases mem_committers_iff.mp member with ⟨x, record, within, stored⟩
  rw [idle x (mem_own_iff.mpr within)] at stored
  cases stored

theorem split_of_fresh {actor : Nat} {before during earlier between : List Happening} {x : Exchange}
    (fresh : own actor before = []) (split : before ++ during = earlier ++ ⟨actor, x⟩ :: between) :
    ∃ front, earlier = before ++ front ∧ during = front ++ ⟨actor, x⟩ :: between := by
  rcases List.append_eq_append_iff.mp split with ⟨front, same, rest⟩ | ⟨gap, same, rest⟩
  · exact ⟨front, same, rest⟩
  · cases gap with
    | nil =>
        rw [List.append_nil] at same
        subst same
        exact ⟨[], (List.append_nil _).symm, rest.symm⟩
    | cons head gap =>
        cases rest
        have member : x ∈ own actor before := mem_own_iff.mpr (by rw [same]; simp)
        rw [fresh] at member
        cases member

theorem length_le_countP {α : Type} {kind : α → Bool} {items : List α} {places : List Nat} (distinct : places.Nodup)
    (held : ∀ place ∈ places, ∃ item, items[place]? = some item ∧ kind item = true) :
    places.length ≤ items.countP kind := by
  have within : places ⊆ (items.zipIdx.filter fun entry => kind entry.1).map Prod.snd := by
    intro place member
    rcases held place member with ⟨item, present, holds⟩
    exact List.mem_map.mpr
      ⟨(item, place), List.mem_filter.mpr ⟨List.mk_mem_zipIdx_iff_getElem?.mpr present, holds⟩, rfl⟩
  calc
    places.length ≤ ((items.zipIdx.filter fun entry => kind entry.1).map Prod.snd).length :=
      (List.subperm_of_subset distinct within).length_le
    _ = items.zipIdx.countP (kind ∘ Prod.fst) := by
      rw [List.length_map, ← List.countP_eq_length_filter]
      rfl
    _ = items.countP kind := by rw [← List.countP_map, List.zipIdx_map_fst]

/-- While an attempt is under way no other attempt of its task is lost, and another task stores a record. -/
theorem Overtaken.charged {mailbox : MailboxId} {actor : Nat} {before during : List Happening} {seen : Option Record}
    {earlier between : List Happening}
    (overtaken : Overtaken mailbox actor (before ++ during) seen earlier between) (fresh : own actor before = []) :
    ∃ front rest, during = front ++ rest ∧ rest ≠ [] ∧ losses (own actor during) = losses (own actor front) ∧
      (overtakers mailbox actor front).length < (overtakers mailbox actor during).length := by
  rcases split_of_fresh fresh overtaken.read with ⟨front, -, rfl⟩
  refine ⟨front, _, rfl, List.cons_ne_nil _ _, ?_, ?_⟩
  · have waiting : losses (⟨.store (.read mailbox), .ok seen⟩ :: own actor between) = 0 := by
      refine List.countP_eq_zero.mpr ?_
      intro y member
      rcases List.mem_cons.mp member with rfl | later
      · exact nofun
      · rcases overtaken.hooked y later with ⟨attempt, hook⟩
        have silent : y.stored? mailbox = none ∧ y.won? = none := Exchange.silent_of_hook hook
        simp [silent.2]
    rw [own_append, own_cons_self, losses_append, waiting, Nat.add_zero]
  · have written := List.length_pos_iff.mpr overtaken.written
    rw [← List.singleton_append, overtakers_append, overtakers_append, List.length_append, List.length_append]
    omega

section Course

variable {tasks : List Task} {mailbox : MailboxId} {view : View} {history : List Happening} {actor : Nat}

theorem Course.writes_of_committer (course : Course tasks mailbox view history)
    (member : actor ∈ committers mailbox history) :
    ∃ task, tasks[actor]? = some task ∧ task.writes mailbox = true := by
  rcases mem_committers_iff.mp member with ⟨x, record, within, stored⟩
  rcases List.append_of_mem within with ⟨before, after, rfl⟩
  have stores := course.upTo.stores stored
  cases stores with
  | update present attempting call won current => exact ⟨_, present, decide_eq_true rfl⟩
  | reset present first => exact ⟨_, present, decide_eq_true rfl⟩

theorem Course.nodup_overtakers (course : Course tasks mailbox view history) (actor : Nat) :
    (overtakers mailbox actor history).Nodup := course.nodup_committers.filter _

theorem Course.overtakers_lt (course : Course tasks mailbox view history) {task : Task}
    (present : tasks[actor]? = some task) (writes : task.writes mailbox = true) :
    (overtakers mailbox actor history).length < tasks.countP (Task.writes mailbox) := by
  have apart : actor ∉ overtakers mailbox actor history := by simp [overtakers]
  refine length_le_countP (List.nodup_cons.mpr ⟨apart, course.nodup_overtakers actor⟩) ?_
  intro place member
  rcases List.mem_cons.mp member with rfl | other
  · exact ⟨task, present, writes⟩
  · exact course.writes_of_committer (List.mem_filter.mp other).1

theorem Course.overtaken {before : List Happening} {editor : Editor} {command : Command} {x : Exchange}
    (course : Course tasks mailbox view (before ++ [⟨actor, x⟩]))
    (present : tasks[actor]? = some (.update editor mailbox command)) (lost : x.won? = some false) :
    ∃ seen earlier between, Overtaken mailbox actor before seen earlier between := by
  rcases (course.moves_of_update present).attempting lost with ⟨seen, attempting, call⟩
  rcases course.attempt attempting call lost with ⟨earlier, between, attempt⟩
  refine ⟨seen, earlier, between, attempt.read, attempt.hooked, ?_⟩
  have silent : ∀ y ∈ own actor between, y.stored? mailbox = none := by
    intro y member
    rcases attempt.hooked y member with ⟨number, hook⟩
    exact (Exchange.silent_of_hook hook).1
  have written : storedRecords mailbox between ≠ [] := by
    intro quiet
    have kept := attempt.decided.mpr (.inl quiet)
    cases kept
  rwa [overtakers_eq_committers silent, ← List.length_pos_iff, length_committers, List.length_pos_iff]

/-- Each lost attempt is charged to a record that another task has stored between the attempt's read and its
write; these stretches of time do not overlap. -/
theorem Course.losses_le {before during : List Happening} {editor : Editor} {command : Command}
    (course : Course tasks mailbox view (before ++ during))
    (present : tasks[actor]? = some (.update editor mailbox command)) (fresh : own actor before = []) :
    losses (own actor during) ≤ (overtakers mailbox actor during).length := by
  induction length : during.length using Nat.strong_induction_on generalizing during with
  | _ n ih =>
      cases during using List.reverseRecOn with
      | nil => exact Nat.zero_le _
      | append_singleton during newest =>
          rw [← List.append_assoc] at course
          rw [List.length_append, List.length_singleton] at length
          rw [overtakers_append, List.length_append]
          rcases newest with ⟨other, x⟩
          by_cases lost : other = actor ∧ x.won? = some false
          · rcases lost with ⟨rfl, lost⟩
            rcases course.overtaken present lost with ⟨seen, earlier, between, overtaken⟩
            -- the induction goes on from the moment at which the attempt has read the record
            rcases overtaken.charged fresh with ⟨front, rest, rfl, more, same, charged⟩
            have shorter := List.length_pos_iff.mpr more
            rw [List.length_append] at length
            have asked := course.earlier
            rw [← List.append_assoc] at asked
            have soFar := ih front.length (by omega) asked.earlier rfl
            rw [own_concat_self, losses_concat_of_lost lost, same]
            omega
          · have soFar := ih during.length (by omega) course.earlier rfl
            have kept : losses (own actor (during ++ [⟨other, x⟩])) = losses (own actor during) := by
              by_cases same : other = actor
              · subst same
                rw [own_concat_self]
                exact losses_concat_of_ne fun no => lost ⟨rfl, no⟩
              · rw [own_concat_of_ne same]
            rw [kept]
            omega

theorem Paced.look {earlier later : List Happening} {version : UInt64} {x : Exchange} {record : Record}
    (paced : Paced mailbox view actor version earlier later)
    (course : Course tasks mailbox view (earlier ++ later ++ [⟨actor, x⟩])) (shown : x.shown? mailbox = some record)
    (moved : (sightings mailbox (own actor later)).getLast?.getD version ≠ record.version) :
    Paced mailbox view actor version earlier (later ++ [⟨actor, x⟩]) := by
  have there := course.shown_eq shown
  have most := paced.most
  constructor
  case most =>
    rw [own_concat_self, sightings_concat_of_some shown, storedRecords_concat, Happening.stored?, List.length_append,
      List.length_append, List.length_singleton]
    cases stored : x.stored? mailbox with
    | none =>
        rw [View.replay_concat, View.record_next, stored, Option.none_or] at there
        have fewer := paced.fewer fun same => moved (Option.some.inj (by rw [← same, there]; rfl))
        omega
    | some other =>
        rw [Option.toList_some, List.length_singleton]
        omega
  case fewer =>
    rw [← List.append_assoc, there, own_concat_self, sightings_concat_of_some shown, List.getLast?_concat]
    exact fun no => absurd rfl no

theorem Paced.wait {earlier later : List Happening} {version : UInt64} {newest : Happening}
    (paced : Paced mailbox view actor version earlier later)
    (silent : newest.actor = actor → newest.exchange.shown? mailbox = none) :
    Paced mailbox view actor version earlier (later ++ [newest]) := by
  have most := paced.most
  have same : sightings mailbox (own actor (later ++ [newest])) = sightings mailbox (own actor later) := by
    rcases newest with ⟨other, x⟩
    by_cases mine : other = actor
    · subst mine
      rw [own_concat_self]
      exact sightings_concat_of_none (silent rfl)
    · rw [own_concat_of_ne mine]
  constructor
  case most =>
    rw [same, storedRecords_concat, List.length_append]
    omega
  case fewer =>
    rw [same, storedRecords_concat, Happening.stored?, List.length_append, ← List.append_assoc, View.replay_concat,
      View.record_next]
    cases stored : newest.exchange.stored? mailbox with
    | none => exact paced.fewer
    | some record =>
        intro _
        rw [Option.toList_some, List.length_singleton]
        omega

theorem Course.paced {earlier later : List Happening} {version : UInt64}
    (course : Course tasks mailbox view (earlier ++ later))
    (current : (view.replay mailbox earlier).record.map Record.version = some version)
    (chain : (version :: sightings mailbox (own actor later)).IsChain (· ≠ ·)) :
    Paced mailbox view actor version earlier later := by
  induction later using List.reverseRecOn with
  | nil =>
      constructor
      case most => exact Nat.le_refl _
      case fewer =>
        rw [List.append_nil]
        exact fun moved => absurd current moved
  | append_singleton later newest ih =>
      rw [← List.append_assoc] at course
      rcases newest with ⟨other, x⟩
      rw [own_append, sightings_append, ← List.cons_append, List.isChain_append] at chain
      rcases chain with ⟨soFar, -, apart⟩
      have before := ih course.earlier soFar
      -- either the actor looks again, or at most another one stores a record
      by_cases looks : other = actor ∧ x.shown? mailbox ≠ none
      · rcases looks with ⟨rfl, looks⟩
        rcases Option.ne_none_iff_exists'.mp looks with ⟨record, shown⟩
        refine before.look course shown (apart _ ?_ _ ?_)
        · rw [List.getLast?_cons]
          rfl
        · simp [own, sightings, shown]
      · exact before.wait fun mine => by_contra fun shown => looks ⟨mine, shown⟩

/-- A task that has stored a record of the mailbox stores no other. -/
theorem Course.stores_no_more {before after : List Happening} {x y : Exchange}
    (course : Course tasks mailbox view (before ++ ⟨actor, x⟩ :: after)) (stored : x.stored? mailbox ≠ none)
    (member : ⟨actor, y⟩ ∈ after) : y.stored? mailbox = none := by
  by_contra again
  rcases Option.ne_none_iff_exists'.mp stored with ⟨record, first⟩
  rcases Option.ne_none_iff_exists'.mp again with ⟨other, second⟩
  have twice := course.nodup_committers
  rw [List.append_cons, committers, List.filterMap_append] at twice
  exact List.disjoint_of_nodup_append twice (mem_committers_iff.mpr ⟨x, record, by simp, first⟩)
    (mem_committers_iff.mpr ⟨y, other, member, second⟩)

theorem Course.stored_once {before after before' after' : List Happening} {x y : Exchange}
    (course : Course tasks mailbox view (before ++ ⟨actor, x⟩ :: after))
    (split : before ++ ⟨actor, x⟩ :: after = before' ++ ⟨actor, y⟩ :: after') (stored : x.stored? mailbox ≠ none)
    (again : y.stored? mailbox ≠ none) : before = before' ∧ after = after' := by
  rcases split_cases split with ⟨between, -, rfl⟩ | ⟨same, -, rest⟩ | ⟨between, -, rfl⟩
  · exact absurd (course.stores_no_more stored (by simp)) again
  · exact ⟨same, rest⟩
  · rw [split] at course
    exact absurd (course.stores_no_more again (by simp)) stored

/-- Each round that found the record moved on is charged to a record that another task has stored since the task
stored its own. -/
theorem Course.rounds_le_since {rounds : Nat} {known : UInt64} (course : Course tasks mailbox view history)
    (chases : Chases mailbox rounds known (own actor history)) :
    ∃ earlier x later, history = earlier ++ ⟨actor, x⟩ :: later ∧ x.stored? mailbox ≠ none ∧
      rounds ≤ (overtakers mailbox actor later).length := by
  rcases chases.since with ⟨_, x, _, record, split, stored, chain, rfl⟩
  rcases exists_of_own split with ⟨earlier, later, rfl, rfl, rfl⟩
  have kept : x.stored? mailbox ≠ none := Option.ne_none_iff_exists'.mpr ⟨record, stored⟩
  refine ⟨earlier, x, later, rfl, kept, ?_⟩
  have silent : ∀ y ∈ own actor later, y.stored? mailbox = none := fun y member =>
    course.stores_no_more kept (mem_own_iff.mp member)
  have there := course.upTo.shown_eq (Exchange.shown_of_stored stored)
  rw [List.append_cons] at course
  calc
    _ ≤ (storedRecords mailbox later).length := (course.paced (by rw [there]; rfl) chain).most
    _ = (overtakers mailbox actor later).length := by rw [overtakers_eq_committers silent, length_committers]

theorem Course.rounds_le {rounds : Nat} {known : UInt64} (course : Course tasks mailbox view history)
    (chases : Chases mailbox rounds known (own actor history)) :
    rounds ≤ (overtakers mailbox actor history).length := by
  rcases course.rounds_le_since chases with ⟨earlier, x, later, rfl, -, most⟩
  rw [List.append_cons, overtakers_append, List.length_append]
  omega

theorem Course.not_vanished (course : Course tasks mailbox view history) :
    ¬ Vanished mailbox (own actor history) := by
  intro ⟨before, after, split, x, member, stored⟩
  rcases exists_of_own split with ⟨earlier, later, rfl, rfl, -⟩
  have gone := course.seen_eq
  rw [View.record_replay, eq_comm, Option.or_eq_none_iff, latest_eq_none_iff] at gone
  exact stored (gone.1 _ (mem_own_iff.mp member))

end Course

theorem Raised.refused {past : List Exchange} {place : MailboxId} {attempts : Nat}
    (raised : Raised past (.retriesExhausted place attempts)) : Refused past (.retriesExhausted place attempts) := by
  rcases raised with ⟨front, ⟨c, answer⟩, rfl, same⟩
  cases c with
  | store request => cases answer <;> cases same
  | hook mailbox attempt =>
      cases answer with
      | ok reply => cases same
      | error e =>
          cases same
          exact ⟨front, mailbox, attempt, rfl⟩
  | notify => cases same

/-- How often updates and resets of a mailbox are overtaken, and when they may try often enough. -/
structure Sufficient (tasks : List Task) (mailbox : MailboxId) (history : List Happening) (last : Race Outcome) :
    Prop where
  /-- An attempt is lost only if another task has stored a record since the attempt has read it. -/
  lost : ∀ before actor x after editor command, history = before ++ ⟨actor, x⟩ :: after →
    tasks[actor]? = some (.update editor mailbox command) → x.won? = some false →
      ∃ seen earlier between, Overtaken mailbox actor before seen earlier between
  /-- An update that has run out of retries was overtaken by as many different tasks while it was under way. -/
  exhausted : ∀ actor editor command place attempts, tasks[actor]? = some (.update editor mailbox command) →
    last.result? actor = some (.error (.retriesExhausted place attempts)) →
      Refused (own actor history) (.retriesExhausted place attempts) ∨
        (place = mailbox ∧ attempts = editor.attempts ∧
          ∀ before during after, history = before ++ during ++ after → own actor before = [] → own actor after = [] →
            (overtakers mailbox actor during).Nodup ∧ editor.attempts ≤ (overtakers mailbox actor during).length)
  /-- If it may try as often as there are tasks that write, it does not run out of retries. -/
  spared : ∀ actor editor command place attempts, tasks[actor]? = some (.update editor mailbox command) →
    tasks.countP (Task.writes mailbox) ≤ editor.attempts →
      last.result? actor = some (.error (.retriesExhausted place attempts)) →
        Refused (own actor history) (.retriesExhausted place attempts)
  /-- Nor does it, or a reset, run out of rounds: it ends when it finds the record as it knows it. -/
  settled : ∀ actor task, tasks[actor]? = some task → task.writes mailbox = true →
    tasks.countP (Task.writes mailbox) ≤ task.editor.attempts →
      (∀ rounds known, Chases mailbox rounds known (own actor history) → rounds < task.editor.attempts) ∧
        ∀ outcome, last.result? actor = some (.ok outcome) → Found mailbox (own actor history)

section Race

variable {store : Store} {tasks : List Task} {mailbox : MailboxId} {turns : List Turn} {history : List Happening}
  {last : Race Outcome} {actor : Nat}

theorem Race.gives_up_of_run (ran : (Race.start store tasks).run turns = (history, last)) {editor : Editor}
    {command : Command} (present : tasks[actor]? = some (.update editor mailbox command)) {e : AccessError}
    (failed : last.result? actor = some (.error e)) : editor.GivesUp mailbox (own actor history) e := by
  have led := Race.leads_of_present ran present failed
  exact (led.meets Task.plan_gives_up fun _ _ => trivial).2 e rfl

theorem Race.resolved_of_run (ran : (Race.start store tasks).run turns = (history, last)) {task : Task}
    (present : tasks[actor]? = some task) (writes : task.writes mailbox = true) {outcome : Outcome}
    (done : last.result? actor = some (.ok outcome)) :
    Resolved mailbox task.editor.attempts (own actor history) := by
  have led := Race.leads_of_present ran present done
  exact (led.meets (Task.plan_resolves writes) fun _ _ => trivial).2 outcome rfl

theorem Course.overtaken_enough {view : View} (course : Course tasks mailbox view history) {editor : Editor}
    {command : Command} (present : tasks[actor]? = some (.update editor mailbox command))
    (spent : losses (own actor history) = editor.attempts) {before during after : List Happening}
    (split : history = before ++ during ++ after) (fresh : own actor before = []) (done : own actor after = []) :
    editor.attempts ≤ (overtakers mailbox actor during).length := by
  subst split
  have same : own actor (before ++ during ++ after) = own actor during := by
    rw [own_append, own_append, fresh, done, List.nil_append, List.append_nil]
  rw [← spent, same]
  exact course.earlier.losses_le present fresh

/-- An attempt is lost only to another task, so an update that runs out of retries was overtaken that often;
and whoever may try as often as there are tasks that write runs out of nothing. -/
theorem retries_suffice (ran : (Race.start store tasks).run turns = (history, last)) :
    Sufficient tasks mailbox history last := by
  have course := Race.course_of_run ran mailbox
  constructor
  case lost =>
    intro before actor x after editor command split present lost
    subst split
    exact course.upTo.overtaken present lost
  case exhausted =>
    intro actor editor command place attempts present failed
    rcases Race.gives_up_of_run ran present failed with raised | ⟨same, spent⟩
    · exact .inl raised.refused
    · cases same
      refine .inr ⟨rfl, rfl, ?_⟩
      intro before during after split fresh done
      refine ⟨?_, course.overtaken_enough present spent split fresh done⟩
      subst split
      have distinct := course.nodup_overtakers actor
      rw [overtakers_append, overtakers_append] at distinct
      exact distinct.of_append_left.of_append_right
  case spared =>
    intro actor editor command place attempts present enough failed
    rcases Race.gives_up_of_run ran present failed with raised | ⟨same, spent⟩
    · exact raised.refused
    · have fewer := course.overtakers_lt present (decide_eq_true rfl)
      have whole : history = [] ++ history ++ [] := by simp
      have most := course.overtaken_enough present spent whole rfl rfl
      omega
  case settled =>
    intro actor task present writes enough
    have fewer := course.overtakers_lt present writes
    have within : ∀ rounds known, Chases mailbox rounds known (own actor history) →
        rounds < task.editor.attempts := by
      intro rounds known chases
      have most := course.rounds_le chases
      omega
    refine ⟨within, ?_⟩
    intro outcome done
    cases Race.resolved_of_run ran present writes done with
    | found found => exact found
    | vanished vanished => exact absurd vanished course.not_vanished
    | overrun chases => exact absurd (within _ _ chases) (Nat.lt_irrefl _)

end Race

def hastyTasks : List Task :=
  [.update ⟨⟨1⟩, .json, false, 0⟩ sampleMailbox addReader, .update sampleEditor sampleMailbox giveOwner]

def hastyTurns : List Turn := [.act 0, .act 1, .act 1, .act 0, .act 1, .act 1]

def hastyRun : List Happening × Race Outcome := (Race.start Store.inMemory hastyTasks).run hastyTurns

theorem retries_suffice_of_hastyRun :
    hastyRun.2.result? 0 = some (.error (.retriesExhausted sampleMailbox 1)) ∧
      1 ≤ (overtakers sampleMailbox 0 hastyRun.1).length ∧ Found sampleMailbox (own 1 hastyRun.1) := by
  have sufficient : Sufficient hastyTasks sampleMailbox hastyRun.1 hastyRun.2 :=
    retries_suffice (show _ = (hastyRun.1, hastyRun.2) from rfl)
  have exhausted : hastyRun.2.result? 0 = some (.error (.retriesExhausted sampleMailbox 1)) := by decide +kernel
  have answered : ∀ happening ∈ hastyRun.1, happening.exchange.error? = none := by decide +kernel
  have committed : hastyRun.2.result? 1 = some (.ok (.committed ⟨sampleMailbox, 0,
      Diff.between Acl.empty (Acl.empty.apply giveOwner)⟩)) := by decide +kernel
  refine ⟨exhausted, ?_, ?_⟩
  · rcases sufficient.exhausted 0 _ _ _ _ rfl exhausted with ⟨front, place, attempt, split⟩ | ⟨-, -, overtaken⟩
    · have refused : ⟨.hook place attempt, .error (.retriesExhausted sampleMailbox 1)⟩ ∈ own 0 hastyRun.1 := by
        rw [split]
        simp
      cases answered _ (mem_own_iff.mp refused)
    · exact (overtaken [] hastyRun.1 [] (by simp) rfl rfl).2
  · exact (sufficient.settled 1 _ rfl rfl (by decide)).2 _ committed

end MailboxAccess
