import MailboxAccess.Proofs.Announcements
import MailboxAccess.Proofs.Changes
import MailboxAccess.Proofs.Editor.Run

namespace MailboxAccess

/-- The update of a race beside the same one without listeners, which is `silent`, on the same turns. -/
structure Observed (race : Race Outcome) (actor listeners : Nat) (silent : Plan Outcome) (turns : List Turn) :
    Prop where
  store : ((race.instead actor silent).run turns).2.store = (race.run turns).2.store
  others : ∀ other, other ≠ actor →
    ((race.instead actor silent).run turns).2.plans[other]? = (race.run turns).2.plans[other]?
  history : ((race.instead actor silent).run turns).1 = withoutNotices actor (race.run turns).1
  result : ∀ result, (race.run turns).2.result? actor = some result →
    ((race.instead actor silent).run turns).2.result? actor = some result
  /-- What is returned without listeners is returned with them, a turn for each of them later at most. -/
  returns : ∀ result, ((race.instead actor silent).run turns).2.result? actor = some result →
    ∀ more : List Turn, (∀ turn ∈ more, turn.actor = actor) → listeners ≤ more.length →
      (race.run (turns ++ more)).2.result? actor = some result
  /-- The listeners are told of the commit in their order, each once, and after that nothing is done. -/
  committed : ∀ outcome, (race.run turns).2.result? actor = some (.ok outcome) →
    ∃ commit work notices, outcome = .committed commit ∧ own actor (race.run turns).1 = work ++ notices ∧
      (∀ x ∈ work, x.call.tells = false) ∧
      notices.map Exchange.call = (List.range listeners).map (Call.notify · commit)
  failed : ∀ e, (race.run turns).2.result? actor = some (.error e) →
    ∀ x ∈ own actor (race.run turns).1, x.call.tells = false

theorem Progress.of_silent_done {listeners : List Nat} {plan : Plan Outcome} {result : Except AccessError Outcome}
    {past : List Exchange} (progress : Progress listeners plan (.done result) past) :
    plan = .done result ∨
      ∃ commit left, result = .ok (.committed commit) ∧ plan = commit.tell left ∧ left.length ≤ listeners.length := by
  cases progress with
  | failed untold => exact .inl rfl
  | told untold told => exact .inl rfl
  | @telling commit listener left work notices untold told =>
      refine .inr ⟨commit, listener :: left, rfl, rfl, ?_⟩
      have lengths := congrArg List.length told
      simp only [List.length_append, List.length_map] at lengths
      omega

namespace Race

variable {race : Race Outcome} {actor : Nat} {turns : List Turn}

theorem run_of_done {result : Except AccessError Outcome} (present : race.plans[actor]? = some (.done result))
    (mine : ∀ turn ∈ turns, turn.actor = actor) : race.run turns = ([], race) := by
  induction turns with
  | nil => rfl
  | cons turn turns ih =>
      have turning : turn.actor = actor := mine turn List.mem_cons_self
      subst turning
      rw [run, step_of_done present]
      exact ih fun other member => mine other (List.mem_cons_of_mem _ member)

theorem result_of_tell {commit : Commit} {left : List Nat} (present : race.plans[actor]? = some (commit.tell left))
    (mine : ∀ turn ∈ turns, turn.actor = actor) (enough : left.length ≤ turns.length) :
    (race.run turns).2.result? actor = some (.ok (.committed commit)) := by
  induction left generalizing race turns with
  | nil =>
      rw [run_of_done present mine]
      exact result_eq_some_iff.mpr present
  | cons listener left ih =>
      cases turns with
      | nil => cases enough
      | cons turn turns =>
          have turning : turn.actor = actor := mine turn List.mem_cons_self
          subst turning
          rw [run, step_of_call present]
          exact ih (List.getElem?_set_self (List.getElem?_eq_some_iff.mp present).1)
            (fun other member => mine other (List.mem_cons_of_mem _ member)) (Nat.le_of_succ_le_succ enough)

end Race

theorem observed_of_present {coder : Coder} {editor : Editor} {mailbox : MailboxId} {command : Command}
    {race : Race Outcome} {actor : Nat} (present : race.plans[actor]? = some (coder.task editor mailbox command))
    (turns : List Turn) :
    Observed race actor editor.listeners (coder.task editor.silent mailbox command) turns := by
  have progress : Progress (List.range editor.listeners) (coder.task editor mailbox command)
      (coder.task editor.silent mailbox command) [] := by
    rw [Coder.task_eq, Coder.task_silent]
    exact .of_quiet Coder.work_quiet (List.forall_mem_nil _)
  rcases Race.run_instead present progress turns with ⟨rest, rest', found, reached, ran⟩
  rw [List.nil_append] at reached
  have there := Race.plans_instead_self found rest'
  have done {result : Except AccessError Outcome} (returned : (race.run turns).2.result? actor = some result) :
      Progress (List.range editor.listeners) (.done result) rest' (own actor (race.run turns).1) := by
    have same := found.symm.trans (Race.result_eq_some_iff.mp returned)
    rwa [Option.some.inj same] at reached
  constructor
  case store =>
    rw [ran]
    rfl
  case others =>
    intro other apart
    rw [ran]
    exact Race.plans_instead_of_ne apart _
  case history => rw [ran]
  case result =>
    intro result returned
    rw [ran, Race.result_eq_some_iff, ← (done returned).done_cases.1]
    exact there
  case returns =>
    intro result returned more mine enough
    rw [ran] at returned
    have ended := there.symm.trans (Race.result_eq_some_iff.mp returned)
    rw [Option.some.inj ended] at reached
    rw [Race.run_append]
    rcases reached.of_silent_done with rfl | ⟨commit, left, rfl, rfl, few⟩
    · rw [Race.run_of_done found mine]
      exact Race.result_eq_some_iff.mpr found
    · rw [List.length_range] at few
      exact Race.result_of_tell found mine (few.trans enough)
  case committed =>
    intro outcome returned
    rcases (done returned).done_cases.2 with ⟨e, error, -⟩ | ⟨commit, work, notices, same, split, untold, told⟩
    · cases error
    · exact ⟨commit, work, notices, Except.ok.inj same, split, untold, told⟩
  case failed =>
    intro e returned
    rcases (done returned).done_cases.2 with ⟨cause, -, untold⟩ | ⟨commit, work, notices, same, -⟩
    · exact untold
    · cases same

def Call.told? (listener : Nat) (mailbox : MailboxId) : Call → Option Commit
  | notify other commit => if other = listener ∧ commit.mailbox = mailbox then some commit else none
  | _ => none

def told (listener : Nat) (mailbox : MailboxId) (past : List Exchange) : List Commit :=
  past.filterMap fun x => x.call.told? listener mailbox

def Acl.updated (acl : Acl) (commits : List Commit) : Acl :=
  commits.foldl (fun acl commit => commit.diff.applyTo acl) acl

theorem Acl.updated_concat (acl : Acl) (commits : List Commit) (commit : Commit) :
    acl.updated (commits ++ [commit]) = commit.diff.applyTo (acl.updated commits) := List.foldl_append

/-- Successful updates one after the other, and the calls that they made. In each of them anything may go wrong that
does not make it fail. -/
inductive Editor.Succession (editor : Editor) (store : Store) : List Exchange → Store → Prop where
  | start : Succession editor store [] store
  | update {past : List Exchange} {middle : Store} {mailbox : MailboxId} {command : Command} {turns : List Turn}
      {history : List Happening} {last : Race Outcome} {outcome : Outcome}
      (earlier : Succession editor store past middle)
      (ran : (Race.start middle [.update editor mailbox command]).run turns = (history, last))
      (done : last.result? 0 = some (.ok outcome)) : Succession editor store (past ++ own 0 history) last.store

section Told

variable {listener : Nat} {mailbox : MailboxId}

theorem told_append (earlier later : List Exchange) :
    told listener mailbox (earlier ++ later) = told listener mailbox earlier ++ told listener mailbox later :=
  List.filterMap_append

theorem told_of_untold {past : List Exchange} (untold : ∀ x ∈ past, x.call.tells = false) :
    told listener mailbox past = [] := by
  refine List.filterMap_eq_nil_iff.mpr ?_
  intro x member
  have quiet := untold x member
  cases called : x.call with
  | notify other commit =>
      rw [called] at quiet
      cases quiet
  | _ => rfl

theorem told_of_notices {notices : List Exchange} {commit : Commit} {listeners : Nat}
    (calls : notices.map Exchange.call = (List.range listeners).map (Call.notify · commit)) :
    told listener mailbox notices = if listener < listeners ∧ commit.mailbox = mailbox then [commit] else [] := by
  have same : told listener mailbox notices = (notices.map Exchange.call).filterMap (Call.told? listener mailbox) := by
    rw [List.filterMap_map]
    rfl
  rw [same, calls]
  clear same calls
  induction listeners with
  | zero => simp
  | succ listeners ih =>
      rw [List.range_succ, List.map_append, List.filterMap_append, ih]
      by_cases here : commit.mailbox = mailbox
      · rcases Nat.lt_trichotomy listener listeners with less | rfl | more
        · simp [Call.told?, here, less, Nat.lt_succ_of_lt less, Nat.ne_of_gt less]
        · simp [Call.told?, here]
        · simp [Call.told?, here, Nat.not_lt.mpr (Nat.le_of_lt more), Nat.not_lt.mpr more, Nat.ne_of_lt more]
      · simp [Call.told?, here]

end Told

namespace Editor

variable {editor : Editor} {mailbox place : MailboxId} {command : Command} {listener : Nat}

theorem look_of_get {store : Store} {acl : Acl}
    (given : (editor.get mailbox).run Store.answer store = (.ok acl, store)) :
    ∃ seen, store.look (.read mailbox) = .ok seen ∧ editor.base seen = acl := by
  cases executed : store.execute (.read mailbox) with
  | ok answered =>
      have shown : store.look (.read mailbox) = .ok answered.1 := by
        rw [Store.look, executed]
        rfl
      have same := (run_get shown).symm.trans given
      exact ⟨answered.1, shown, Except.ok.inj (congrArg Prod.fst same)⟩
  | error e =>
      have failed : (editor.get mailbox).run Store.answer store = (.error (.store e), store) := by
        rw [get, getVersioned_eq, Plan.bind_eq, Plan.bind_eq, Plan.bind_assoc, Plan.run_bind,
          Plan.run_ask_refused executed]
      rw [failed] at given
      cases given

theorem outcome_of_update {store : Store} {turns : List Turn} {history : List Happening} {last : Race Outcome}
    {outcome : Outcome} (ran : (Race.start store [.update editor mailbox command]).run turns = (history, last))
    (done : last.result? 0 = some (.ok outcome)) :
    outcome = .committed (editor.commit mailbox command (store.viewOf mailbox).record) ∧
      (last.store.viewOf mailbox).record = (editor.stored command (store.viewOf mailbox)).record := by
  have through : (Task.update editor mailbox command).plan.Throughout mailbox (fun _ => True)
      (fun now outcome => outcome = .committed (editor.commit mailbox command (store.viewOf mailbox).record) ∧
        now.record = (editor.stored command (store.viewOf mailbox)).record) (store.viewOf mailbox) := by
    refine (update_throughout.mono (fun _ _ => trivial) fun _ _ both => both).bind ?_
    intro now commit _ both
    rcases both with ⟨rfl, rfl⟩
    exact ⟨trivial, rfl, rfl⟩
  exact (Race.throughout_along through ran).2 outcome done

theorem told_of_update {store : Store} {turns : List Turn} {history : List Happening} {last : Race Outcome}
    {outcome : Outcome} (ran : (Race.start store [.update editor place command]).run turns = (history, last))
    (done : last.result? 0 = some (.ok outcome)) (there : listener < editor.listeners) :
    told listener mailbox (own 0 history) =
      if place = mailbox then [editor.commit place command (store.viewOf place).record] else [] := by
  have present : (Race.start store [.update editor place command]).plans[0]? =
      some ((Coder.ofCodec editor.codec).task editor place command) := congrArg some Coder.task_ofCodec.symm
  have observed := (observed_of_present present turns).committed
  rw [ran] at observed
  rcases observed outcome done with ⟨commit, work, notices, rfl, split, untold, calls⟩
  have same := (outcome_of_update ran done).1
  cases same
  rw [split, told_append, told_of_untold untold, told_of_notices calls, List.nil_append]
  exact if_congr (and_iff_right there) rfl rfl

theorem base_of_succession {store last : Store} {past : List Exchange} {seen : Option Record}
    (succession : editor.Succession store past last) (there : listener < editor.listeners)
    (shown : store.look (.read mailbox) = .ok seen)
    (carried : ∀ commit ∈ told listener mailbox past, editor.codec.Carries commit.diff.new.keys) :
    ∃ now, last.look (.read mailbox) = .ok now ∧
      editor.base now = (editor.base seen).updated (told listener mailbox past) := by
  induction succession with
  | start => exact ⟨seen, shown, rfl⟩
  | @update past middle place command turns history last outcome earlier ran done ih =>
      rw [told_append, told_of_update ran done there] at carried ⊢
      rcases ih fun commit member => carried commit (List.mem_append_left _ member) with ⟨now, held, same⟩
      by_cases here : place = mailbox
      · subst here
        rw [if_pos rfl] at carried ⊢
        have reached := Race.reaches_of_run ran
        have next : last.store.look (.read place) = .ok (last.store.viewOf place).record := by
          rw [(reached.view place).1]
          exact reached.read held
        have record : (middle.viewOf place).record = now := Store.record_of_look held
        rw [record] at carried ⊢
        have kept : editor.codec.Carries (editor.edited command now).keys :=
          carried _ (List.mem_append_right _ List.mem_cons_self)
        refine ⟨_, next, ?_⟩
        calc
          editor.base (last.store.viewOf place).record = editor.edited command now := by
            rw [(outcome_of_update ran done).2, stored, record]
            exact Codec.listOf_eq (Codec.versioned_encode kept (List.Subset.refl _))
          _ = (Diff.between (editor.base now) (editor.edited command now)).applyTo (editor.base now) :=
            (Diff.applyTo_between _ _).symm
          _ = (editor.base seen).updated (told listener place past ++ [editor.commit place command now]) := by
            rw [Acl.updated_concat, ← same]
            rfl
      · rw [if_neg here, List.append_nil]
        refine ⟨now, ?_, same⟩
        have alike : Store.Alike mailbox last.store middle := by
          refine Race.alike_of_run ?_ ran
          intro other member
          rw [List.mem_singleton.mp member]
          exact here
        exact alike.record.trans held

end Editor

/-- Whatever goes wrong on the turns of a race and whatever the listeners answer, an update with listeners leaves the
store as without them and returns the same. A commit is told to each of them, when the rows have been seen to, and an
error to none. So if updates follow one another and none fails, a list that is kept up to date by what a listener is
told is the one that a reader is given. It holds for formats of any kind, and those of an editor are among them. -/
theorem listeners_observe (coder : Coder) (editor : Editor) (mailbox : MailboxId) (command : Command) :
    (∀ (race : Race Outcome) (actor : Nat), race.plans[actor]? = some (coder.task editor mailbox command) →
      ∀ turns, Observed race actor editor.listeners (coder.task editor.silent mailbox command) turns) ∧
    (Coder.ofCodec editor.codec).task editor mailbox command = (Task.update editor mailbox command).plan ∧
    ∀ (listener : Nat) (store last : Store) (past : List Exchange) (acl : Acl), listener < editor.listeners →
      editor.Succession store past last → (editor.get mailbox).run Store.answer store = (.ok acl, store) →
      (∀ commit ∈ told listener mailbox past, editor.codec.Carries commit.diff.new.keys) →
      (editor.get mailbox).run Store.answer last = (.ok (acl.updated (told listener mailbox past)), last) := by
  refine ⟨fun race actor => observed_of_present, Coder.task_ofCodec, ?_⟩
  intro listener store last past acl there succession given carried
  rcases Editor.look_of_get given with ⟨seen, shown, rfl⟩
  rcases Editor.base_of_succession succession there shown carried with ⟨now, held, same⟩
  rw [Editor.run_get held, same]

def heardEditor : Editor := ⟨⟨2⟩, .json, false, 2⟩

def firstTurns : List Turn := [.act 0, .act 0, .act 0, .act 0, .refuse 0 (.store .database), .act 0]

def firstHeard : List Happening × Race Outcome :=
  (Race.start Store.inMemory [.update heardEditor sampleMailbox addReader]).run firstTurns

def secondHeard : List Happening × Race Outcome :=
  (Race.start firstHeard.2.store [.update heardEditor sampleMailbox giveOwner]).run (List.replicate 6 (.act 0))

theorem listeners_observe_of_secondHeard :
    firstHeard.2.result? 0 = some (.ok (.committed (heardEditor.commit sampleMailbox addReader none))) ∧
      Observed (Race.start Store.inMemory [.update heardEditor sampleMailbox addReader]) 0 2
        ((Coder.ofCodec .json).task heardEditor.silent sampleMailbox addReader) firstTurns ∧
      (told 1 sampleMailbox (own 0 firstHeard.1 ++ own 0 secondHeard.1)).length = 2 ∧
      (heardEditor.get sampleMailbox).run Store.answer secondHeard.2.store =
        (.ok (Acl.empty.updated (told 1 sampleMailbox (own 0 firstHeard.1 ++ own 0 secondHeard.1))),
          secondHeard.2.store) := by
  rcases listeners_observe (Coder.ofCodec .json) heardEditor sampleMailbox addReader with ⟨observed, same, replayed⟩
  have first : firstHeard.2.result? 0 =
      some (.ok (.committed (heardEditor.commit sampleMailbox addReader none))) := by decide +kernel
  have second : secondHeard.2.result? 0 = some (.ok (.committed
      (heardEditor.commit sampleMailbox giveOwner (firstHeard.2.store.viewOf sampleMailbox).record))) := by
    decide +kernel
  have succession : heardEditor.Succession Store.inMemory (own 0 firstHeard.1 ++ own 0 secondHeard.1)
      secondHeard.2.store :=
    .update (.update .start (show _ = (firstHeard.1, firstHeard.2) from rfl) first)
      (show _ = (secondHeard.1, secondHeard.2) from rfl) second
  have present : (Race.start Store.inMemory [.update heardEditor sampleMailbox addReader]).plans[0]? =
      some ((Coder.ofCodec .json).task heardEditor sampleMailbox addReader) := congrArg some same.symm
  refine ⟨first, observed _ 0 present firstTurns, by decide +kernel, ?_⟩
  exact replayed 1 _ _ _ Acl.empty (by decide) succession rfl fun _ _ => trivial

end MailboxAccess
