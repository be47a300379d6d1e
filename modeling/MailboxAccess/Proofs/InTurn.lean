import MailboxAccess.Proofs.Ledger

namespace MailboxAccess

def Task.follow (earlier : List (Except AccessError Outcome) × Store) (task : Task) :
    List (Except AccessError Outcome) × Store :=
  let (result, store) := task.plan.run Store.answer earlier.2
  (earlier.1 ++ [result], store)

def Store.inTurn (start : Store) (tasks : List Task) : List (Except AccessError Outcome) × Store :=
  tasks.foldl Task.follow ([], start)

def Plan.outcome {α : Type} (plan : Plan α) (store : Store) : Except AccessError α :=
  (plan.run Store.answer store).1

/-- Every task has returned what was due. -/
structure Earned (tasks : List Task) (results : List (Except AccessError Outcome)) : Prop where
  all : results.length = tasks.length
  due : ∀ past task later, tasks = past ++ task :: later →
    ∃ outcome, results[past.length]? = some (.ok outcome) ∧ Due past task outcome

/-- All that tasks in turn return, and all that can be read from the store that they leave, is as their ledgers
say. -/
structure Faithful (codec : Codec) (tasks : List Task) (results : List (Except AccessError Outcome))
    (last : Store) : Prop where
  earned : Earned tasks results
  versioned : ∀ (editor : Editor) (mailbox : MailboxId), editor.codec = codec →
    ∃ seen, (editor.getVersioned mailbox).outcome last = .ok seen ∧
      seen.map (fun current => (current.acl, current.version.toNat)) = (Ledger.after mailbox tasks).state
  mailbox : ∀ mailbox, (Plan.ask (.listMailbox mailbox)).outcome last = .ok (Ledger.after mailbox tasks).list.table
  row : ∀ key mailbox, (Index.retrieve key mailbox).outcome last = .ok ((Ledger.after mailbox tasks).list.get? key)
  identity : ∀ key, ∃ found, (Index.listIdentity key).outcome last = .ok found ∧
    ∀ mailbox, found.get? mailbox = (Ledger.after mailbox tasks).list.get? key
  user : ∀ key : EntryKey, key.kind = .user → key.negative = false →
    (Index.listUser key.name).outcome last = (Index.listIdentity key).outcome last
  nobody : ∀ name, Kind.user.admits name.toList = false → (Index.listUser name).outcome last = .ok SortedMap.empty

theorem Plan.outcome_ask {store last : Store} {request : Request} {reply : request.Reply}
    (done : store.execute request = .ok (reply, last)) : (Plan.ask request).outcome store = .ok reply := by
  simp only [outcome, ask, run, Store.answer, done]

theorem Plan.Alone.outcome_eq {α : Type} {plan : Plan α} {mailbox : MailboxId} {before after : View} {a : α}
    {store : Store} (alone : plan.Alone mailbox before a after) (readable : store.Readable)
    (held : store.viewOf mailbox = before) : plan.outcome store = .ok a := by
  rcases alone store readable held with ⟨last, ran, -⟩
  rw [outcome, ran]

namespace Index

variable {store : Store} {key : EntryKey}

theorem outcome_listIdentity (readable : store.Readable) (key : EntryKey) :
    ∃ found, (listIdentity key).outcome store = .ok found ∧
      ∀ mailbox, found.get? mailbox = (store.viewOf mailbox).rows.get? key := by
  have storable : (Request.listIdentity key).Storable := trivial
  rcases readable.execute storable with ⟨found, last, done, -⟩
  exact ⟨found, Plan.outcome_ask done, Store.listIdentity_eq done⟩

theorem listUser_name (user : key.kind = .user) (positive : key.negative = false) :
    listUser key.name = listIdentity key := by
  rcases key with ⟨name, kind, negative, admitted⟩
  cases user
  cases positive
  simp only [listUser, EntryKey.user, EntryKey.make, dif_pos admitted]

theorem listUser_nobody {name : String} (refused : Kind.user.admits name.toList = false) :
    listUser name = pure SortedMap.empty := by
  simp [listUser, EntryKey.user, EntryKey.make, refused]

end Index

theorem Earned.concat {past : List Task} {results : List (Except AccessError Outcome)} {task : Task}
    {outcome : Outcome} (earned : Earned past results) (due : Due past task outcome) :
    Earned (past ++ [task]) (results ++ [.ok outcome]) where
  all := by simp [earned.all]
  due := by
    intro earlier other later split
    rcases split_concat split with ⟨rfl, rfl, rfl⟩ | ⟨between, rfl, before⟩
    · refine ⟨outcome, ?_, due⟩
      rw [← earned.all]
      exact List.getElem?_concat_length
    · rcases earned.due earlier other between before with ⟨told, returned, matched⟩
      have within := (List.getElem?_eq_some_iff.mp returned).1
      exact ⟨told, by rw [List.getElem?_append_left within, returned], matched⟩

structure Kept (codec : Codec) (tasks : List Task) (results : List (Except AccessError Outcome)) (last : Store) :
    Prop where
  earned : Earned tasks results
  readable : last.Readable
  reflects : ∀ mailbox, Reflects codec (Ledger.after mailbox tasks) (last.viewOf mailbox)

section Kept

variable {codec : Codec} {tasks past : List Task} {results : List (Except AccessError Outcome)} {start last : Store}

theorem kept_nil (fresh : start.Fresh) : Kept codec [] [] start where
  earned := ⟨rfl, fun past task later split => by simp at split⟩
  readable := fresh.readable
  reflects mailbox := by
    rw [fresh.viewOf_eq]
    exact ⟨rfl, rfl, rfl⟩

theorem Kept.follow {task : Task} (kept : Kept codec past results last) (allowed : 0 < task.editor.attempts)
    (format : task.editor.codec = codec)
    (carried : codec.Carries (Ledger.after task.mailbox (past ++ [task])).list.keys) (few : past.length < 2 ^ 63) :
    Kept codec (past ++ [task]) (task.follow (results, last)).1 (task.follow (results, last)).2 := by
  subst format
  rcases Task.due_alone allowed (kept.reflects task.mailbox) carried few with ⟨outcome, after, alone, due, reflects⟩
  rcases alone last kept.readable rfl with ⟨next, ran, readable, views⟩
  rw [Task.follow, ran]
  refine ⟨kept.earned.concat due, readable, ?_⟩
  intro mailbox
  rw [views]
  by_cases here : mailbox = task.mailbox
  · subst here
    rw [Function.update_self]
    exact reflects
  · rw [Function.update_of_ne here, Ledger.after_concat, Ledger.enter_elsewhere (Ne.symm here)]
    exact kept.reflects mailbox

theorem kept_inTurn (fresh : start.Fresh)
    (suited : ∀ task ∈ tasks, task.editor.codec = codec ∧ 0 < task.editor.attempts)
    (carried : ∀ past mailbox, past <+: tasks → codec.Carries (Ledger.after mailbox past).list.keys)
    (few : tasks.length < 2 ^ 63) : Kept codec tasks (start.inTurn tasks).1 (start.inTurn tasks).2 := by
  induction tasks using List.reverseRecOn with
  | nil => exact kept_nil fresh
  | append_singleton past task ih =>
      have suits := suited task (by simp)
      have fewer : past.length < 2 ^ 63 := by
        rw [List.length_append] at few
        exact Nat.lt_of_le_of_lt (Nat.le_add_right _ _) few
      have kept := ih (fun earlier among => suited earlier (List.mem_append_left _ among))
        (fun front mailbox within => carried front mailbox (within.trans (List.prefix_append _ _))) fewer
      rw [Store.inTurn, List.foldl_concat]
      exact kept.follow suits.2 suits.1 (carried _ _ List.prefix_rfl) fewer

theorem Kept.faithful (kept : Kept codec tasks results last) : Faithful codec tasks results last where
  earned := kept.earned
  versioned editor mailbox format := by
    subst format
    exact ⟨_, Editor.getVersioned_alone.outcome_eq kept.readable rfl, (kept.reflects mailbox).found_eq⟩
  mailbox mailbox := by
    rw [← (kept.reflects mailbox).rows]
    exact Plan.listMailbox_alone.outcome_eq kept.readable rfl
  row key mailbox := by
    have found : (Index.retrieve key mailbox).outcome last = .ok ((last.viewOf mailbox).rows.get? key) :=
      (Plan.retrieve_alone key).outcome_eq kept.readable rfl
    rw [found, (kept.reflects mailbox).rows]
    rfl
  identity key := by
    rcases Index.outcome_listIdentity kept.readable key with ⟨found, answered, rows⟩
    refine ⟨found, answered, ?_⟩
    intro mailbox
    rw [rows, (kept.reflects mailbox).rows]
    rfl
  user key user positive := by rw [Index.listUser_name user positive]
  nobody name refused := by
    rw [Index.listUser_nobody refused]
    rfl

end Kept

/-- On a new store of either kind tasks in turn are faithful to their ledgers, if no list of theirs is larger than
what the format can write. -/
theorem inTurn_faithful {codec : Codec} {tasks : List Task} {start : Store} (fresh : start.Fresh)
    (suited : ∀ task ∈ tasks, task.editor.codec = codec ∧ 0 < task.editor.attempts)
    (carried : ∀ past mailbox, past <+: tasks → codec.Carries (Ledger.after mailbox past).list.keys)
    (few : tasks.length < 2 ^ 63) : Faithful codec tasks (start.inTurn tasks).1 (start.inTurn tasks).2 :=
  (kept_inTurn fresh suited carried few).faithful

def someMailbox : MailboxId := ⟨List.replicate 16 3, rfl⟩

def otherMailbox : MailboxId := ⟨List.replicate 16 4, rfl⟩

def deniedBob : EntryKey := ⟨"bob", .user, true, by decide⟩

def mixedTasks : List Task :=
  let editor : Editor := ⟨⟨1⟩, .cbor, false, 1⟩
  [.update editor someMailbox ⟨deniedBob, .add, .full⟩, .update editor otherMailbox ⟨.anyone, .add, .full⟩,
    .reset editor otherMailbox Acl.ownerFull, .update editor otherMailbox ⟨deniedBob, .replace, .full⟩,
    .update editor someMailbox ⟨deniedBob, .replace, .empty⟩, .read editor someMailbox]

theorem inTurn_faithful_of_mixedTasks :
    Store.onDatabase none = .ok (.database Database.fresh) ∧
      Codec.cbor.Carries (mixedTasks.flatMap Task.keys) ∧
      Faithful .cbor mixedTasks ((Store.database Database.fresh).inTurn mixedTasks).1
        ((Store.database Database.fresh).inTurn mixedTasks).2 := by
  have carried : Codec.cbor.Carries (mixedTasks.flatMap Task.keys) := ⟨by decide +kernel, by decide +kernel⟩
  refine ⟨rfl, carried, inTurn_faithful (.inr rfl) ?_ ?_ ?_⟩
  · simp [mixedTasks, Task.editor, Editor.attempts]
  · exact fun past mailbox within => Ledger.carries_after carried within mailbox
  · simp [mixedTasks]

end MailboxAccess
