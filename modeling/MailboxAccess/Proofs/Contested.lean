import MailboxAccess.Contested
import MailboxAccess.Proofs.AnyRecord

namespace MailboxAccess

/-- The mailbox is in order: its record stands for `state`, and its rows are those of the list. -/
def Store.InOrder (store : Store) (codec : Codec) (mailbox : MailboxId) (state : Option Versioned) : Prop :=
  ∃ view, store.view? mailbox = .ok view ∧ codec.versioned view.record = .ok state ∧
    view.rows = (Versioned.list state).table

def Call.hooks : Call → Bool
  | hook _ _ => true
  | _ => false

namespace Versioned

theorem version_edit (state : Option Versioned) (command : Command) :
    (edit state command).map version = bump^[1] (state.map version) := by
  cases state <;> rfl

theorem upcoming_edit {state : Option Versioned} (few : upcoming (state.map version) + 1 ≤ 2 ^ 64)
    (command : Command) : upcoming ((edit state command).map version) = upcoming (state.map version) + 1 := by
  rw [version_edit]
  exact upcoming_bump few

theorem upcoming_replay {state : Option Versioned} {commands : List Command}
    (few : upcoming (state.map version) + commands.length ≤ 2 ^ 64) :
    upcoming ((replay state commands).map version) = upcoming (state.map version) + commands.length := by
  induction commands generalizing state with
  | nil => rfl
  | cons command rest ih =>
      rw [List.length_cons] at few ⊢
      have next : upcoming ((edit state command).map version) = upcoming (state.map version) + 1 :=
        upcoming_edit (by omega) command
      have later : upcoming ((replay (edit state command) rest).map version) = _ := ih (by omega)
      rw [replay, List.foldl_cons, ← replay, later, next]
      omega

theorem list_replay (state : Option Versioned) (commands : List Command) :
    list (replay state commands) = commands.foldl Acl.apply (list state) := by
  induction commands generalizing state with
  | nil => rfl
  | cons command rest ih =>
      rw [replay, List.foldl_cons, ← replay, ih, list_edit]
      rfl

end Versioned

theorem Upkeep.unhooked {mailbox : MailboxId} {c : Call} (upkeep : Upkeep mailbox c) : c.hooks = false := by
  cases upkeep <;> rfl

namespace Plan

variable {α : Type} {rival : Editor} {mailbox : MailboxId}

theorem run_unhooked {plan : Plan α} {past : List Exchange} {post : List Exchange → Except AccessError α → Prop}
    (meets : plan.Meets (fun _ => True) (fun _ x => x.call.hooks = false) post past) (state : Contested Store) :
    plan.run (Contested.answer rival Store.answer) state =
      ((plan.run Store.answer state.world).1, { state with world := (plan.run Store.answer state.world).2 }) := by
  induction plan generalizing past state with
  | done result => rfl
  | call c next ih =>
      rcases meets (Store.answer c state.world).1 trivial with ⟨unhooked, onward⟩
      cases c with
      | store request => exact ih _ onward _
      | hook place attempt => cases unhooked
      | notify listener commit => exact ih _ onward _

theorem ask_unhooked (past : List Exchange) (request : Request) :
    (Plan.ask request).Meets (fun _ => True) (fun _ x => x.call.hooks = false) (fun _ _ => True) past := by
  intro answer _
  refine ⟨rfl, ?_⟩
  cases answer <;> trivial

end Plan

namespace Editor

variable {editor rival : Editor} {mailbox : MailboxId} {command : Command} {store : Store} {view : View}

theorem tryWrite_unhooked (past : List Exchange) (seen : Option Record) :
    (editor.tryWrite mailbox command seen).Meets (fun _ => True) (fun _ x => x.call.hooks = false) (fun _ _ => True)
      past := by
  cases seen with
  | none => exact (Plan.ask_unhooked past _).bind (fun _ _ _ => trivial) (fun _ _ _ => trivial)
  | some record => exact (Plan.ask_unhooked past _).bind (fun _ _ _ => trivial) (fun _ _ _ => trivial)

theorem publish_unhooked (past : List Exchange) (written : Written) :
    (editor.publish mailbox written).Meets (fun _ => True) (fun _ x => x.call.hooks = false) (fun _ _ => True)
      past := by
  have told (past : List Exchange) (commit : Commit) (listeners : List Nat) :
      (announce commit listeners).Meets (fun _ => True) (fun _ x => x.call.hooks = false) (fun _ _ => True) past := by
    induction listeners generalizing past with
    | nil => trivial
    | cons listener listeners ih =>
        intro answer _
        exact ⟨rfl, ih _⟩
  refine ((editor.coder.syncIndex_meets editor _ _ past).mono (fun _ _ => Upkeep.unhooked)
    (fun _ _ _ => trivial)).bind ?_
    (fun _ _ _ => trivial)
  intro past _ _
  exact (told past _ _).bind (fun _ _ _ => trivial) (fun _ _ _ => trivial)

theorem inOrder_of_follows {last : Store} {state : Option Versioned}
    (carries : ∀ acl : Acl, editor.codec.Carries acl.keys)
    (decoded : editor.codec.versioned view.record = .ok state) (rows : view.rows = (Versioned.list state).table)
    (held : last.view? mailbox =
      .ok ⟨(editor.stored command view).record, (editor.follows command view).foldl Index.written view.rows⟩) :
    last.InOrder editor.codec mailbox (Versioned.edit state command) := by
  refine ⟨_, held, ?_, ?_⟩
  · have base : editor.base view.record = Versioned.list state := Codec.listOf_eq decoded
    rw [Versioned.edit_eq command decoded, stored, edited, base]
    exact Codec.versioned_encode (carries _) (List.Subset.refl _)
  · apply SortedMap.ext_get?
    intro key
    rw [get?_foldl_follows decoded, rows, Versioned.list_edit]
    split
    · next kept => exact kept
    · rfl

theorem room_of_few {state : Option Versioned} (decoded : editor.codec.versioned view.record = .ok state)
    (few : upcoming (state.map Versioned.version) + 1 ≤ store.limit) : Room store view.record := by
  intro record present
  rw [Codec.version_eq decoded, present] at few
  exact few

theorem update_inOrder {state : Option Versioned} (allowed : 0 < editor.attempts)
    (carries : ∀ acl : Acl, editor.codec.Carries acl.keys) (order : store.InOrder editor.codec mailbox state)
    (few : upcoming (state.map Versioned.version) + 1 ≤ store.limit) (command : Command) :
    ∃ commit last, (editor.update mailbox command).run Store.answer store = (.ok commit, last) ∧
      last.limit = store.limit ∧ last.InOrder editor.codec mailbox (Versioned.edit state command) := by
  rcases order with ⟨view, shown, decoded, rows⟩
  rcases update_stored command allowed shown (room_of_few decoded few) with ⟨last, ran, held⟩
  have limit := (editor.update mailbox command).limit_run store
  rw [ran] at limit
  exact ⟨_, last, ran, limit, inOrder_of_follows carries decoded rows held⟩

/-- Before each of its writes the editor asks this rival, whose updates work on the same records. -/
structure Facing (editor rival : Editor) : Prop where
  hooked : editor.hooked = true
  format : rival.codec = editor.codec
  allowed : 0 < rival.attempts
  /-- The lists that they store can be read again. -/
  carries : ∀ acl : Acl, editor.codec.Carries acl.keys

section Attempt

variable {state : Option Versioned} {rest : List Command} {injected : Nat}

theorem run_beforeWrite_rival (hooked : editor.hooked = true) {given : Command} {commit : Commit} {after : Store}
    (ran : (rival.update mailbox given).run Store.answer store = (.ok commit, after)) (attempt : Nat) :
    (editor.beforeWrite mailbox attempt).run (Contested.answer rival Store.answer) ⟨store, given :: rest, injected⟩ =
      (.ok (), ⟨after, rest, injected + 1⟩) := by
  rw [beforeWrite, if_pos hooked]
  simp only [Plan.run, Contested.answer, ran]

theorem run_beforeWrite_free (hooked : editor.hooked = true) (attempt : Nat) :
    (editor.beforeWrite mailbox attempt).run (Contested.answer rival Store.answer) ⟨store, [], injected⟩ =
      (.ok (), ⟨store, [], injected⟩) := by
  rw [beforeWrite, if_pos hooked]
  rfl

theorem run_tryOnce_contested (command : Command) {pending : List Command} {seen : Option Record} {attempt : Nat}
    {now : Contested Store} (shown : store.look (.read mailbox) = .ok seen)
    (asked : (editor.beforeWrite mailbox attempt).run (Contested.answer rival Store.answer) ⟨store, pending, injected⟩ =
      (.ok (), now)) :
    (editor.tryOnce mailbox command attempt).run (Contested.answer rival Store.answer) ⟨store, pending, injected⟩ =
      (((editor.tryWrite mailbox command seen).run Store.answer now.world).1,
        { now with world := ((editor.tryWrite mailbox command seen).run Store.answer now.world).2 }) := by
  rw [tryOnce_eq, Plan.bind_eq, Plan.run_bind, Plan.run_unhooked (Plan.ask_unhooked [] _), Plan.run_read shown]
  change ((editor.beforeWrite mailbox attempt).bind _).run _ _ = _
  rw [Plan.run_bind, asked]
  exact Plan.run_unhooked (tryWrite_unhooked [] seen) now

theorem run_tryOnce_lost (facing : Facing editor rival) (order : store.InOrder editor.codec mailbox state)
    (given : Command) (rest : List Command) (injected attempt : Nat)
    (few : upcoming (state.map Versioned.version) + 1 ≤ store.limit) :
    ∃ after, (editor.tryOnce mailbox command attempt).run (Contested.answer rival Store.answer)
        ⟨store, given :: rest, injected⟩ = (.ok none, ⟨after, rest, injected + 1⟩) ∧
      after.limit = store.limit ∧ after.InOrder editor.codec mailbox (Versioned.edit state given) := by
  have rivalled := update_inOrder facing.allowed (facing.format ▸ facing.carries) (facing.format ▸ order) few given
  rw [facing.format] at rivalled
  rcases rivalled with ⟨commit, between, ran, limit, now, shown', decoded', rows'⟩
  rcases order with ⟨view, shown, decoded, rows⟩
  have room : Room between view.record := room_of_few decoded (limit.symm ▸ few)
  rcases editor.run_tryWrite command shown' room with ⟨won, after, won_iff, wrote, held⟩
  -- what was read has been replaced since, by the version after it
  have moved : now.record.map Record.version ≠ view.record.map Record.version := by
    rw [← Codec.version_eq decoded, ← Codec.version_eq decoded', Versioned.version_edit]
    intro same
    cases eq_zero_of_bump (few.trans store.limit_le) same
  have lost : won = false := Bool.eq_false_iff.mpr fun yes => moved (won_iff.mp yes)
  subst lost
  refine ⟨after, ?_, ?_, now, held, decoded', rows'⟩
  · rw [run_tryOnce_contested command (Store.view_eq_ok_iff.mp shown).1
      (run_beforeWrite_rival facing.hooked ran attempt), wrote]
    rfl
  · have kept := (editor.tryWrite mailbox command view.record).limit_run between
    rw [wrote] at kept
    exact kept.trans limit

theorem run_tryFrom_lost (facing : Facing editor rival) (order : store.InOrder editor.codec mailbox state)
    (command : Command) (rivals rest : List Command) (left injected attempt : Nat)
    (few : upcoming (state.map Versioned.version) + rivals.length ≤ store.limit) :
    ∃ after, (editor.tryFrom mailbox command (rivals.length + left) attempt).run (Contested.answer rival Store.answer)
          ⟨store, rivals ++ rest, injected⟩ =
        (editor.tryFrom mailbox command left (attempt + rivals.length)).run (Contested.answer rival Store.answer)
          ⟨after, rest, injected + rivals.length⟩ ∧
      after.limit = store.limit ∧ after.InOrder editor.codec mailbox (Versioned.replay state rivals) := by
  -- on the rival commands, for the mailbox is in order again after each of them
  induction rivals generalizing store state injected attempt with
  | nil => exact ⟨store, by rw [List.length_nil, Nat.zero_add]; rfl, rfl, order⟩
  | cons given rivals ih =>
      rw [List.length_cons] at few ⊢
      have within := few.trans store.limit_le
      rcases run_tryOnce_lost facing order given (rivals ++ rest) injected attempt (by omega) with
        ⟨between, tried, limit, ordered⟩
      have next : upcoming ((Versioned.edit state given).map Versioned.version) = _ :=
        Versioned.upcoming_edit (by omega) given
      rcases ih ordered (injected + 1) (attempt + 1) (by omega) with ⟨after, onward, limit', ordered'⟩
      refine ⟨after, ?_, limit'.trans limit, ordered'⟩
      rw [Nat.add_right_comm, tryFrom, Coder.tryFrom, Plan.bind_eq, Plan.run_bind, List.cons_append, tried,
        Nat.add_comm rivals.length 1, ← Nat.add_assoc, ← Nat.add_assoc]
      exact onward

/-- After the rival commands the update has fewer attempts left, and finds the mailbox as they have left it. -/
theorem run_update_lost (facing : Facing editor rival) (order : store.InOrder editor.codec mailbox state)
    (command : Command) (rivals rest : List Command) (left : Nat) (attempts : editor.attempts = rivals.length + left)
    (few : upcoming (state.map Versioned.version) + rivals.length ≤ store.limit) :
    ∃ after, (editor.update mailbox command).run (Contested.answer rival Store.answer) ⟨store, rivals ++ rest, 0⟩ =
        (editor.tryFrom mailbox command left (1 + rivals.length) >>= editor.publish mailbox).run
          (Contested.answer rival Store.answer) ⟨after, rest, rivals.length⟩ ∧
      after.limit = store.limit ∧ after.InOrder editor.codec mailbox (Versioned.replay state rivals) := by
  rcases run_tryFrom_lost facing order command rivals rest left 0 1 few with ⟨after, lost, limit, ordered⟩
  refine ⟨after, ?_, limit, ordered⟩
  rw [update_eq, attempts, Plan.bind_eq, Plan.run_bind, lost, Nat.zero_add, ← Plan.run_bind]
  rfl

theorem run_update_free (facing : Facing editor rival) (order : store.InOrder editor.codec mailbox state)
    (command : Command) (left attempt injected : Nat) (few : upcoming (state.map Versioned.version) + 1 ≤ store.limit) :
    ∃ version last, (editor.tryFrom mailbox command (left + 1) attempt >>= editor.publish mailbox).run
          (Contested.answer rival Store.answer) ⟨store, [], injected⟩ =
        (.ok ⟨mailbox, version, Diff.between (Versioned.list state) ((Versioned.list state).apply command)⟩,
          ⟨last, [], injected⟩) ∧
      version.toNat = upcoming (state.map Versioned.version) ∧
      last.InOrder editor.codec mailbox (some ⟨(Versioned.list state).apply command, version⟩) := by
  rcases order with ⟨view, shown, decoded, rows⟩
  rcases editor.run_tryWrite command shown (room_of_few decoded few) with ⟨won, next, won_iff, wrote, after⟩
  cases won_iff.mpr rfl
  rcases editor.run_publish command after with ⟨last, published, held⟩
  have base : editor.base view.record = Versioned.list state := Codec.listOf_eq decoded
  have edited := Versioned.edit_eq command decoded
  have ordered := inOrder_of_follows facing.carries decoded rows held
  have number := Versioned.upcoming_edit (few.trans store.limit_le) command
  rw [edited] at ordered number
  refine ⟨nextVersion view.record, last, ?_, Nat.succ.inj number, ordered⟩
  have idle : (editor.beforeWrite mailbox attempt).run (Contested.answer rival Store.answer) ⟨store, [], injected⟩ =
      (.ok (), ⟨store, [], injected⟩) := run_beforeWrite_free facing.hooked attempt
  have tried := run_tryOnce_contested command (Store.view_eq_ok_iff.mp shown).1 idle
  rw [wrote] at tried
  rw [tryFrom, Coder.tryFrom, Plan.bind_eq, Plan.run_bind, Plan.bind_eq, Plan.run_bind, tried]
  change (editor.publish mailbox (editor.written command view.record)).run _ _ = _
  rw [Plan.run_unhooked (publish_unhooked [] _), published, commit, Editor.edited, base]

theorem run_update_won (facing : Facing editor rival) (order : store.InOrder editor.codec mailbox state)
    (command : Command) {rivals : List Command} (more : rivals.length < editor.attempts)
    (few : upcoming (state.map Versioned.version) + rivals.length + 1 ≤ store.limit) :
    ∃ version last, (editor.update mailbox command).run (Contested.answer rival Store.answer) ⟨store, rivals, 0⟩ =
        (.ok ⟨mailbox, version, Diff.between (rivals.foldl Acl.apply (Versioned.list state))
          ((rivals.foldl Acl.apply (Versioned.list state)).apply command)⟩, ⟨last, [], rivals.length⟩) ∧
      version.toNat = upcoming (state.map Versioned.version) + rivals.length ∧
      last.InOrder editor.codec mailbox
        (some ⟨(rivals.foldl Acl.apply (Versioned.list state)).apply command, version⟩) := by
  have within := few.trans store.limit_le
  rcases Nat.exists_eq_add_of_lt more with ⟨left, attempts⟩
  rcases run_update_lost facing order command rivals [] (left + 1) attempts (by omega) with
    ⟨after, lost, limit, ordered⟩
  have number : upcoming ((Versioned.replay state rivals).map Versioned.version) = _ :=
    Versioned.upcoming_replay (by omega)
  rcases run_update_free facing ordered command left (1 + rivals.length) rivals.length (by omega) with
    ⟨version, last, ran, version_eq, final⟩
  rw [List.append_nil] at lost
  rw [lost, ran]
  rw [Versioned.list_replay] at final ⊢
  exact ⟨version, last, rfl, version_eq.trans number, final⟩

theorem run_update_exhausted (facing : Facing editor rival) (order : store.InOrder editor.codec mailbox state)
    (command : Command) {rivals : List Command} (allowed : 0 < editor.attempts)
    (enough : editor.attempts ≤ rivals.length)
    (few : upcoming (state.map Versioned.version) + editor.attempts ≤ store.limit) :
    ∃ version last, (editor.update mailbox command).run (Contested.answer rival Store.answer) ⟨store, rivals, 0⟩ =
        (.error (.retriesExhausted mailbox editor.attempts),
          ⟨last, rivals.drop editor.attempts, editor.attempts⟩) ∧
      version.toNat + 1 = upcoming (state.map Versioned.version) + editor.attempts ∧
      last.InOrder editor.codec mailbox
        (some ⟨(rivals.take editor.attempts).foldl Acl.apply (Versioned.list state), version⟩) := by
  have within := few.trans store.limit_le
  have length : (rivals.take editor.attempts).length = editor.attempts := List.length_take_of_le enough
  rcases run_update_lost facing order command (rivals.take editor.attempts) (rivals.drop editor.attempts) 0
    length.symm (by omega) with ⟨last, lost, -, ordered⟩
  rw [List.take_append_drop, length] at lost
  have number : upcoming ((Versioned.replay state (rivals.take editor.attempts)).map Versioned.version) = _ :=
    Versioned.upcoming_replay (by omega)
  have list := Versioned.list_replay state (rivals.take editor.attempts)
  rw [length] at number
  -- there is a record, for at least one rival got in
  cases left : Versioned.replay state (rivals.take editor.attempts) with
  | none =>
      rw [left, Option.map_none, upcoming] at number
      omega
  | some current =>
      rw [left] at number list ordered
      refine ⟨current.version, last, lost, number, ?_⟩
      rw [← list]
      exact ordered

end Attempt

theorem make_cases {config : Config} {codec : Codec} (made : make config codec = .ok editor) :
    editor.codec = codec ∧ editor.config.validate = .ok () := by
  unfold make at made
  cases valid : config.validate with
  | error e =>
      rw [valid] at made
      cases made
  | ok done =>
      rw [valid] at made
      cases made
      exact ⟨rfl, valid⟩

end Editor

theorem Store.attempts_le_limit (store : Store) (editor : Editor) : editor.attempts ≤ store.limit := by
  have small : editor.attempts < 2 ^ 32 := editor.config.maxRetries.toNat_lt
  cases store with
  | memory memory => exact small.le.trans (by decide : 2 ^ 32 ≤ 2 ^ 64)
  | database db => exact small.le.trans (by decide : 2 ^ 32 ≤ Database.versionLimit)

/-- How an update ends that rivals with these commands have got ahead of, where `start` is what the mailbox held at
first: what it has returned, how many of them got in, and the store that is left. -/
structure Contended (editor : Editor) (mailbox : MailboxId) (command : Command) (rivals : List Command)
    (start : Option Versioned) (outcome : Except AccessError Commit × Nat × Store) : Prop where
  /-- Each rival costs one attempt, and then the update finds the list as they have left it. -/
  wins : rivals.length < editor.attempts → ∃ version last,
    outcome = (.ok ⟨mailbox, version, Diff.between (rivals.foldl Acl.apply (Versioned.list start))
      ((rivals.foldl Acl.apply (Versioned.list start)).apply command)⟩, rivals.length, last) ∧
    version.toNat = upcoming (start.map Versioned.version) + rivals.length ∧
    last.InOrder .json mailbox (some ⟨(rivals.foldl Acl.apply (Versioned.list start)).apply command, version⟩)
  /-- As many rivals as there are attempts get in, the last one of them included, and the update does not. -/
  loses : editor.attempts ≤ rivals.length → ∃ version last,
    outcome = (.error (.retriesExhausted mailbox editor.attempts), editor.attempts, last) ∧
    version.toNat + 1 = upcoming (start.map Versioned.version) + editor.attempts ∧
    last.InOrder .json mailbox
      (some ⟨(rivals.take editor.attempts).foldl Acl.apply (Versioned.list start), version⟩)

theorem Contested.update_of_run {editor : Editor} {mailbox : MailboxId} {command : Command} {rivals : List Command}
    {store : Store} {result : Except AccessError Commit} {state : Contested Store}
    (ran : (Editor.update { editor with hooked := true } mailbox command).run
      (answer { editor with hooked := false } Store.answer) ⟨store, rivals, 0⟩ = (result, state)) :
    update editor Store.answer mailbox command rivals store = (result, state.injected, state.world) := by
  rw [update, ran]

theorem contested_update {config : Config} {editor : Editor} {mailbox : MailboxId} {store : Store}
    {start : Option Versioned} {rivals : List Command} (made : Editor.make config .json = .ok editor)
    (order : store.InOrder .json mailbox start)
    (room : ∀ current, start = some current →
      current.version.toNat + min (rivals.length + 1) editor.attempts < store.limit) (command : Command) :
    Contended editor mailbox command rivals start
      (Contested.update editor Store.answer mailbox command rivals store) := by
  rcases Editor.make_cases made with ⟨format, valid⟩
  have allowed : 0 < editor.attempts := Editor.attempts_pos valid
  have facing : Editor.Facing { editor with hooked := true } { editor with hooked := false } :=
    ⟨rfl, rfl, allowed, fun acl => format.symm ▸ trivial⟩
  have few : upcoming (start.map Versioned.version) + min (rivals.length + 1) editor.attempts ≤ store.limit := by
    cases start with
    | none => exact (Nat.zero_add _).trans_le ((Nat.min_le_right _ _).trans (store.attempts_le_limit editor))
    | some current =>
        have far := room current rfl
        simp only [Option.map_some, upcoming]
        omega
  rw [← format] at order
  constructor
  case wins =>
    intro more
    rcases Editor.run_update_won facing order command more (by omega) with ⟨version, last, ran, number, ordered⟩
    rw [Contested.update_of_run ran]
    exact ⟨version, last, rfl, number, format ▸ ordered⟩
  case loses =>
    intro enough
    rw [Nat.min_eq_right (Nat.le_succ_of_le enough)] at few
    rcases Editor.run_update_exhausted facing order command allowed enough few with
      ⟨version, last, ran, number, ordered⟩
    rw [Contested.update_of_run ran]
    exact ⟨version, last, rfl, number, format ▸ ordered⟩

def twiceEditor : Editor := ⟨⟨2⟩, .json, false, 0⟩

def dropReader : Command := ⟨.anyone, .remove, .only .lookup⟩

theorem contested_update_of_readerStore :
    (Contested.update twiceEditor Store.answer sampleMailbox giveOwner [dropReader] readerStore).2.1 = 1 ∧
      Contended twiceEditor sampleMailbox giveOwner [dropReader] (some ⟨readerList, 0⟩)
        (Contested.update twiceEditor Store.answer sampleMailbox giveOwner [dropReader] readerStore) ∧
      (Contested.update twiceEditor Store.answer sampleMailbox giveOwner [dropReader, addReader] readerStore).2.1 = 2 ∧
      Contended twiceEditor sampleMailbox giveOwner [dropReader, addReader] (some ⟨readerList, 0⟩)
        (Contested.update twiceEditor Store.answer sampleMailbox giveOwner [dropReader, addReader] readerStore) := by
  have made : Editor.make ⟨2⟩ .json = .ok twiceEditor := rfl
  have order : readerStore.InOrder .json sampleMailbox (some ⟨readerList, 0⟩) :=
    ⟨readerView, by decide +kernel, Codec.versioned_encode trivial (List.Subset.refl _), rfl⟩
  have limit : readerStore.limit = 2 ^ 64 := Plan.limit_run _ _
  refine ⟨by decide +kernel, contested_update made order ?_ giveOwner, by decide +kernel,
    contested_update made order ?_ giveOwner⟩
  all_goals
    intro current same
    cases same
    rw [limit]
    decide

end MailboxAccess
