import MailboxAccess.Proofs.CrashSafety
import MailboxAccess.Proofs.Store.Limits

/-!
An update of a record, run to its end on a store that nobody else writes to. Its one conditional write decides: a
version that the store cannot hold ends it and leaves the store (`Editor.update_refused`), and otherwise the list is
stored and the rows follow (`Editor.update_stored`, `Editor.update_committed`). An attempt whose record has moved on in
the meantime changes nothing (`Editor.run_tryWrite`).
-/
namespace MailboxAccess

variable {store : Store} {mailbox : MailboxId} {record : Record}

theorem Store.execute_read {seen : Option Record} (shown : store.look (.read mailbox) = .ok seen) :
    store.execute (.read mailbox) = .ok (seen, store) := by
  rcases execute_of_look shown with ⟨next, done⟩
  rwa [eq_of_looks done trivial] at done

theorem Store.view_after {view : View} {request : Request} {reply : request.Reply} {next : Store}
    (shown : store.view? mailbox = .ok view) (done : store.execute request = .ok (reply, next)) :
    view.Allows mailbox request reply ∧ next.view? mailbox = .ok (view.after mailbox request reply) := by
  rcases view_eq_ok_iff.mp shown with ⟨read, listed⟩
  have answered : (store.viewOf mailbox).Allows mailbox request reply ∧
      next.viewOf mailbox = (store.viewOf mailbox).after mailbox request reply := execute_view done
  rw [viewOf_eq shown] at answered
  refine ⟨answered.1, ?_⟩
  rw [view_eq_ok_iff, ← answered.2]
  exact ⟨read_after read done, list_after listed done⟩

theorem Plan.run_ask {request : Request} {reply : request.Reply} {next : Store}
    (done : store.execute request = .ok (reply, next)) :
    (Plan.ask request).run Store.answer store = (.ok reply, next) := by
  simp only [ask, run, Store.answer, done]

theorem Plan.run_ask_refused {request : Request} {e : StoreError} (refused : store.execute request = .error e) :
    (Plan.ask request).run Store.answer store = (.error (.store e), store) := by
  simp only [ask, run, Store.answer, refused]

theorem Plan.run_read {seen : Option Record} (shown : store.look (.read mailbox) = .ok seen) :
    (Plan.ask (.read mailbox)).run Store.answer store = (.ok seen, store) := run_ask (Store.execute_read shown)

theorem Plan.limit_run {α : Type} (plan : Plan α) (store : Store) :
    (plan.run Store.answer store).2.limit = store.limit := by
  induction plan generalizing store with
  | done result => rfl
  | call c next ih =>
      refine (ih _ _).trans ?_
      rcases (Turn.act 0).answer_cases c store with ⟨same, -⟩ | ⟨request, reply, done, -⟩
      · exact congrArg Store.limit same
      · exact Store.limit_execute done

theorem Plan.run_alike {α : Type} {plan : Plan α} {past : List Exchange} {place : MailboxId}
    {post : List Exchange → Except AccessError α → Prop}
    (meets : plan.Meets (fun _ => True) (fun _ x => x.call.About mailbox) post past) (apart : mailbox ≠ place)
    (store : Store) : Store.Alike place (plan.run Store.answer store).2 store := by
  induction plan generalizing past store with
  | done result => exact .refl place store
  | call c next ih =>
      rcases meets (Store.answer c store).1 trivial with ⟨about, onward⟩
      exact (ih _ onward _).trans ((Turn.act 0).answer_alike about apart)

namespace Editor

variable {editor : Editor} {command : Command}

theorem attempts_pos (made : editor.config.validate = .ok ()) : 0 < editor.attempts := by
  rw [Config.validate] at made
  split at made
  · cases made
  · next some =>
      rw [attempts, Nat.pos_iff_ne_zero]
      exact fun none => some (UInt32.toNat_inj.mp none)

theorem run_beforeWrite (attempt : Nat) :
    (editor.beforeWrite mailbox attempt).run Store.answer store = (.ok (), store) := by
  unfold beforeWrite
  split
  · rfl
  · rfl

theorem run_announce (commit : Commit) (listeners : List Nat) :
    (announce commit listeners).run Store.answer store = (.ok (), store) := by
  induction listeners with
  | nil => rfl
  | cons listener listeners ih => exact ih

theorem run_getVersioned {seen : Option Record} (shown : store.look (.read mailbox) = .ok seen) :
    (editor.getVersioned mailbox).run Store.answer store = (.ok (editor.found seen), store) := by
  rw [getVersioned_eq, Plan.bind_eq, Plan.run_bind, Plan.run_read shown]
  rfl

theorem run_get {seen : Option Record} (shown : store.look (.read mailbox) = .ok seen) :
    (editor.get mailbox).run Store.answer store = (.ok (editor.base seen), store) := by
  rw [get, Plan.bind_eq, Plan.run_bind, run_getVersioned shown]
  cases seen <;> rfl

theorem run_write (request : Request) (won : request.Reply → Bool) (written : Written) {reply : request.Reply}
    {next : Store} (done : store.execute request = .ok (reply, next)) :
    (Plan.ask request >>= fun reply => pure (if won reply then some written else none)).run Store.answer store =
      (.ok (if won reply then some written else none), next) := by
  rw [Plan.bind_eq, Plan.run_bind, Plan.run_ask done]
  rfl

theorem run_write_refused (request : Request) (won : request.Reply → Bool) (written : Written) {e : StoreError}
    (refused : store.execute request = .error e) :
    (Plan.ask request >>= fun reply => pure (if won reply then some written else none)).run Store.answer store =
      (.error (.store e), store) := by
  rw [Plan.bind_eq, Plan.run_bind, Plan.run_ask_refused refused]

def tryWrite (editor : Editor) (mailbox : MailboxId) (command : Command) (seen : Option Record) :
    Plan (Option Written) :=
  match seen with
  | none => do
    let created : Bool ← Plan.ask (.insert mailbox (editor.codec.encode (editor.edited command none)))
    return if created then some (editor.written command none) else none
  | some record => do
    let swapped : Bool ← Plan.ask (.swap mailbox (editor.codec.encode (editor.edited command (some record)))
      (record.version + 1) record.version)
    return if swapped then some (editor.written command (some record)) else none

theorem tryOnce_eq (attempt : Nat) :
    editor.tryOnce mailbox command attempt = Plan.ask (.read mailbox) >>= fun seen =>
      editor.beforeWrite mailbox attempt >>= fun _ => editor.tryWrite mailbox command seen := by
  unfold tryOnce Coder.tryOnce
  congr 1
  funext seen
  cases seen <;> rfl

theorem run_tryOnce {seen : Option Record} (shown : store.look (.read mailbox) = .ok seen) (attempt : Nat) :
    (editor.tryOnce mailbox command attempt).run Store.answer store =
      (editor.tryWrite mailbox command seen).run Store.answer store := by
  rw [tryOnce_eq, Plan.bind_eq, Plan.run_bind, Plan.run_read shown]
  change ((editor.beforeWrite mailbox attempt).bind _).run Store.answer store = _
  rw [Plan.run_bind, run_beforeWrite]

theorem toNat_next (small : record.version.toNat + 1 < 2 ^ 64) :
    (record.version + 1).toNat = record.version.toNat + 1 := by
  rw [UInt64.toNat_add]
  exact Nat.mod_eq_of_lt small

theorem update_refused (allowed : 0 < editor.attempts) (shown : store.look (.read mailbox) = .ok (some record))
    (small : record.version.toNat + 1 < 2 ^ 64) (large : store.limit ≤ record.version.toNat + 1) :
    (editor.update mailbox command).run Store.answer store =
      (.error (.store (.outOfRange (record.version.toNat + 1))), store) := by
  have number := toNat_next small
  rw [← number] at large ⊢
  have tried : (editor.tryOnce mailbox command 1).run Store.answer store =
      (.error (.store (.outOfRange (record.version + 1).toNat)), store) := by
    rw [run_tryOnce shown]
    exact run_write_refused (.swap mailbox _ _ _) (fun swapped => swapped) _ (Store.swap_out_of_range large)
  rcases Nat.exists_eq_succ_of_ne_zero (Nat.ne_of_gt allowed) with ⟨left, attempts⟩
  rw [update, Coder.update, Plan.bind_eq, Plan.run_bind, attempts, Coder.tryFrom, Plan.bind_eq, Plan.run_bind, tried]

/-- The version that the record had when it was shown, and the one that is to follow it, can be stored. -/
def Room (store : Store) (seen : Option Record) : Prop :=
  ∀ record, seen = some record → record.version.toNat + 1 < store.limit

theorem run_tryWrite (editor : Editor) {view : View} {seen : Option Record} (command : Command)
    (shown : store.view? mailbox = .ok view) (room : Room store seen) :
    ∃ won next, (won = true ↔ view.record.map Record.version = seen.map Record.version) ∧
      (editor.tryWrite mailbox command seen).run Store.answer store =
        (.ok (if won then some (editor.written command seen) else none), next) ∧
      next.view? mailbox = .ok (if won then
          ⟨some ⟨editor.codec.encode (editor.edited command seen), nextVersion seen⟩, view.rows⟩
        else view) := by
  have read := (Store.view_eq_ok_iff.mp shown).1
  cases seen with
  | none =>
      rcases Store.execute_insert read with ⟨created, next, done⟩
      rcases Store.view_after shown done with ⟨allowed, after⟩
      have told : created = view.record.isNone := allowed rfl
      refine ⟨created, next, ?_, run_write (.insert mailbox _) (fun created => created) _ done, ?_⟩
      · rw [told, Option.map_none, Option.map_eq_none_iff]
        exact Option.isNone_iff_eq_none
      · rw [after]
        cases created <;> simp [View.after, Request.stored?, View.rowsAfter, nextVersion]
  | some record =>
      have small := room record rfl
      have known : record.version.toNat < store.limit := Nat.lt_of_succ_lt small
      rw [← toNat_next (Nat.lt_of_lt_of_le small store.limit_le)] at small
      rcases Store.execute_swap read small known with ⟨swapped, next, done⟩
      rcases Store.view_after shown done with ⟨allowed, after⟩
      have told : swapped = decide (view.record.map Record.version = some record.version) := allowed rfl
      refine ⟨swapped, next, ?_, run_write (.swap mailbox _ _ _) (fun swapped => swapped) _ done, ?_⟩
      · rw [told]
        exact decide_eq_true_iff
      · rw [after]
        cases swapped <;> simp [View.after, Request.stored?, View.rowsAfter, nextVersion]

theorem run_tryFrom {view : View} (command : Command) (allowed : 0 < editor.attempts)
    (shown : store.view? mailbox = .ok view) (room : Room store view.record) :
    ∃ next, (editor.tryFrom mailbox command editor.attempts 1).run Store.answer store =
        (.ok (editor.written command view.record), next) ∧
      next.view? mailbox = .ok (editor.stored command view) := by
  rcases editor.run_tryWrite command shown room with ⟨won, next, decided, wrote, after⟩
  cases decided.mpr rfl
  refine ⟨next, ?_, after⟩
  rcases Nat.exists_eq_succ_of_ne_zero (Nat.ne_of_gt allowed) with ⟨left, attempts⟩
  rw [attempts, tryFrom, Coder.tryFrom, Plan.bind_eq, Plan.run_bind, run_tryOnce (Store.view_eq_ok_iff.mp shown).1,
    wrote]
  rfl

def publish (editor : Editor) (mailbox : MailboxId) (written : Written) : Plan Commit := do
  let diff := Diff.between written.old written.new
  editor.syncIndex mailbox written diff
  let commit : Commit := ⟨mailbox, written.version, diff⟩
  announce commit (List.range editor.listeners)
  return commit

theorem update_eq :
    editor.update mailbox command = editor.tryFrom mailbox command editor.attempts 1 >>= editor.publish mailbox := rfl

theorem run_publish (editor : Editor) {view : View} (command : Command)
    (shown : store.view? mailbox = .ok (editor.stored command view)) :
    ∃ last, (editor.publish mailbox (editor.written command view.record)).run Store.answer store =
        (.ok (editor.commit mailbox command view.record), last) ∧
      last.view? mailbox =
        .ok ⟨(editor.stored command view).record, (editor.follows command view).foldl Index.written view.rows⟩ := by
  have nothing : ∀ x ∈ ([] : List Exchange), ¬ x.Failed := fun _ member => absurd member List.not_mem_nil
  rcases Plan.run_upkeep (editor.coder.syncIndex_meets editor _ _ []) nothing syncIndex_throughout shown with
    ⟨done, last, final, synced, held, same⟩
  refine ⟨last, ?_, same ▸ held⟩
  change ((editor.syncIndex mailbox _ (Diff.between (editor.base view.record)
    (editor.edited command view.record))).bind _).run Store.answer store = _
  rw [Plan.run_bind, synced]
  change ((announce _ _).bind _).run Store.answer last = _
  rw [Plan.run_bind, run_announce]
  rfl

/-- An update whose next version can be stored is a commit, and the rows follow it. -/
theorem update_stored {view : View} (command : Command) (allowed : 0 < editor.attempts)
    (shown : store.view? mailbox = .ok view) (room : Room store view.record) :
    ∃ last, (editor.update mailbox command).run Store.answer store =
        (.ok (editor.commit mailbox command view.record), last) ∧
      last.view? mailbox =
        .ok ⟨(editor.stored command view).record, (editor.follows command view).foldl Index.written view.rows⟩ := by
  rcases run_tryFrom command allowed shown room with ⟨next, tried, after⟩
  rcases editor.run_publish command after with ⟨last, published, held⟩
  refine ⟨last, ?_, held⟩
  rw [update_eq, Plan.bind_eq, Plan.run_bind, tried]
  exact published

theorem update_committed {view : View} (command : Command) (allowed : 0 < editor.attempts)
    (shown : store.view? mailbox = .ok view) (present : view.record = some record)
    (room : record.version.toNat + 1 < store.limit) :
    ∃ last, (editor.update mailbox command).run Store.answer store =
        (.ok (editor.commit mailbox command view.record), last) ∧
      last.view? mailbox =
        .ok ⟨(editor.stored command view).record, (editor.follows command view).foldl Index.written view.rows⟩ := by
  refine update_stored command allowed shown ?_
  intro other held
  rw [present] at held
  cases held
  exact room

end Editor

end MailboxAccess
