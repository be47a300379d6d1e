import MailboxAccess.Proofs.CrashSafety

/-!
What a later update makes of a row that an earlier one has left behind. Rows follow the difference that an
update makes to the list, so the row is written just when the entry changes (`row_healed_iff`).
-/
namespace MailboxAccess

theorem Mode.edit_edit (mode : Mode) (old given : Rights) :
    mode.edit (mode.edit old given) given = mode.edit old given := by
  apply Rights.ext_contains
  intro right
  cases mode with
  | add => simp [edit, Rights.contains_union]
  | remove => simp [edit, Rights.contains_except]
  | replace => rfl

variable {mailbox : MailboxId} {editor : Editor} {command : Command} {view : View} {start : Option Versioned}

theorem Editor.get?_foldl_follows (decoded : editor.codec.versioned view.record = .ok start) (key : EntryKey) :
    ((editor.follows command view).foldl Index.written view.rows).get? key =
      if (Versioned.list start).get? key = ((Versioned.list start).apply command).get? key then view.rows.get? key
      else ((Versioned.list start).apply command).get? key := by
  have base : editor.base view.record = Versioned.list start := Codec.listOf_eq decoded
  have legible : (editor.written command view.record).corrupt = false :=
    written_of_legible ⟨start, decoded, List.Subset.refl _⟩
  have follows : editor.follows command view =
      (Diff.between (Versioned.list start) ((Versioned.list start).apply command)).changes := by
    rw [Editor.follows, legible, edited, base]
    rfl
  have granted : ∀ change ∈ (Diff.between (Versioned.list start) ((Versioned.list start).apply command)).changes,
      change.new = ((Versioned.list start).apply command).get? change.key :=
    fun change => Diff.new_eq_of_mem
  rw [follows, Index.get?_foldl_written granted]
  by_cases same : (Versioned.list start).get? key = ((Versioned.list start).apply command).get? key
  · rw [if_pos same, if_neg fun changed => Diff.exists_change_iff.mp changed same]
  · rw [if_neg same, if_pos (Diff.exists_change_iff.mpr same)]

theorem Task.update_throughout (decoded : editor.codec.versioned view.record = .ok start)
    (carried : editor.codec.Carries ((Versioned.list start).apply command).keys) :
    (Task.update editor mailbox command).plan.Throughout mailbox (fun _ => True)
      (fun now _ => editor.codec.versioned now.record = .ok (Versioned.edit start command) ∧
        ∀ key, now.rows.get? key =
          if (Versioned.list start).get? key = ((Versioned.list start).apply command).get? key then view.rows.get? key
          else ((Versioned.list start).apply command).get? key) view := by
  have base : editor.base view.record = Versioned.list start := Codec.listOf_eq decoded
  refine (Editor.update_throughout.mono (fun _ _ => trivial) fun _ _ both => both.2).bind ?_
  intro now _ _ done
  subst done
  refine ⟨trivial, ?_, Editor.get?_foldl_follows decoded⟩
  rw [Versioned.edit_eq command decoded, Editor.stored, Editor.edited, base]
  exact Codec.versioned_encode carried (List.Subset.refl _)

/-- How the row of an update's key stands after a later update of the same key: `stale` and `final` are what is
held before and after the later one, and `before` and `after` what their records stand for. -/
structure Healed (first later : Command) (start before after : Option Versioned) (stale final : View) : Prop where
  /-- The first update was stored or was not, and its row was written or was not. -/
  stored : before = Versioned.edit start first ∨ before = start
  row : stale.rows.get? first.key = (Versioned.list start).get? first.key ∨
    stale.rows.get? first.key = (Versioned.list before).get? first.key
  edited : after = Versioned.edit before later
  /-- The row is in order just in case it was so already, or the later update changes what the key is granted. -/
  healed_iff : final.rows.get? first.key = (Versioned.list after).get? first.key ↔
    stale.rows.get? first.key = (Versioned.list before).get? first.key ∨
      later.mode.edit ((Versioned.list before).rightsOf first.key) later.rights ≠
        (Versioned.list before).rightsOf first.key
  /-- The same command once more leaves the row as it was. -/
  retried : later = first → before = Versioned.edit start first →
    final.rows.get? first.key = stale.rows.get? first.key
  /-- All other rows are in order. -/
  elsewhere : ∀ key, key ≠ first.key → final.rows.get? key = (Versioned.list after).get? key

theorem Acl.get?_apply_iff (acl : Acl) (command : Command) :
    acl.get? command.key = (acl.apply command).get? command.key ↔
      command.mode.edit (acl.rightsOf command.key) command.rights = acl.rightsOf command.key := by
  rw [get?_eq_iff, rightsOf_apply, if_pos rfl, eq_comm]

theorem healed_of_rows {first later : Command} {before : Option Versioned} {stale final : View}
    (stored : before = Versioned.edit start first ∨ before = start)
    (row : ∀ key, stale.rows.get? key = (Versioned.list start).get? key ∨
      stale.rows.get? key = (Versioned.list before).get? key)
    (others : ∀ key, key ≠ first.key → stale.rows.get? key = (Versioned.list before).get? key)
    (same : later.key = first.key)
    (synced : ∀ key, final.rows.get? key =
      if (Versioned.list before).get? key = ((Versioned.list before).apply later).get? key then stale.rows.get? key
      else ((Versioned.list before).apply later).get? key) :
    Healed first later start before (Versioned.edit before later) stale final := by
  have unchanged_iff := Acl.get?_apply_iff (Versioned.list before) later
  rw [same] at unchanged_iff
  constructor
  case stored => exact stored
  case row => exact row first.key
  case edited => rfl
  case healed_iff =>
    rw [Versioned.list_edit, synced, Ne, ← unchanged_iff]
    split
    · next unchanged => simp [unchanged]
    · next changed => simp [changed]
  case retried =>
    intro again committed
    -- the edit was made already, so it finds nothing to change
    have list : Versioned.list before = (Versioned.list start).apply first := by rw [committed, Versioned.list_edit]
    have unchanged : first.mode.edit ((Versioned.list before).rightsOf first.key) first.rights =
        (Versioned.list before).rightsOf first.key := by
      rw [list, Acl.rightsOf_apply, if_pos rfl, Mode.edit_edit]
    subst again
    rw [synced, if_pos (unchanged_iff.mpr unchanged)]
  case elsewhere =>
    intro key other
    have kept : (Versioned.list before).get? key = ((Versioned.list before).apply later).get? key := by
      rw [Acl.apply, Acl.get?_withEntry, if_neg (same ▸ other)]
    rw [Versioned.list_edit, synced, if_pos kept, others key other, kept]

/-- An update stops or fails anywhere after rows and list were the same, and a later update of the same key
succeeds. Both run without another writer. -/
theorem row_healed_iff {store : Store} {turns turns' : List Turn} {history history' : List Happening}
    {cut last : Race Outcome} {other : Editor} {later : Command} {outcome : Outcome}
    (shown : store.view? mailbox = .ok view) (decoded : editor.codec.versioned view.record = .ok start)
    (rows : view.rows = (Versioned.list start).table)
    (carried : editor.codec.Carries (command.key :: (Versioned.list start).keys))
    (ran : (Race.start store [.update editor mailbox command]).run turns = (history, cut))
    (format : other.codec = editor.codec) (same : later.key = command.key)
    (ran' : (Race.start cut.store [.update other mailbox later]).run turns' = (history', last))
    (done : last.result? 0 = some (.ok outcome)) :
    ∃ before after stale final, cut.store.view? mailbox = .ok stale ∧ last.store.view? mailbox = .ok final ∧
      editor.codec.versioned stale.record = .ok before ∧ editor.codec.versioned final.record = .ok after ∧
      Healed command later start before after stale final := by
  have carries (acl : Acl) (within : acl.keys ⊆ command.key :: (Versioned.list start).keys) :
      editor.codec.Carries acl.keys := Codec.carries_of_subset carried acl.nodup_keys within
  have first : editor.codec.Carries (Versioned.list (Versioned.edit start command)).keys := by
    rw [Versioned.list_edit]
    exact carries _ (Acl.keys_apply _ _)
  have stops : (Task.update editor mailbox command).plan.Throughout mailbox
      (fun now => ∃ state, Interrupted (.update editor mailbox command) start view now state) (fun _ _ => True) view :=
    Task.plan_throughout
      (show (Task.update editor mailbox command).editor.codec.versioned _ = _ from decoded) rows first
  rcases Race.throughout_of_run stops shown ran with ⟨stale, held, ⟨before, interrupted⟩, -⟩
  have stored : before = Versioned.edit start command ∨ before = start := by
    rcases interrupted.either with ⟨-, unchanged⟩ | ⟨acl, version, applied, now, -⟩
    · exact .inr unchanged
    · exact .inl (now.trans applied.symm)
  have within : (Versioned.list before).keys ⊆ command.key :: (Versioned.list start).keys := by
    rcases stored with rfl | rfl
    · rw [Versioned.list_edit]
      exact Acl.keys_apply _ _
    · exact List.subset_cons_self _ _
  have second : other.codec.Carries ((Versioned.list before).apply later).keys := by
    rw [format]
    refine carries _ ?_
    intro key member
    rcases List.mem_cons.mp (Acl.keys_apply _ _ member) with touched | old
    · exact List.mem_cons.mpr (.inl (touched.trans same))
    · exact within old
  have readable : other.codec.versioned stale.record = .ok before := format ▸ interrupted.decoded
  rcases Race.throughout_of_run (Task.update_throughout readable second) held ran' with ⟨final, held', -, finished⟩
  rcases finished outcome done with ⟨decoded', synced⟩
  exact ⟨before, _, stale, final, held, held', interrupted.decoded, format ▸ decoded',
    healed_of_rows stored interrupted.row (interrupted.elsewhere command rfl) same synced⟩

def unwrittenRun : List Happening × Race Outcome :=
  (Race.start Store.inMemory [.update sampleEditor sampleMailbox addReader]).run
    [.act 0, .act 0, .fault 0 .database]

def retriedRun : List Happening × Race Outcome :=
  (Race.start unwrittenRun.2.store [.update sampleEditor sampleMailbox addReader]).run [.act 0, .act 0, .act 0]

def readerList : Acl := Acl.empty.apply addReader

theorem row_healed_iff_of_retriedRun :
    retriedRun.2.result? 0 = some (.ok (.committed ⟨sampleMailbox, 1, Diff.between readerList readerList⟩)) ∧
      ∃ before after stale final, unwrittenRun.2.store.view? sampleMailbox = .ok stale ∧
        retriedRun.2.store.view? sampleMailbox = .ok final ∧
        sampleEditor.codec.versioned stale.record = .ok before ∧
        sampleEditor.codec.versioned final.record = .ok after ∧
        Healed addReader addReader none before after stale final := by
  have shown : Store.inMemory.view? sampleMailbox = .ok View.blank := rfl
  have decoded : sampleEditor.codec.versioned View.blank.record = .ok none := rfl
  have carried : sampleEditor.codec.Carries (addReader.key :: (Versioned.list none).keys) := trivial
  have done : retriedRun.2.result? 0 =
      some (.ok (.committed ⟨sampleMailbox, 1, Diff.between readerList readerList⟩)) := by decide +kernel
  exact ⟨done, row_healed_iff shown decoded rfl carried (show _ = (unwrittenRun.1, unwrittenRun.2) from rfl) rfl rfl
    (show _ = (retriedRun.1, retriedRun.2) from rfl) done⟩

/-- The update that is made again succeeds and finds nothing to change, and the row is still missing. -/
theorem row_left_stale :
    unwrittenRun.2.result? 0 = some (.error (.store .database)) ∧
      unwrittenRun.2.store.view? sampleMailbox = .ok ⟨some ⟨Codec.json.encode readerList, 0⟩, SortedMap.empty⟩ ∧
      retriedRun.2.result? 0 = some (.ok (.committed ⟨sampleMailbox, 1, Diff.between readerList readerList⟩)) ∧
      retriedRun.2.store.view? sampleMailbox = .ok ⟨some ⟨Codec.json.encode readerList, 1⟩, SortedMap.empty⟩ ∧
      readerList.get? .anyone = some (.only .lookup) := by
  exact ⟨by decide +kernel, by decide +kernel, by decide +kernel, by decide +kernel, by decide +kernel⟩

end MailboxAccess
