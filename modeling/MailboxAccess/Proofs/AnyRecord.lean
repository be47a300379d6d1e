import MailboxAccess.Proofs.Editor.Run
import MailboxAccess.Proofs.Healing

namespace MailboxAccess

variable {editor : Editor} {mailbox : MailboxId} {command : Command} {record : Record} {view : View}

namespace Editor

theorem base_of_decoded {acl : Acl} (decoded : editor.decode? record.acl = some acl) :
    editor.base (some record) = acl := by
  change (editor.decode? record.acl).getD Acl.empty = acl
  rw [decoded, Option.getD_some]

theorem versioned_of_decoded {acl : Acl} (decoded : editor.decode? record.acl = some acl) :
    editor.codec.versioned (some record) = .ok (some ⟨acl, record.version⟩) := by
  have read : editor.codec.decode record.acl = .ok acl := Database.toOption_eq_some_iff.mp decoded
  rw [Codec.versioned, read]
  rfl

theorem rows_of_corrupt (present : view.record = some record) (corrupt : editor.decode? record.acl = none)
    (granting : ∀ key, view.rows.get? key ≠ some Rights.empty) :
    (editor.follows command view).foldl Index.written view.rows = (editor.edited command (some record)).table := by
  have told : (editor.written command view.record).corrupt = true := by
    rw [present, written, Option.any_some, corrupt]
    rfl
  rw [follows, if_pos told, present]
  exact Index.foldl_repairs_eq _ granting

theorem get?_rows_of_decoded (present : view.record = some record) (decoded : editor.decode? record.acl ≠ none)
    (key : EntryKey) :
    ((editor.follows command view).foldl Index.written view.rows).get? key =
      if (editor.base (some record)).get? key = (editor.edited command (some record)).get? key then
        view.rows.get? key
      else (editor.edited command (some record)).get? key := by
  rcases Option.ne_none_iff_exists'.mp decoded with ⟨acl, read⟩
  have stands : editor.codec.versioned view.record = .ok (some ⟨acl, record.version⟩) :=
    present ▸ versioned_of_decoded read
  rw [edited, base_of_decoded read]
  exact get?_foldl_follows stands key

end Editor

/-- What an update has made of a record that stood for `base`, and of the rows. -/
structure Follows (editor : Editor) (mailbox : MailboxId) (command : Command) (record : Record) (base : Acl)
    (view final : View) : Prop where
  /-- Bytes that are no list stand for the empty one. -/
  stands : base = (editor.decode? record.acl).getD Acl.empty
  stored : final.record = some ⟨editor.codec.encode (base.apply command), record.version + 1⟩
  number : (record.version + 1).toNat = record.version.toNat + 1
  rebuilt : editor.decode? record.acl = none → final.rows = (base.apply command).table
  others : editor.decode? record.acl ≠ none →
    ∀ key, key ≠ command.key → final.rows.get? key = view.rows.get? key
  synced : editor.decode? record.acl ≠ none → view.rows = base.table → final.rows = (base.apply command).table

theorem follows_of_update (present : view.record = some record) (small : record.version.toNat + 1 < 2 ^ 64)
    (granting : ∀ key, view.rows.get? key ≠ some Rights.empty) :
    Follows editor mailbox command record (editor.base (some record)) view
      ⟨(editor.stored command view).record, (editor.follows command view).foldl Index.written view.rows⟩ where
  stands := rfl
  stored := by
    rw [Editor.stored, present]
    rfl
  number := Editor.toNat_next small
  rebuilt corrupt := Editor.rows_of_corrupt present corrupt granting
  others decoded key other := by
    have kept : (editor.base (some record)).get? key = (editor.edited command (some record)).get? key := by
      rw [Editor.edited, Acl.apply, Acl.get?_withEntry, if_neg other]
    rw [Editor.get?_rows_of_decoded present decoded, if_pos kept]
  synced decoded same := by
    apply SortedMap.ext_get?
    intro key
    rw [Editor.get?_rows_of_decoded present decoded, same]
    split
    · next kept => exact kept
    · rfl

/-- Whatever bytes are stored, an update that has the store to itself commits at the next version what its command
makes of the list that a reader is given, and returns the difference of the two lists. A later reader is given the new
list if the format carries it. If the bytes are no list the rows become those of the new list, and if they are one at
most the row of the command's key changes. -/
theorem update_agrees_with_get {store : Store} (made : editor.config.validate = .ok ())
    (shown : store.view? mailbox = .ok view) (present : view.record = some record)
    (room : record.version.toNat + 1 < store.limit) (granting : ∀ key, view.rows.get? key ≠ some Rights.empty)
    (command : Command) :
    ∃ base last final,
      (editor.get mailbox).run Store.answer store = (.ok base, store) ∧
      (editor.update mailbox command).run Store.answer store =
        (.ok ⟨mailbox, record.version + 1, Diff.between base (base.apply command)⟩, last) ∧
      last.view? mailbox = .ok final ∧ Follows editor mailbox command record base view final ∧
      (editor.codec.Carries (base.apply command).keys →
        (editor.get mailbox).run Store.answer last = (.ok (base.apply command), last)) ∧
      ∀ place, place ≠ mailbox → Store.Alike place last store := by
  have read := (Store.view_eq_ok_iff.mp shown).1
  rw [present] at read
  rcases Editor.update_committed command (Editor.attempts_pos made) shown present room with ⟨last, ran, held⟩
  have follows : Follows editor mailbox command record (editor.base (some record)) view _ :=
    follows_of_update present (Nat.lt_of_lt_of_le room store.limit_le) granting
  refine ⟨_, last, _, Editor.run_get read, ?_, held, follows, ?_, ?_⟩
  · rw [ran, present]
    rfl
  · intro carried
    have later := (Store.view_eq_ok_iff.mp held).1
    rw [follows.stored] at later
    have list : editor.base (some ⟨editor.codec.encode ((editor.base (some record)).apply command),
        record.version + 1⟩) = (editor.base (some record)).apply command :=
      Codec.listOf_eq (Codec.versioned_encode carried (List.Subset.refl _))
    rw [Editor.run_get later, list]
  · intro place apart
    have meets : (editor.update mailbox command).Meets (fun _ => True) (fun _ x => x.call.About mailbox)
        (editor.Ends mailbox command) [] :=
      Editor.update_meets.mono (fun _ _ moves => moves.about) fun _ _ ends => ends
    have alike := Plan.run_alike meets apart.symm store
    rwa [ran] at alike

def corruptStore : Store :=
  .memory (((Memory.empty.putRecord sampleMailbox ⟨[0xff], 7⟩).putRow .owner sampleMailbox .full).putRow
    .authenticated sampleMailbox (.only .lookup))

def corruptView : View := ⟨some ⟨[0xff], 7⟩, sharedList.table⟩

theorem update_agrees_with_get_of_corruptStore :
    corruptStore.view? sampleMailbox = .ok corruptView ∧
      ∃ last final, (sampleEditor.update sampleMailbox addReader).run Store.answer corruptStore =
          (.ok ⟨sampleMailbox, 8, Diff.between Acl.empty (Acl.empty.apply addReader)⟩, last) ∧
        last.view? sampleMailbox = .ok final ∧ final.rows = (Acl.empty.apply addReader).table := by
  have shown : corruptStore.view? sampleMailbox = .ok corruptView := by decide +kernel
  have granting (key : EntryKey) : corruptView.rows.get? key ≠ some Rights.empty :=
    fun none => Acl.ne_empty_of_get? none rfl
  have corrupt : sampleEditor.decode? [0xff] = none := by decide +kernel
  have made : sampleEditor.config.validate = .ok () := rfl
  rcases update_agrees_with_get made shown rfl (by decide) granting addReader with
    ⟨base, last, final, -, ran, held, follows, -⟩
  have empty : base = Acl.empty := by
    rw [follows.stands, corrupt, Option.getD_none]
  subst empty
  exact ⟨shown, last, final, ran, held, follows.rebuilt corrupt⟩

end MailboxAccess
