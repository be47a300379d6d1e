import MailboxAccess.Proofs.Alone
import MailboxAccess.Proofs.Editor.Knowledge

namespace MailboxAccess.Editor

variable {editor : Editor} {mailbox : MailboxId} {command : Command} {view : View}

theorem getVersioned_alone :
    (editor.getVersioned mailbox).Alone mailbox view (editor.found view.record) view := by
  rw [getVersioned_eq]
  exact Plan.read_alone.bind (Plan.pure_alone _)

theorem settle_alone {synced : UInt64} (current : view.record.map Record.version = some synced) (rounds : Nat) :
    (editor.settle mailbox rounds synced).Alone mailbox view () view := by
  rcases Option.map_eq_some_iff.mp current with ⟨record, present, rfl⟩
  cases rounds with
  | zero => exact Plan.pure_alone ()
  | succ rounds =>
      refine getVersioned_alone.bind ?_
      rw [present]
      simp only [found_some, if_true]
      exact Plan.pure_alone ()

theorem beforeWrite_alone (attempt : Nat) : (editor.beforeWrite mailbox attempt).Alone mailbox view () view := by
  unfold beforeWrite
  split
  · exact Plan.pure_alone ()
  · exact Plan.pure_alone ()

theorem announce_alone (commit : Commit) (listeners : List Nat) :
    (announce commit listeners).Alone mailbox view () view := by
  induction listeners with
  | nil => exact Plan.pure_alone ()
  | cons listener listeners ih => exact ih

def stored (editor : Editor) (command : Command) (view : View) : View :=
  ⟨some ⟨editor.codec.encode (editor.edited command view.record), nextVersion view.record⟩, view.rows⟩

theorem tryOnce_alone (room : ∀ record, view.record = some record → record.version.toNat + 1 < 2 ^ 63)
    (attempt : Nat) :
    (editor.tryOnce mailbox command attempt).Alone mailbox view (some (editor.written command view.record))
      (editor.stored command view) := by
  refine Plan.read_alone.bind ?_
  unfold stored
  cases seen : view.record with
  | none => exact (beforeWrite_alone attempt).bind ((Plan.insert_alone seen _).bind (Plan.pure_alone _))
  | some record =>
      have next := room record seen
      have version : (nextVersion (some record)).toNat = record.version.toNat + 1 := by
        rw [nextVersion, UInt64.toNat_add]
        exact Nat.mod_eq_of_lt (by simp; omega)
      have storable (acl : Bytes) :
          (Request.swap mailbox acl (nextVersion (some record)) record.version).Storable := by
        rw [Request.Storable, version]
        omega
      exact (beforeWrite_alone attempt).bind ((Plan.swap_alone seen _ (storable _)).bind (Plan.pure_alone _))

theorem tryFrom_alone (room : ∀ record, view.record = some record → record.version.toNat + 1 < 2 ^ 63)
    {left : Nat} (allowed : 0 < left) (attempt : Nat) :
    (editor.tryFrom mailbox command left attempt).Alone mailbox view (editor.written command view.record)
      (editor.stored command view) := by
  cases left with
  | zero => exact absurd allowed (Nat.lt_irrefl 0)
  | succ left => exact (tryOnce_alone room attempt).bind (Plan.pure_alone _)

theorem update_alone (allowed : 0 < editor.attempts)
    (room : ∀ record, view.record = some record → record.version.toNat + 1 < 2 ^ 63)
    (legible : (editor.written command view.record).corrupt = false)
    (rows : view.rows = (editor.base view.record).table) :
    (editor.update mailbox command).Alone mailbox view (editor.commit mailbox command view.record)
      ⟨(editor.stored command view).record, (editor.edited command view.record).table⟩ := by
  have agree : ∀ key, (editor.base view.record).get? key = (editor.edited command view.record).get? key →
      (editor.stored command view).rows.get? key = (editor.edited command view.record).get? key := by
    intro key same
    rw [← same]
    exact congrArg (fun rows => rows.get? key) rows
  have synced : (editor.syncIndex mailbox (editor.written command view.record)
      (Diff.between (editor.base view.record) (editor.edited command view.record))).Alone mailbox
        (editor.stored command view) ()
        ⟨(editor.stored command view).record, (editor.edited command view.record).table⟩ := by
    rw [syncIndex, Coder.syncIndex, legible]
    exact (Index.applyDiff_alone agree).bind (settle_alone rfl _)
  exact (tryFrom_alone room allowed 1).bind (synced.bind ((announce_alone _ _).bind (Plan.pure_alone _)))

theorem reset_alone (acl : Acl) (granting : ∀ key, view.rows.get? key ≠ some Rights.empty) :
    (editor.reset mailbox acl).Alone mailbox view ()
      ⟨some ⟨editor.codec.encode acl, Record.firstVersion⟩, acl.table⟩ := by
  refine (Plan.overwrite_alone _).bind ?_
  refine Plan.Alone.bind (Index.repair_alone acl granting) ?_
  exact settle_alone rfl _

end MailboxAccess.Editor
