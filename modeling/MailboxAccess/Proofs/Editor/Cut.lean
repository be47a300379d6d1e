import MailboxAccess.Proofs.Cut
import MailboxAccess.Proofs.Editor.Alone

namespace MailboxAccess

variable {mailbox : MailboxId} {view : View}

namespace Index

/-- The record is in place, and the first of the changes have been made to the rows. -/
def Partway (record : Option Record) (rows : SortedMap EntryKey Rights) (changes : List Change) (now : View) : Prop :=
  now.record = record ∧ ∃ made, made <+: changes ∧ now.rows = made.foldl written rows

theorem partway_here (changes : List Change) : Partway view.record view.rows changes view :=
  ⟨rfl, [], List.nil_prefix, rfl⟩

theorem Partway.cons {record : Option Record} {rows : SortedMap EntryKey Rights} {change : Change}
    {changes : List Change} {now : View} (partway : Partway record (written rows change) changes now) :
    Partway record rows (change :: changes) now := by
  rcases partway with ⟨same, made, first, held⟩
  exact ⟨same, change :: made, List.prefix_cons_inj change |>.mpr first, held⟩

theorem applyChange_throughout (change : Change) :
    (applyChange mailbox change).Throughout mailbox
      (fun now => now = view ∨ now = ⟨view.record, written view.rows change⟩)
      (fun now _ => now = ⟨view.record, written view.rows change⟩) view := by
  have single (request : Request)
      (writes : ∀ reply, view.after mailbox request reply = ⟨view.record, written view.rows change⟩) :
      (Plan.ask request).Throughout mailbox
        (fun now => now = view ∨ now = ⟨view.record, written view.rows change⟩)
        (fun now _ => now = ⟨view.record, written view.rows change⟩) view :=
    Plan.Throughout.ask (Or.inl rfl) fun reply _ => ⟨Or.inr (writes reply), writes reply⟩
  unfold applyChange
  cases granted : change.new with
  | none =>
      apply single
      intro reply
      simp [View.after, Request.stored?, View.rowsAfter, written, granted]
  | some rights =>
      refine Plan.Throughout.ite ?_ ?_
      · intro none
        apply single (.delete change.key mailbox)
        intro reply
        simp [View.after, Request.stored?, View.rowsAfter, written, granted, none]
      · intro some
        apply single (.upsert change.key mailbox rights)
        intro reply
        simp [View.after, Request.stored?, View.rowsAfter, written, granted, some]

theorem applyChanges_throughout (changes : List Change) :
    (applyChanges mailbox changes).Throughout mailbox (Partway view.record view.rows changes)
      (fun now _ => now = ⟨view.record, changes.foldl written view.rows⟩) view := by
  induction changes generalizing view with
  | nil => exact ⟨partway_here [], rfl⟩
  | cons change changes ih =>
      refine Plan.Throughout.bind ((applyChange_throughout change).mono ?_ fun _ _ => id) ?_
      · intro now reached
        rcases reached with rfl | rfl
        · exact partway_here _
        · exact Partway.cons ⟨rfl, [], List.nil_prefix, rfl⟩
      · intro now _ _ same
        subst same
        exact ih.mono (fun _ => Partway.cons) fun _ _ => id

def repairs (rows : SortedMap EntryKey Rights) (acl : Acl) : List Change :=
  (Diff.between (Acl.ofEntries rows.entries) acl).changes

theorem repair_throughout (acl : Acl) :
    (repair mailbox acl).Throughout mailbox (Partway view.record view.rows (repairs view.rows acl))
      (fun now _ => now = ⟨view.record, (repairs view.rows acl).foldl written view.rows⟩) view := by
  have listed : (Plan.ask (.listMailbox mailbox)).Throughout mailbox
      (Partway view.record view.rows (repairs view.rows acl)) (fun now rows => now = view ∧ rows = view.rows) view := by
    refine Plan.Throughout.ask (partway_here _) ?_
    intro rows permitted
    exact ⟨partway_here _, rfl, permitted rfl⟩
  refine listed.bind ?_
  intro now rows _ same
  rcases same with ⟨rfl, rfl⟩
  refine (applyChanges_throughout _).bind ?_
  intro after _ reached done
  exact ⟨reached, done⟩

theorem Partway.row {record : Option Record} {old new : Acl} {now : View}
    (partway : Partway record old.table (Diff.between old new).changes now) (key : EntryKey) :
    now.rows.get? key = old.get? key ∨ now.rows.get? key = new.get? key := by
  rcases partway with ⟨-, made, first, held⟩
  have granted : ∀ change ∈ made, change.new = new.get? change.key :=
    fun change member => Diff.new_eq_of_mem (first.subset member)
  rw [held, get?_foldl_written granted]
  split
  · exact .inr rfl
  · exact .inl rfl

theorem repairs_table (old new : Acl) : repairs old.table new = (Diff.between old new).changes := by
  have same : Acl.ofEntries old.table.entries = old := Acl.ofEntries_entries old
  rw [repairs, same]

theorem foldl_repairs_eq (acl : Acl) {rows : SortedMap EntryKey Rights}
    (granting : ∀ key, rows.get? key ≠ some Rights.empty) : (repairs rows acl).foldl written rows = acl.table := by
  apply foldl_written_eq
  intro key unchanged
  rw [← unchanged, Acl.get?_ofEntries_table (granting key)]

end Index

namespace Editor

variable {editor : Editor} {command : Command}

theorem getVersioned_throughout :
    (editor.getVersioned mailbox).Throughout mailbox (fun now => now = view)
      (fun now found => now = view ∧ found = editor.found view.record) view := by
  have read : (Plan.ask (.read mailbox)).Throughout mailbox (fun now => now = view)
      (fun now seen => now = view ∧ seen = view.record) view :=
    ⟨rfl, by
      intro answer permitted
      cases answer with
      | ok seen => exact ⟨rfl, rfl, permitted rfl⟩
      | error e => exact rfl⟩
  rw [getVersioned_eq]
  refine read.bind ?_
  intro now seen _ same
  rcases same with ⟨rfl, rfl⟩
  exact ⟨rfl, rfl, rfl⟩

theorem get_throughout :
    (editor.get mailbox).Throughout mailbox (fun now => now = view)
      (fun now acl => now = view ∧ acl = editor.base view.record) view := by
  refine getVersioned_throughout.bind ?_
  intro now found _ same
  rcases same with ⟨rfl, rfl⟩
  cases present : now.record <;> exact ⟨rfl, rfl, rfl⟩

theorem get_meets (past : List Exchange) :
    (editor.get mailbox).Meets (fun _ => True) (fun _ x => Upkeep mailbox x.call) Faultless past := by
  refine Coder.getVersioned_bind (fun _ _ => .read) ?_ (fun _ => faultless_concat)
  intro seen _
  cases seen <;> exact faultless_ok

theorem settle_throughout {synced : UInt64} (current : view.record.map Record.version = some synced) (rounds : Nat) :
    (editor.settle mailbox rounds synced).Throughout mailbox (fun now => now = view) (fun now _ => now = view)
      view := by
  rcases Option.map_eq_some_iff.mp current with ⟨record, present, rfl⟩
  cases rounds with
  | zero => exact ⟨rfl, rfl⟩
  | succ rounds =>
      refine getVersioned_throughout.bind ?_
      intro now found _ same
      rcases same with ⟨rfl, rfl⟩
      rw [present]
      simp only [Editor.found_some, if_true]
      exact ⟨rfl, rfl⟩

theorem beforeWrite_throughout (attempt : Nat) :
    (editor.beforeWrite mailbox attempt).Throughout mailbox (fun now => now = view) (fun now _ => now = view) view := by
  refine Plan.Throughout.ite ?_ fun _ => ⟨rfl, rfl⟩
  intro _
  refine ⟨rfl, ?_⟩
  intro answer _
  cases answer with
  | ok reply => exact ⟨rfl, rfl⟩
  | error e => exact rfl

theorem announce_throughout (commit : Commit) (listeners : List Nat) :
    (announce commit listeners).Throughout mailbox (fun now => now = view) (fun now _ => now = view) view := by
  induction listeners with
  | nil => exact ⟨rfl, rfl⟩
  | cons listener listeners ih => exact ⟨rfl, fun _ _ => ih⟩

theorem write_throughout (request : Request) (won : request.Reply → Bool) (written : Written)
    (wins : ∀ reply, view.Allows mailbox request reply →
      won reply = true ∧ view.after mailbox request reply = editor.stored command view) :
    (Plan.ask request >>= fun reply => pure (if won reply then some written else none)).Throughout mailbox
      (fun now => now = view ∨ now = editor.stored command view)
      (fun now outcome => now = editor.stored command view ∧ outcome = some written) view := by
  refine ⟨.inl rfl, ?_⟩
  intro answer permitted
  cases answer with
  | ok reply =>
      rcases wins reply permitted with ⟨told, after⟩
      refine ⟨.inr after, after, ?_⟩
      rw [told]
      rfl
  | error e => exact .inl rfl

theorem tryOnce_throughout (attempt : Nat) :
    (editor.tryOnce mailbox command attempt).Throughout mailbox
      (fun now => now = view ∨ now = editor.stored command view)
      (fun now outcome => now = editor.stored command view ∧ outcome = some (editor.written command view.record))
      view := by
  have asked (attempt : Nat) : (editor.beforeWrite mailbox attempt).Throughout mailbox
      (fun now => now = view ∨ now = editor.stored command view) (fun now _ => now = view) view :=
    (beforeWrite_throughout attempt).mono (fun _ => .inl) fun _ _ => id
  refine ⟨.inl rfl, ?_⟩
  intro answer permitted
  cases answer with
  | error e => exact .inl rfl
  | ok seen =>
      have shown : seen = view.record := permitted rfl
      subst shown
      cases present : view.record with
      | none =>
          refine (asked attempt).bind ?_
          intro now _ _ same
          subst same
          refine write_throughout (.insert mailbox _) (fun created => created) _ ?_
          intro created allowed
          have absent : created = true := by
            rw [allowed rfl, present]
            rfl
          subst absent
          simp [View.after, Request.stored?, View.rowsAfter, stored, present, edited, base, Codec.listOf, Coder.base,
            nextVersion]
      | some record =>
          refine (asked attempt).bind ?_
          intro now _ _ same
          subst same
          refine write_throughout (.swap mailbox _ _ _) (fun swapped => swapped) _ ?_
          intro swapped allowed
          have current : swapped = true := by
            rw [allowed rfl, present]
            exact decide_eq_true rfl
          subst current
          simp [View.after, Request.stored?, View.rowsAfter, stored, present, edited, base, Codec.listOf, Coder.base,
            nextVersion, coder, Coder.ofCodec]

theorem tryFrom_throughout (left attempt : Nat) :
    (editor.tryFrom mailbox command left attempt).Throughout mailbox
      (fun now => now = view ∨ now = editor.stored command view)
      (fun now written => now = editor.stored command view ∧ written = editor.written command view.record)
      view := by
  cases left with
  | zero => exact .inl rfl
  | succ left =>
      refine (tryOnce_throughout attempt).bind ?_
      intro now outcome reached both
      rcases both with ⟨same, rfl⟩
      exact ⟨reached, same, rfl⟩

/-- The changes by which the rows follow a commit. -/
def follows (editor : Editor) (command : Command) (view : View) : List Change :=
  if (editor.written command view.record).corrupt then Index.repairs view.rows (editor.edited command view.record)
  else (Diff.between (editor.base view.record) (editor.edited command view.record)).changes

theorem syncIndex_throughout :
    (editor.syncIndex mailbox (editor.written command view.record)
        (Diff.between (editor.base view.record) (editor.edited command view.record))).Throughout mailbox
      (Index.Partway (editor.stored command view).record view.rows (editor.follows command view))
      (fun now _ => now =
        ⟨(editor.stored command view).record, (editor.follows command view).foldl Index.written view.rows⟩)
      (editor.stored command view) := by
  have settled (now : View) (done : now =
      ⟨(editor.stored command view).record, (editor.follows command view).foldl Index.written view.rows⟩) :
      (editor.settle mailbox editor.attempts (editor.written command view.record).version).Throughout mailbox
        (Index.Partway (editor.stored command view).record view.rows (editor.follows command view))
        (fun now _ => now =
          ⟨(editor.stored command view).record, (editor.follows command view).foldl Index.written view.rows⟩) now := by
    subst done
    refine (settle_throughout rfl _).mono ?_ (fun _ _ => id)
    intro now same
    subst same
    exact ⟨rfl, _, List.prefix_rfl, rfl⟩
  refine Plan.Throughout.ite ?_ ?_
  · intro corrupt
    rw [follows, if_pos corrupt] at settled ⊢
    exact (Index.repair_throughout _).bind fun now _ _ done => settled now done
  · intro legible
    rw [follows, if_neg legible] at settled ⊢
    exact (Index.applyChanges_throughout _).bind fun now _ _ done => settled now done

theorem update_throughout :
    (editor.update mailbox command).Throughout mailbox
      (fun now => now = view ∨
        Index.Partway (editor.stored command view).record view.rows (editor.follows command view) now)
      (fun now commit => commit = editor.commit mailbox command view.record ∧ now =
        ⟨(editor.stored command view).record, (editor.follows command view).foldl Index.written view.rows⟩)
      view := by
  have tried : (editor.tryFrom mailbox command editor.attempts 1).Throughout mailbox
      (fun now => now = view ∨ now = editor.stored command view)
      (fun now written => now = editor.stored command view ∧ written = editor.written command view.record) view :=
    tryFrom_throughout _ _
  refine (tried.mono ?_ fun _ _ => id).bind ?_
  · intro now reached
    rcases reached with rfl | rfl
    · exact .inl rfl
    · exact .inr ⟨rfl, [], List.nil_prefix, rfl⟩
  · intro now written _ both
    rcases both with ⟨rfl, rfl⟩
    refine (syncIndex_throughout.mono (fun _ => .inr) fun _ _ => id).bind ?_
    intro now _ synced done
    refine ((announce_throughout _ _).mono ?_ fun _ _ => id).bind ?_
    · intro later same
      exact same ▸ synced
    · intro later _ reached same
      exact ⟨reached, rfl, same.trans done⟩

theorem reset_throughout (acl : Acl) :
    (editor.reset mailbox acl).Throughout mailbox
      (fun now => now = view ∨ Index.Partway (some ⟨editor.codec.encode acl, Record.firstVersion⟩) view.rows
        (Index.repairs view.rows acl) now)
      (fun now _ => now = ⟨some ⟨editor.codec.encode acl, Record.firstVersion⟩,
        (Index.repairs view.rows acl).foldl Index.written view.rows⟩)
      view := by
  refine ⟨.inl rfl, ?_⟩
  intro answer _
  cases answer with
  | error e => exact .inl rfl
  | ok reply =>
      have after : view.next mailbox ⟨.store (.overwrite mailbox (editor.codec.encode acl)), .ok reply⟩ =
          ⟨some ⟨editor.codec.encode acl, Record.firstVersion⟩, view.rows⟩ := by
        simp [View.next, View.after, Request.stored?, View.rowsAfter]
      rw [after]
      refine ((Index.repair_throughout acl).mono (fun _ => .inr) fun _ _ => id).bind ?_
      intro now _ repaired done
      subst done
      refine (settle_throughout rfl _).mono ?_ fun _ _ => id
      intro later same
      exact same ▸ repaired

end Editor

end MailboxAccess
