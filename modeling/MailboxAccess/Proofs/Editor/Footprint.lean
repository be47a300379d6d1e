import MailboxAccess.Proofs.Editor.Rounds

/-!
Which rows an update writes. Until it has stored its list it writes none, and then one for each change. It writes
others only after it has found that the record had moved on, or if the record that it replaced was corrupt
(`Editor.update_rows`).
-/
namespace MailboxAccess

def Call.row? : Call → Option (EntryKey × MailboxId)
  | store (.upsert key place _) => some (key, place)
  | store (.delete key place) => some (key, place)
  | _ => none

def rowWrites (past : List Exchange) : List (EntryKey × MailboxId) := past.filterMap fun x => x.call.row?

theorem rowWrites_concat (past : List Exchange) (newest : Exchange) :
    rowWrites (past ++ [newest]) = rowWrites past ++ newest.call.row?.toList := by
  rw [rowWrites, List.filterMap_append]
  cases row : newest.call.row? <;> simp [rowWrites, row]

theorem rowWrites_concat_of_none {past : List Exchange} {newest : Exchange} (silent : newest.call.row? = none) :
    rowWrites (past ++ [newest]) = rowWrites past := by
  rw [rowWrites_concat, silent, Option.toList_none, List.append_nil]

def Change.rows (mailbox : MailboxId) (changes : List Change) : List (EntryKey × MailboxId) :=
  changes.map fun change => (change.key, mailbox)

/-- At some time since it stored the record the update has found another version of it. -/
def Moved (mailbox : MailboxId) (past : List Exchange) : Prop :=
  ∃ front back rounds known, past = front ++ back ∧ Chases mailbox (rounds + 1) known front

theorem Moved.concat {mailbox : MailboxId} {past : List Exchange} (moved : Moved mailbox past) (newest : Exchange) :
    Moved mailbox (past ++ [newest]) := by
  rcases moved with ⟨front, back, rounds, known, rfl, chases⟩
  exact ⟨front, back ++ [newest], rounds, known, by simp, chases⟩

section Rows

variable {rely : Exchange → Prop} {editor : Editor} {mailbox : MailboxId} {command : Command} {past : List Exchange}

namespace Plan

theorem Meets.rowless {α : Type} {plan : Plan α} {post : List Exchange → Except AccessError α → Prop}
    (meets : plan.Meets rely (fun _ x => x.call.row? = none) post past) :
    plan.Meets rely (fun past' x => rowWrites (past' ++ [x]) = rowWrites past)
      (fun past' result => rowWrites past' = rowWrites past ∧ post past' result) past := by
  refine (meets.keep (fun past' => rowWrites past' = rowWrites past) rfl ?_).mono ?_ (fun _ _ both => both)
  · intro past' x kept silent
    rw [rowWrites_concat_of_none silent, kept]
  · intro past' x both
    rw [rowWrites_concat_of_none both.2, both.1]

theorem ask_rowless {request : Request} (silent : (Call.store request).row? = none) :
    (Plan.ask request).Meets rely (fun _ x => x.call.row? = none) (fun _ _ => True) past := by
  intro answer _
  refine ⟨silent, ?_⟩
  cases answer <;> trivial

end Plan

namespace Editor

theorem beforeWrite_rowless (attempt : Nat) :
    (editor.beforeWrite mailbox attempt).Meets rely (fun _ x => x.call.row? = none) (fun _ _ => True) past := by
  refine Plan.Meets.ite ?_ (fun _ => trivial)
  intro _ answer _
  refine ⟨rfl, ?_⟩
  cases answer <;> trivial

theorem tryOnce_rowless (attempt : Nat) :
    (editor.tryOnce mailbox command attempt).Meets rely (fun _ x => x.call.row? = none) (fun _ _ => True) past := by
  have write (request : Request) (silent : (Call.store request).row? = none) (result : request.Reply → Option Written)
      (past : List Exchange) :
      (Plan.ask request >>= fun reply => pure (result reply)).Meets rely (fun _ x => x.call.row? = none)
        (fun _ _ => True) past :=
    (Plan.ask_rowless silent).bind (fun _ _ _ => trivial) (fun _ _ _ => trivial)
  refine (Plan.ask_rowless rfl).bind ?_ (fun _ _ _ => trivial)
  intro past' seen _
  cases seen with
  | none =>
      refine (beforeWrite_rowless attempt).bind ?_ (fun _ _ _ => trivial)
      intro past _ _
      exact write (.insert mailbox _) rfl _ past
  | some record =>
      refine (beforeWrite_rowless attempt).bind ?_ (fun _ _ _ => trivial)
      intro past _ _
      exact write (.swap mailbox _ _ _) rfl _ past

theorem tryFrom_rowless (left attempt : Nat) :
    (editor.tryFrom mailbox command left attempt).Meets rely (fun _ x => x.call.row? = none) (fun _ _ => True)
      past := by
  induction left generalizing attempt past with
  | zero => trivial
  | succ left ih =>
      refine (tryOnce_rowless attempt).bind ?_ (fun _ _ _ => trivial)
      intro past outcome _
      cases outcome with
      | none => exact ih (attempt + 1)
      | some written => trivial

theorem announce_asks (commit : Commit) (listeners : List Nat) :
    (announce commit listeners).Meets rely (fun _ x => ∃ listener, x.call = .notify listener commit)
      (fun _ _ => True) past := by
  induction listeners generalizing past with
  | nil => trivial
  | cons listener listeners ih =>
      intro answer _
      exact ⟨⟨listener, rfl⟩, ih⟩

end Editor

namespace Index

theorem applyChange_rows (change : Change) :
    (applyChange mailbox change).Meets rely
      (fun past' x => rowWrites (past' ++ [x]) = rowWrites past ++ [(change.key, mailbox)])
      (fun past' _ => rowWrites past' = rowWrites past ++ [(change.key, mailbox)]) past := by
  have single (request : Request) (row : (Call.store request).row? = some (change.key, mailbox)) :
      (Plan.ask request).Meets rely
        (fun past' x => rowWrites (past' ++ [x]) = rowWrites past ++ [(change.key, mailbox)])
        (fun past' _ => rowWrites past' = rowWrites past ++ [(change.key, mailbox)]) past := by
    intro answer _
    have wrote : rowWrites (past ++ [⟨.store request, answer⟩]) = rowWrites past ++ [(change.key, mailbox)] := by
      rw [rowWrites_concat, row, Option.toList_some]
    refine ⟨wrote, ?_⟩
    cases answer <;> exact wrote
  unfold applyChange
  split
  · exact Plan.Meets.ite (fun _ => single (.delete change.key mailbox) rfl)
      (fun _ => single (.upsert change.key mailbox _) rfl)
  · exact single (.delete change.key mailbox) rfl

theorem applyChanges_rows (changes : List Change) :
    (applyChanges mailbox changes).Meets rely
      (fun past' x => rowWrites (past' ++ [x]) <+: rowWrites past ++ Change.rows mailbox changes)
      (Plan.Returns fun past' _ => rowWrites past' = rowWrites past ++ Change.rows mailbox changes) past := by
  induction changes generalizing past with
  | nil => exact Plan.returns_ok (List.append_nil _).symm
  | cons change changes ih =>
      have whole : rowWrites past ++ Change.rows mailbox (change :: changes) =
          (rowWrites past ++ [(change.key, mailbox)]) ++ Change.rows mailbox changes := by
        rw [List.append_assoc]
        rfl
      rw [whole]
      refine ((applyChange_rows change).mono ?_ (fun _ _ => id)).bind ?_ (fun _ _ _ => Plan.returns_error)
      · intro past' x wrote
        rw [wrote]
        exact List.prefix_append _ _
      · intro past' _ wrote
        rw [← wrote]
        exact ih

end Index

/-- The rows that were written are among the first of these, unless the record had moved on. -/
def Confined (mailbox : MailboxId) (rows : List (EntryKey × MailboxId)) (past : List Exchange) : Prop :=
  Moved mailbox past ∨ rowWrites past <+: rows

def Covered (mailbox : MailboxId) (rows : List (EntryKey × MailboxId)) (past : List Exchange) : Prop :=
  Moved mailbox past ∨ rowWrites past = rows

theorem Covered.confined {rows : List (EntryKey × MailboxId)} (covered : Covered mailbox rows past) :
    Confined mailbox rows past := by
  rcases covered with moved | same
  · exact .inl moved
  · exact .inr (same ▸ List.prefix_refl _)

theorem Covered.concat {rows : List (EntryKey × MailboxId)} {newest : Exchange} (covered : Covered mailbox rows past)
    (silent : Moved mailbox past ∨ newest.call.row? = none) : Covered mailbox rows (past ++ [newest]) := by
  rcases covered with moved | same
  · exact .inl (moved.concat newest)
  · rcases silent with moved | silent
    · exact .inl (moved.concat newest)
    · exact .inr (by rw [rowWrites_concat_of_none silent, same])

namespace Editor

theorem settle_rows {left : Nat} {known : UInt64} (chases : Chases mailbox 0 known past) :
    (editor.settle mailbox left known).Meets rely (fun past x => Moved mailbox past ∨ x.call.row? = none)
      (fun _ _ => True) past := by
  cases left with
  | zero => trivial
  | succ left =>
      refine Coder.getVersioned_bind (fun _ _ => .inr rfl) ?_ (fun _ => trivial)
      intro seen _
      cases seen with
      | none => trivial
      | some record =>
          refine Plan.Meets.ite (fun _ => trivial) ?_
          intro other
          have shown : (⟨.store (.read mailbox), .ok (some record)⟩ : Exchange).shown? mailbox = some record :=
            if_pos rfl
          have moved : Moved mailbox (past ++ [⟨.store (.read mailbox), .ok (some record)⟩]) :=
            ⟨_, [], 0, record.version, by simp, chases.concat_of_some shown other⟩
          have repairs : (Index.repair mailbox (editor.base (some record)) >>= fun _ =>
              editor.settle mailbox left record.version).Meets rely (fun _ x => Upkeep mailbox x.call) Faultless
              (past ++ [⟨.store (.read mailbox), .ok (some record)⟩]) :=
            (Index.repair_meets _ _).upkeep.bind_faultless fun past _ => editor.coder.settle_meets _ _ past
          exact (repairs.keep (Moved mailbox) moved fun _ x kept _ => kept.concat x).mono
            (fun _ _ both => .inl both.1) (fun _ _ _ => trivial)

theorem syncIndex_rows {written : Written} {diff : Diff} (chases : Chases mailbox 0 written.version past)
    (fresh : rowWrites past = []) :
    (editor.syncIndex mailbox written diff).Meets rely
      (fun past x => written.corrupt = false → Confined mailbox (Change.rows mailbox diff.changes) (past ++ [x]))
      (Plan.Returns fun past _ => written.corrupt = false → Covered mailbox (Change.rows mailbox diff.changes) past)
      past := by
  cases legible : written.corrupt with
  | true =>
      exact (editor.coder.syncIndex_meets editor written diff past).mono (fun _ _ _ => nofun) fun _ _ _ _ _ => nofun
  | false =>
      rw [syncIndex, Coder.syncIndex, legible]
      have rows : (Index.applyChanges mailbox diff.changes).Meets rely _ _ past :=
        Index.applyChanges_rows diff.changes
      rw [fresh, List.nil_append] at rows
      have chasing : (Index.applyChanges mailbox diff.changes).Meets rely _ _ past :=
        (Index.applyChanges_meets diff.changes past).chases chases
      refine ((rows.and chasing).mono (fun _ _ both _ => .inr both.1) (fun _ _ both => both)).bind ?_
        (fun _ _ _ => Plan.returns_error)
      intro past' _ both
      have all : Covered mailbox (Change.rows mailbox diff.changes) past' := .inr (both.1 _ rfl)
      refine ((settle_rows (both.2 _ rfl)).keep _ all fun _ _ => Covered.concat).mono ?_ ?_
      · intro past x kept _
        exact (kept.1.concat kept.2).confined
      · intro past result kept _ _ _
        exact kept.1

/-- The update has stored its list in place of `seen`, and `wrote` holds of the rows of its changes if that was
legible. -/
def Synced (editor : Editor) (mailbox : MailboxId) (command : Command) (seen : Option Record)
    (wrote : List (EntryKey × MailboxId) → List Exchange → Prop) (past : List Exchange) : Prop :=
  editor.Committed mailbox command seen past ∧ ((editor.written command seen).corrupt = false →
    wrote (Change.rows mailbox (editor.commit mailbox command seen).diff.changes) past)

theorem update_rows :
    (editor.update mailbox command).Meets rely
      (fun past x => rowWrites (past ++ [x]) = [] ∨
        ∃ seen, editor.Synced mailbox command seen (Confined mailbox) (past ++ [x]))
      (Plan.Returns fun past commit => ∃ seen, commit = editor.commit mailbox command seen ∧
        editor.Synced mailbox command seen (Covered mailbox) past) [] := by
  have nothing : ∀ x ∈ ([] : List Exchange), x.Idle mailbox := nofun
  refine (((tryFrom_rowless _ _).rowless.and (tryFrom_meets nothing)).mono (fun _ _ both => .inl both.1)
    (fun _ _ both => both)).bind ?_ (fun _ _ _ => Plan.returns_error)
  intro past written both
  rcases both with ⟨⟨fresh, -⟩, seen, stored, rfl⟩
  -- up to here no row was written, and from here on the record was last seen at the version just stored
  have committed := stored.committed
  rcases stored with ⟨before, x, rfl, replaced⟩
  have chases : Chases mailbox 0 (editor.written command seen).version (before ++ [x]) :=
    chases_of_stored (stored_of_won replaced.call replaced.won)
  refine ((((editor.coder.syncIndex_meets editor _ _ _).keep _ committed fun _ _ => .upkeep).and
    (syncIndex_rows chases fresh)).mono ?_ (fun _ _ both => both)).bind ?_ (fun _ _ _ => Plan.returns_error)
  · intro past x both
    exact .inr ⟨seen, both.1.1.upkeep both.1.2, both.2⟩
  · intro past _ both
    have synced : editor.Synced mailbox command seen (Covered mailbox) past := ⟨both.1.1, both.2 _ rfl⟩
    have tells : ∀ past x, editor.Synced mailbox command seen (Covered mailbox) past →
        (∃ listener, x.call = .notify listener (editor.commit mailbox command seen)) →
          editor.Synced mailbox command seen (Covered mailbox) (past ++ [x]) := by
      intro past x synced told
      rcases x with ⟨c, answer⟩
      rcases told with ⟨listener, rfl⟩
      exact ⟨synced.1.concat ⟨rfl, rfl⟩, fun legible => (synced.2 legible).concat (.inr rfl)⟩
    refine (((announce_asks _ _).keep _ synced tells).mono ?_ (fun _ _ both => both.1)).bind ?_
      (fun _ _ _ => Plan.returns_error)
    · intro past x kept
      have after := tells past x kept.1 kept.2
      exact .inr ⟨seen, after.1, fun legible => (after.2 legible).confined⟩
    · intro past _ kept
      exact Plan.returns_ok ⟨seen, rfl, kept⟩

end Editor

end Rows

end MailboxAccess
