import MailboxAccess.Proofs.Contents

/-!
What an operation knows of the rows that it brings up to date. When it has found the record at the version
that it knew, all that it knows of the rows agrees with the list of that version.
-/
namespace MailboxAccess

def Unread (past : List Exchange) : Prop :=
  ∃ front x request, past = front ++ [x] ∧ x.call = .store request ∧ ∀ place, request ≠ .read place

/-- Rows of some keys have become known to be those of the list, and nothing else was learned. -/
structure Learns (mailbox : MailboxId) (acl : Acl) (keys : EntryKey → Prop) (past past' : List Exchange) :
    Prop where
  shown : latest (Exchange.shown? mailbox) past' = latest (Exchange.shown? mailbox) past
  unread : Unread past → Unread past'
  touched : ∀ key, keys key → latest (Exchange.knows? mailbox key) past' = some (acl.get? key)
  untouched : ∀ key, ¬ keys key →
    latest (Exchange.knows? mailbox key) past' = latest (Exchange.knows? mailbox key) past

/-- All that is known of rows agrees with the record that was shown or stored last. -/
structure Synced (editor : Editor) (mailbox : MailboxId) (record : Record) (past : List Exchange) : Prop where
  shown : latest (Exchange.shown? mailbox) past = some record
  known : ∀ key value, latest (Exchange.knows? mailbox key) past = some value →
    value = (editor.base (some record)).get? key

/-- An operation whose last request showed it this record; what follows are announcements. -/
def Settled (mailbox : MailboxId) (front : List Exchange) (record : Record) (past : List Exchange) : Prop :=
  ∃ tail, past = front ++ ⟨.store (.read mailbox), .ok (some record)⟩ :: tail ∧
    ∀ x ∈ tail, ∃ listener commit, x.call = .notify listener commit

/-- If it was shown a record at last, it had been synchronised with that version. -/
def Confirmed (editor : Editor) (mailbox : MailboxId) (past : List Exchange) : Prop :=
  ∀ front record, Settled mailbox front record past →
    ∃ older, Synced editor mailbox older front ∧ older.version = record.version

def Readable (codec : Codec) (mailbox : MailboxId) (keys : List EntryKey) (x : Exchange) : Prop :=
  ∀ seen, x = ⟨.store (.read mailbox), .ok seen⟩ → Legible codec keys seen

theorem Unread.confirmed {editor : Editor} {mailbox : MailboxId} {past : List Exchange} (unread : Unread past) :
    Confirmed editor mailbox past := by
  intro front record settled
  rcases settled with ⟨tail, split, announced⟩
  rcases unread with ⟨before, x, request, rfl, call, other⟩
  rcases split_concat split with ⟨-, rfl, -⟩ | ⟨between, rfl, -⟩
  · cases call
    exact absurd rfl (other mailbox)
  · rcases announced x (List.mem_append_right _ List.mem_cons_self) with ⟨listener, commit, notified⟩
    rw [call] at notified
    cases notified

theorem Settled.concat_read {mailbox : MailboxId} {front past : List Exchange} {record : Record} {seen : Option Record}
    (settled : Settled mailbox front record (past ++ [⟨.store (.read mailbox), .ok seen⟩])) :
    past = front ∧ seen = some record := by
  rcases settled with ⟨tail, split, announced⟩
  rcases split_concat split with ⟨same, read, -⟩ | ⟨between, rfl, -⟩
  · cases read
    exact ⟨same, rfl⟩
  · rcases announced _ (List.mem_append_right _ List.mem_cons_self) with ⟨_, _, notified⟩
    cases notified

theorem confirmed_concat_none {editor : Editor} {mailbox : MailboxId} {past : List Exchange} :
    Confirmed editor mailbox (past ++ [⟨.store (.read mailbox), .ok none⟩]) := by
  intro front record settled
  cases settled.concat_read.2

theorem Synced.confirmed {editor : Editor} {mailbox : MailboxId} {past : List Exchange} {older record : Record}
    (synced : Synced editor mailbox older past) (same : older.version = record.version) :
    Confirmed editor mailbox (past ++ [⟨.store (.read mailbox), .ok (some record)⟩]) := by
  intro front found settled
  rcases settled.concat_read with ⟨rfl, read⟩
  cases read
  exact ⟨older, synced, same⟩

theorem Confirmed.concat_notify {editor : Editor} {mailbox : MailboxId} {past : List Exchange}
    (confirmed : Confirmed editor mailbox past) (listener : Nat) (commit : Commit)
    (coped : Call.Answer (.notify listener commit)) :
    Confirmed editor mailbox (past ++ [⟨.notify listener commit, coped⟩]) := by
  intro front record settled
  rcases settled with ⟨tail, split, announced⟩
  rcases split_concat split with ⟨-, read, -⟩ | ⟨between, rfl, earlier⟩
  · cases read
  · exact confirmed front record ⟨between, earlier, fun x member => announced x (List.mem_append_left _ member)⟩

section Rows

variable {rely : Exchange → Prop} {mailbox : MailboxId} {acl : Acl} {past : List Exchange}

theorem Learns.refl (past : List Exchange) : Learns mailbox acl (fun _ => False) past past :=
  ⟨rfl, id, fun _ => False.elim, fun _ _ => rfl⟩

theorem learns_of_write {change : Change} {request : Request} {reply : request.Reply}
    (silent : (⟨.store request, .ok reply⟩ : Exchange).shown? mailbox = none)
    (other : ∀ place, request ≠ .read place)
    (row : ∀ key, (⟨.store request, .ok reply⟩ : Exchange).knows? mailbox key =
      if change.key = key then some (acl.get? change.key) else none) :
    Learns mailbox acl (fun key => change.key = key) past (past ++ [⟨.store request, .ok reply⟩]) where
  shown := by rw [latest_append, latest_singleton, silent, Option.none_or]
  unread := fun _ => ⟨past, _, request, rfl, rfl, other⟩
  touched := by
    intro key same
    rw [latest_append, latest_singleton, row, if_pos same, Option.some_or, same]
  untouched := by
    intro key different
    rw [latest_append, latest_singleton, row, if_neg different, Option.none_or]

theorem Learns.trans {keys keys' : EntryKey → Prop} {middle past' : List Exchange}
    (first : Learns mailbox acl keys past middle) (second : Learns mailbox acl keys' middle past') :
    Learns mailbox acl (fun key => keys key ∨ keys' key) past past' where
  shown := second.shown.trans first.shown
  unread := second.unread ∘ first.unread
  touched := by
    intro key either
    by_cases later : keys' key
    · exact second.touched key later
    · rw [second.untouched key later]
      exact first.touched key (either.resolve_right later)
  untouched := by
    intro key neither
    rw [second.untouched key fun later => neither (.inr later),
      first.untouched key fun earlier => neither (.inl earlier)]

theorem Index.applyChange_learns {change : Change} (granted : change.new = acl.get? change.key) :
    (applyChange mailbox change).Meets rely (fun _ _ => True)
      (Plan.Returns fun past' _ => Learns mailbox acl (fun key => change.key = key) past past') past := by
  have asking (request : Request)
      (silent : ∀ reply, (⟨.store request, .ok reply⟩ : Exchange).shown? mailbox = none)
      (other : ∀ place, request ≠ .read place)
      (row : ∀ reply key, (⟨.store request, .ok reply⟩ : Exchange).knows? mailbox key =
        if change.key = key then some (acl.get? change.key) else none) :
      (Plan.ask request).Meets rely (fun _ _ => True)
        (Plan.Returns fun past' _ => Learns mailbox acl (fun key => change.key = key) past past') past := by
    intro answer _
    refine ⟨trivial, ?_⟩
    cases answer with
    | ok reply => exact Plan.returns_ok (learns_of_write (silent reply) other (row reply))
    | error e => exact Plan.returns_error
  have deleting (gone : acl.get? change.key = none) := asking (.delete change.key mailbox) (fun _ => rfl) nofun
    (by
      intro reply key
      rw [gone]
      exact Exchange.knows_delete change.key key mailbox reply)
  unfold applyChange
  cases new : change.new with
  | some rights =>
      rw [new] at granted
      refine Plan.Meets.ite ?_ ?_
      · intro nothing
        exact absurd (Rights.isEmpty_iff.mp nothing) (Acl.ne_empty_of_get? granted.symm)
      · intro _
        refine asking (.upsert change.key mailbox rights) (fun _ => rfl) nofun ?_
        intro reply key
        rw [← granted]
        exact Exchange.knows_upsert change.key key mailbox rights reply
  | none =>
      rw [new] at granted
      exact deleting granted.symm

theorem Index.applyChanges_learns {changes : List Change}
    (granted : ∀ change ∈ changes, change.new = acl.get? change.key) :
    (applyChanges mailbox changes).Meets rely (fun _ _ => True)
      (Plan.Returns fun past' _ => Learns mailbox acl (fun key => ∃ change ∈ changes, change.key = key) past past')
      past := by
  induction changes generalizing past with
  | nil =>
      apply Plan.returns_ok
      simpa using Learns.refl past
  | cons change changes ih =>
      refine (applyChange_learns (granted change List.mem_cons_self)).bind_returns ?_
      intro past' _ first
      refine (ih fun later member => granted later (List.mem_cons_of_mem _ member)).mono (fun _ _ => id) ?_
      intro past'' result rest done finished
      have both := first.trans (rest done finished)
      simpa only [List.exists_mem_cons_iff] using both

theorem Index.repair_learns :
    (repair mailbox acl).Meets rely (fun _ _ => True)
      (Plan.Returns fun past' _ => Learns mailbox acl (fun _ => True) past past' ∧ Unread past') past := by
  refine Plan.Meets.ask_bind (fun _ _ => trivial) ?_ (fun _ => Plan.returns_error)
  intro rows _
  have listing : ∀ key, (⟨.store (.listMailbox mailbox), .ok rows⟩ : Exchange).knows? mailbox key =
      some ((Acl.ofEntries rows.entries).get? key) := fun key => if_pos rfl
  have asked : Unread (past ++ [⟨.store (.listMailbox mailbox), .ok rows⟩]) := ⟨past, _, _, rfl, rfl, nofun⟩
  have granted : ∀ change ∈ (Diff.between (Acl.ofEntries rows.entries) acl).changes,
      change.new = acl.get? change.key := fun change => Diff.new_eq_of_mem
  refine (applyChanges_learns granted).bind_returns ?_
  intro past' _ learned
  apply Plan.returns_ok
  refine ⟨⟨?_, fun _ => learned.unread asked, ?_, fun key never => absurd trivial never⟩, learned.unread asked⟩
  · rw [learned.shown, latest_append, latest_singleton]
    rfl
  · intro key _
    by_cases changed : ∃ change ∈ (Diff.between (Acl.ofEntries rows.entries) acl).changes, change.key = key
    · exact learned.touched key changed
    · calc
        _ = latest (Exchange.knows? mailbox key) (past ++ [⟨.store (.listMailbox mailbox), .ok rows⟩]) :=
          learned.untouched key changed
        _ = some ((Acl.ofEntries rows.entries).get? key) := by
          rw [latest_append, latest_singleton, listing, Option.some_or]
        _ = some (acl.get? key) := by rw [Diff.get?_eq_of_unchanged changed]

theorem Synced.of_learns {editor : Editor} {touched : EntryKey → Prop} {past' : List Exchange} {record : Record}
    (learned : Learns mailbox acl touched past past') (shown : latest (Exchange.shown? mailbox) past = some record)
    (base : editor.base (some record) = acl)
    (silent : ∀ key, ¬ touched key → latest (Exchange.knows? mailbox key) past = none) :
    Synced editor mailbox record past' where
  shown := learned.shown.trans shown
  known := by
    intro key value known
    rw [base]
    by_cases changed : touched key
    · rw [learned.touched key changed] at known
      exact (Option.some.inj known).symm
    · rw [learned.untouched key changed, silent key changed] at known
      cases known

theorem Editor.settle_learns {editor : Editor} {rounds : Nat} {older : Record}
    (synced : Synced editor mailbox older past) (unread : Unread past) :
    (editor.settle mailbox rounds older.version).Meets rely (fun _ _ => True)
      (Plan.Returns fun past' _ => Confirmed editor mailbox past') past := by
  induction rounds generalizing older past with
  | zero => exact Plan.returns_ok unread.confirmed
  | succ rounds ih =>
      refine Coder.getVersioned_bind (fun _ _ => trivial) ?_ (fun _ => Plan.returns_error)
      intro seen _
      cases seen with
      | none => exact Plan.returns_ok confirmed_concat_none
      | some record =>
          refine Plan.Meets.ite ?_ ?_
          · intro same
            exact Plan.returns_ok (synced.confirmed same.symm)
          · intro _
            have told : (⟨.store (.read mailbox), .ok (some record)⟩ : Exchange).shown? mailbox = some record :=
              if_pos rfl
            have shown : latest (Exchange.shown? mailbox)
                (past ++ [⟨.store (.read mailbox), .ok (some record)⟩]) = some record := by
              rw [latest_append, latest_singleton, told, Option.some_or]
            refine Index.repair_learns.bind_returns ?_
            intro past' _ repaired
            rcases repaired with ⟨learned, unread⟩
            exact ih (.of_learns learned shown rfl fun _ never => absurd trivial never) unread

end Rows

namespace Editor

variable {editor : Editor} {mailbox : MailboxId} {command : Command} {keys : List EntryKey}
  {past : List Exchange} {seen : Option Record}

/-- The update has stored its list, and where that differs from the list before, the row is known to have
become the new one. -/
structure Reflected (editor : Editor) (mailbox : MailboxId) (command : Command) (seen : Option Record)
    (past : List Exchange) : Prop where
  committed : editor.Committed mailbox command seen past
  covered : ∀ key,
    (∃ y ∈ past, y.knows? mailbox key = some ((editor.edited command seen).get? key)) ∨
      (editor.base seen).get? key = (editor.edited command seen).get? key

theorem Reflected.concat {x : Exchange} (reflected : editor.Reflected mailbox command seen past)
    (quiet : x.stored? mailbox = none ∧ x.won? = none) :
    editor.Reflected mailbox command seen (past ++ [x]) where
  committed := reflected.committed.concat quiet
  covered := by
    intro key
    rcases reflected.covered key with ⟨y, member, knows⟩ | same
    · exact .inl ⟨y, List.mem_append_left _ member, knows⟩
    · exact .inr same

theorem knows_replacing {place : MailboxId} {bytes : Bytes} {x : Exchange}
    (call : x.call = .store (replacing place bytes seen)) (key : EntryKey) :
    x.knows? mailbox key = none := by
  rcases x with ⟨c, answer⟩
  dsimp only at call
  subst call
  cases seen <;> cases answer <;> rfl

theorem shown_replacing {bytes : Bytes} {x : Exchange} (call : x.call = .store (replacing mailbox bytes seen)) :
    x.shown? mailbox = x.stored? mailbox := by
  rcases x with ⟨c, answer⟩
  dsimp only at call
  subst call
  cases seen <;> cases answer <;> rfl

theorem Reflected.known_later {before after : List Exchange} {x : Exchange}
    (reflected : editor.Reflected mailbox command seen (before ++ x :: after)) (stores : x.stored? mailbox ≠ none)
    (key : EntryKey) :
    Attempting mailbox before seen ∧
      x.stored? mailbox = some ⟨editor.codec.encode (editor.edited command seen), nextVersion seen⟩ ∧
      ((∃ y ∈ after, y.knows? mailbox key = some ((editor.edited command seen).get? key)) ∨
        (editor.base seen).get? key = (editor.edited command seen).get? key) := by
  rcases reflected.committed with ⟨front, y, back, placed, replaced⟩
  rcases split_unique (Exchange.stored? mailbox) placed stores
    (fun z earlier => (replaced.attempting.idle z earlier).stored)
    (fun z later => (replaced.quiet z later).1) with ⟨rfl, rfl, rfl⟩
  refine ⟨replaced.attempting, stored_of_won replaced.call replaced.won, ?_⟩
  rcases reflected.covered key with ⟨z, member, knows⟩ | unchanged
  · refine .inl ⟨z, ?_, knows⟩
    -- neither what came before the write nor the write itself tells anything of the row
    rcases List.mem_append.mp member with earlier | later
    · rw [(replaced.attempting.idle z earlier).knows key] at knows
      cases knows
    · rcases List.mem_cons.mp later with rfl | after
      · rw [knows_replacing replaced.call key] at knows
        cases knows
      · exact after
  · exact .inr unchanged

theorem unread_replacing (before : List Exchange) {bytes : Bytes} {x : Exchange}
    (call : x.call = .store (replacing mailbox bytes seen)) : Unread (before ++ [x]) := by
  refine ⟨before, x, _, rfl, call, ?_⟩
  cases seen <;> exact nofun

theorem base_encode {acl : Acl} {version : UInt64} (carried : editor.codec.Carries keys)
    (within : acl.keys ⊆ keys) : editor.base (some ⟨editor.codec.encode acl, version⟩) = acl :=
  Codec.listOf_eq (Codec.versioned_encode carried within)

theorem written_of_legible (legible : Legible editor.codec keys seen) :
    (editor.written command seen).corrupt = false := by
  rcases legible with ⟨state, decoded, -⟩
  cases seen with
  | none => rfl
  | some record =>
      rcases Codec.versioned_some decoded with ⟨acl, read, -⟩
      simp [written, decode?, coder, Coder.ofCodec, read, Except.toOption]

theorem Reflected.of_learns {past' : List Exchange} (committed : editor.Committed mailbox command seen past')
    (learned : Learns mailbox (editor.edited command seen)
      (fun key => ∃ change ∈ (Diff.between (editor.base seen) (editor.edited command seen)).changes,
        change.key = key) past past') : editor.Reflected mailbox command seen past' where
  committed := committed
  covered := by
    intro key
    by_cases changed : ∃ change ∈ (Diff.between (editor.base seen) (editor.edited command seen)).changes,
        change.key = key
    · rcases exists_of_latest (learned.touched key changed) with ⟨front, y, after, rfl, knows, -⟩
      exact .inl ⟨y, by simp, knows⟩
    · exact .inr (Diff.get?_eq_of_unchanged changed)

theorem syncIndex_learns {rely : Exchange → Prop} (carried : editor.codec.Carries keys)
    (legible : Legible editor.codec keys seen) (given : command.key ∈ keys)
    (stored : editor.Stored mailbox command seen past) :
    (editor.syncIndex mailbox (editor.written command seen)
        (Diff.between (editor.base seen) (editor.edited command seen))).Meets rely (fun _ _ => True)
      (Plan.Returns fun past' _ => editor.Reflected mailbox command seen past' ∧ Confirmed editor mailbox past')
      past := by
  have committed := stored.committed
  rcases stored with ⟨before, x, rfl, replaced⟩
  have base : editor.base (some ⟨editor.codec.encode (editor.edited command seen), nextVersion seen⟩) =
      editor.edited command seen := base_encode carried (keys_edited legible given)
  have shown : latest (Exchange.shown? mailbox) (before ++ [x]) =
      some ⟨editor.codec.encode (editor.edited command seen), nextVersion seen⟩ := by
    rw [latest_append, latest_singleton, shown_replacing replaced.call,
      stored_of_won replaced.call replaced.won, Option.some_or]
  -- so whatever is known of rows later comes from the writes that follow
  have silent (key : EntryKey) : latest (Exchange.knows? mailbox key) (before ++ [x]) = none := by
    rw [latest_append, latest_singleton, knows_replacing replaced.call key, Option.none_or, latest_eq_none_iff]
    exact fun y member => (replaced.attempting.idle y member).knows key
  have granted : ∀ change ∈ (Diff.between (editor.base seen) (editor.edited command seen)).changes,
      change.new = (editor.edited command seen).get? change.key := fun change => Diff.new_eq_of_mem
  refine Plan.Meets.ite ?_ ?_
  · intro corrupt
    rw [written_of_legible legible] at corrupt
    cases corrupt
  · intro _
    refine ((Index.applyChanges_learns granted).also
      ((Index.applyChanges_meets _ _).upkeep.keep _ committed fun _ _ => .upkeep)).bind_returns ?_
    intro past' _ both
    rcases both with ⟨learned, committed, -⟩
    have synced : Synced editor mailbox
        ⟨editor.codec.encode (editor.edited command seen), nextVersion seen⟩ past' :=
      .of_learns learned shown base fun key _ => silent key
    have reflected : editor.Reflected mailbox command seen past' := .of_learns committed learned
    have unread := learned.unread (unread_replacing before replaced.call)
    refine ((settle_learns synced unread).also ((editor.coder.settle_meets _ _ _).keep _ reflected
      fun _ _ kept upkeep => kept.concat upkeep.quiet)).mono (fun _ _ => id) ?_
    intro past'' result both done finished
    rcases both done finished with ⟨confirmed, reflected, -⟩
    exact ⟨reflected, confirmed⟩

theorem announce_keeps {rely : Exchange → Prop} {commit : Commit} {listeners : List Nat}
    (kept : List Exchange → Prop) (holds : kept past)
    (keeps : ∀ past listener coped, kept past → kept (past ++ [⟨.notify listener commit, coped⟩])) :
    (announce commit listeners).Meets rely (fun _ _ => True) (fun past result => kept past ∧ result = .ok ()) past := by
  induction listeners generalizing past with
  | nil => exact ⟨holds, rfl⟩
  | cons listener listeners ih =>
      intro coped _
      exact ⟨trivial, ih (keeps past listener coped holds)⟩

theorem update_learns (carried : editor.codec.Carries keys) (given : command.key ∈ keys) :
    (editor.update mailbox command).Meets (Readable editor.codec mailbox keys) (fun _ _ => True)
      (Plan.Returns fun past _ =>
        (∃ seen, Legible editor.codec keys seen ∧ editor.Reflected mailbox command seen past) ∧
          Confirmed editor mailbox past) [] := by
  have fresh : ∀ x ∈ ([] : List Exchange), x.Idle mailbox := nofun
  refine (((tryFrom_meets fresh).relied nofun).mono (fun _ _ _ => trivial) fun _ _ => id).bind ?_
    (fun _ _ _ => Plan.returns_error)
  intro past written tried
  rcases tried with ⟨relied, seen, stored, rfl⟩
  have legible : Legible editor.codec keys seen := by
    rcases stored with ⟨before, x, rfl, replaced⟩
    rcases replaced.attempting.read with ⟨earlier, hooks, rfl, -⟩
    exact relied ⟨.store (.read mailbox), .ok seen⟩ (by simp) seen rfl
  refine (syncIndex_learns carried legible given stored).bind_returns ?_
  intro past _ synced
  have announcing (past : List Exchange) (listener : Nat) (coped : Bool)
      (kept : editor.Reflected mailbox command seen past ∧ Confirmed editor mailbox past) :
      editor.Reflected mailbox command seen
          (past ++ [⟨.notify listener (editor.commit mailbox command seen), coped⟩]) ∧
        Confirmed editor mailbox
          (past ++ [⟨.notify listener (editor.commit mailbox command seen), coped⟩]) :=
    ⟨kept.1.concat ⟨rfl, rfl⟩, kept.2.concat_notify listener _ coped⟩
  refine (announce_keeps _ synced announcing).bind ?_ (fun _ _ _ => Plan.returns_error)
  intro past _ told
  rcases told with ⟨kept, -⟩
  exact Plan.returns_ok ⟨⟨seen, legible, kept.1⟩, kept.2⟩

theorem reset_learns {rely : Exchange → Prop} {acl : Acl} (carried : editor.codec.Carries keys)
    (within : acl.keys ⊆ keys) :
    (editor.reset mailbox acl).Meets rely (fun _ _ => True)
      (Plan.Returns fun past _ =>
        (∀ key, ∃ y ∈ past, y.knows? mailbox key = some (acl.get? key)) ∧ Confirmed editor mailbox past)
      [] := by
  refine Plan.Meets.ask_bind (fun _ _ => trivial) ?_ (fun _ => Plan.returns_error)
  intro reply _
  have told : (⟨.store (.overwrite mailbox (editor.codec.encode acl)), .ok reply⟩ : Exchange).shown? mailbox =
      some ⟨editor.codec.encode acl, Record.firstVersion⟩ := if_pos rfl
  refine Index.repair_learns.bind_returns ?_
  intro past _ repaired
  rcases repaired with ⟨learned, unread⟩
  have shown : latest (Exchange.shown? mailbox)
      ([] ++ [⟨.store (.overwrite mailbox (editor.codec.encode acl)), .ok reply⟩]) =
        some ⟨editor.codec.encode acl, Record.firstVersion⟩ := by
    rw [latest_append, latest_singleton, told, Option.some_or]
  have synced : Synced editor mailbox ⟨editor.codec.encode acl, Record.firstVersion⟩ past :=
    .of_learns learned shown (base_encode carried within) fun _ never => absurd trivial never
  have covered : ∀ key, ∃ y ∈ past, y.knows? mailbox key = some (acl.get? key) := by
    intro key
    rcases exists_of_latest (learned.touched key trivial) with ⟨front, y, after, rfl, knows, -⟩
    exact ⟨y, by simp, knows⟩
  have keeps (past : List Exchange) (x : Exchange)
      (covered : ∀ key, ∃ y ∈ past, y.knows? mailbox key = some (acl.get? key)) (_ : True) :
      ∀ key, ∃ y ∈ past ++ [x], y.knows? mailbox key = some (acl.get? key) := by
    intro key
    rcases covered key with ⟨y, member, knows⟩
    exact ⟨y, List.mem_append_left _ member, knows⟩
  refine ((settle_learns synced unread).keep _ covered keeps).mono (fun _ _ _ => trivial) ?_
  intro past result both done finished
  exact ⟨both.1, both.2 done finished⟩

end Editor

end MailboxAccess
