import MailboxAccess.Editor
import MailboxAccess.Proofs.Plan
import MailboxAccess.Proofs.Store

namespace MailboxAccess

/-- The list that a record stands for: the empty one if there is no record, or if it cannot be decoded. -/
def Coder.base (coder : Coder) : Option Record → Acl
  | none => Acl.empty
  | some record => (coder.decode? record.acl).getD Acl.empty

def Codec.listOf (codec : Codec) (seen : Option Record) : Acl := (Coder.ofCodec codec).base seen

def Editor.base (editor : Editor) (seen : Option Record) : Acl := editor.codec.listOf seen

def Coder.found (coder : Coder) (seen : Option Record) : Option Versioned :=
  seen.map fun record => ⟨coder.base (some record), record.version⟩

def Editor.found (editor : Editor) (seen : Option Record) : Option Versioned := editor.coder.found seen

@[simp]
theorem Editor.found_some (editor : Editor) (record : Record) :
    editor.found (some record) = some ⟨editor.base (some record), record.version⟩ := rfl

/-- A request for rows of the mailbox, none of which is to be without rights. -/
def Request.Rowwise (mailbox : MailboxId) : Request → Prop
  | upsert _ place rights => place = mailbox ∧ rights ≠ Rights.empty
  | delete _ place => place = mailbox
  | listMailbox place => place = mailbox
  | _ => False

def Call.Rowwise (mailbox : MailboxId) : Call → Prop
  | store request => request.Rowwise mailbox
  | _ => False

inductive Upkeep (mailbox : MailboxId) : Call → Prop where
  | read : Upkeep mailbox (.store (.read mailbox))
  | rows {request : Request} (rowwise : request.Rowwise mailbox) : Upkeep mailbox (.store request)

theorem Call.Rowwise.upkeep {mailbox : MailboxId} {c : Call} (rowwise : c.Rowwise mailbox) : Upkeep mailbox c := by
  cases c with
  | store request => exact .rows rowwise
  | _ => cases rowwise

theorem Upkeep.quiet {place mailbox : MailboxId} {x : Exchange} (upkeep : Upkeep place x.call) :
    x.stored? mailbox = none ∧ x.won? = none := by
  rcases x with ⟨c, answer⟩
  cases upkeep with
  | read => cases answer <;> exact ⟨rfl, rfl⟩
  | @rows request rowwise =>
      cases request with
      | upsert => cases answer <;> exact ⟨rfl, rfl⟩
      | delete => cases answer <;> exact ⟨rfl, rfl⟩
      | listMailbox => cases answer <;> exact ⟨rfl, rfl⟩
      | _ => cases rowwise

theorem Upkeep.granting {place mailbox : MailboxId} {x : Exchange} {key : EntryKey} {value : Option Rights}
    (upkeep : Upkeep place x.call) (row : x.row? mailbox key = some value) : value ≠ some Rights.empty := by
  rcases x with ⟨c, answer⟩
  cases upkeep with
  | read => cases answer <;> cases row
  | @rows request rowwise =>
      cases answer with
      | error => cases row
      | ok reply =>
          cases request with
          | upsert identity place rights =>
              have written : (if place = mailbox ∧ identity = key then some (some rights) else none) =
                  some value := row
              split at written
              · cases written
                intro same
                exact rowwise.2 (Option.some.inj same)
              · cases written
          | delete identity place =>
              have written : (if place = mailbox ∧ identity = key then some none else none) = some value := row
              split at written
              · cases written
                exact nofun
              · cases written
          | _ => cases row

/-- A plan of this kind fails only with the error of its last request. -/
def Faultless {α : Type} (past : List Exchange) (result : Except AccessError α) : Prop :=
  ∀ e, result = .error e → ∃ front request cause, past = front ++ [⟨.store request, .error cause⟩] ∧ e = .store cause

theorem faultless_ok {α : Type} {past : List Exchange} {a : α} : Faultless past (.ok a) := nofun

theorem faultless_concat {α : Type} {past : List Exchange} {request : Request} {e : StoreError} :
    Faultless (past ++ [⟨.store request, .error e⟩]) (.error (.store e) : Except AccessError α) := by
  intro _ same
  cases same
  exact ⟨past, request, e, rfl, rfl⟩

theorem Faultless.failed {α : Type} {past : List Exchange} {e : AccessError}
    (faultless : Faultless past (.error e : Except AccessError α)) : ∃ x ∈ past, x.Failed := by
  rcases faultless e rfl with ⟨front, request, cause, rfl, -⟩
  exact ⟨_, List.mem_append_right _ List.mem_cons_self, trivial⟩

section Upkeep

variable {rely : Exchange → Prop} {mailbox : MailboxId}

theorem Plan.Meets.bind_faultless {α β : Type} {each : List Exchange → Exchange → Prop} {plan : Plan α}
    {f : α → Plan β} {past : List Exchange} (first : plan.Meets rely each Faultless past)
    (rest : ∀ past a, (f a).Meets rely each Faultless past) :
    (plan >>= f).Meets rely each Faultless past := by
  refine first.bind (fun past a _ => rest past a) ?_
  intro past e failed _ same
  cases same
  exact failed e rfl

theorem Index.applyChange_meets (change : Change) (past : List Exchange) :
    (applyChange mailbox change).Meets rely (fun _ x => x.call.Rowwise mailbox) Faultless past := by
  have single (request : Request) (rowwise : request.Rowwise mailbox) :
      (Plan.ask request).Meets rely (fun _ x => x.call.Rowwise mailbox) Faultless past := by
    intro answer relied
    refine ⟨rowwise, ?_⟩
    cases answer with
    | ok reply => exact faultless_ok
    | error e => exact faultless_concat
  unfold applyChange
  split
  · next rights granted =>
      refine Plan.Meets.ite (fun _ => single (.delete change.key mailbox) rfl) ?_
      intro granting
      exact single (.upsert change.key mailbox rights) ⟨rfl, fun none => granting (Rights.isEmpty_iff.mpr none)⟩
  · exact single (.delete change.key mailbox) rfl

theorem Index.applyChanges_meets (changes : List Change) (past : List Exchange) :
    (applyChanges mailbox changes).Meets rely (fun _ x => x.call.Rowwise mailbox) Faultless past := by
  induction changes generalizing past with
  | nil => exact faultless_ok
  | cons change changes ih => exact (applyChange_meets change past).bind_faultless fun past _ => ih past

theorem Index.repair_meets (acl : Acl) (past : List Exchange) :
    (repair mailbox acl).Meets rely (fun _ x => x.call.Rowwise mailbox) Faultless past := by
  have listing : (Call.store (.listMailbox mailbox)).Rowwise mailbox := rfl
  refine Plan.Meets.ask_bind (fun _ _ => listing) ?_ (fun _ => faultless_concat)
  intro rows _
  exact (applyChanges_meets _ _).bind_faultless fun _ _ => faultless_ok

theorem Plan.Meets.upkeep {α : Type} {plan : Plan α} {past : List Exchange}
    {post : List Exchange → Except AccessError α → Prop}
    (meets : plan.Meets rely (fun _ x => x.call.Rowwise mailbox) post past) :
    plan.Meets rely (fun _ x => Upkeep mailbox x.call) post past :=
  meets.mono (fun _ _ => Call.Rowwise.upkeep) (fun _ _ => id)

theorem Coder.getVersioned_eq (coder : Coder) :
    coder.getVersioned mailbox = Plan.ask (.read mailbox) >>= fun seen => pure (coder.found seen) := by
  unfold getVersioned
  congr 1
  funext seen
  cases seen <;> rfl

theorem Editor.getVersioned_eq (editor : Editor) :
    editor.getVersioned mailbox = Plan.ask (.read mailbox) >>= fun seen => pure (editor.found seen) :=
  editor.coder.getVersioned_eq

theorem Coder.getVersioned_bind {β : Type} {each : List Exchange → Exchange → Prop} {past : List Exchange}
    {post : List Exchange → Except AccessError β → Prop} {coder : Coder} {f : Option Versioned → Plan β}
    (here : ∀ answer, rely ⟨.store (.read mailbox), answer⟩ → each past ⟨.store (.read mailbox), answer⟩)
    (ok : ∀ seen, rely ⟨.store (.read mailbox), .ok seen⟩ →
      (f (coder.found seen)).Meets rely each post (past ++ [⟨.store (.read mailbox), .ok seen⟩]))
    (error : ∀ e, post (past ++ [⟨.store (.read mailbox), .error e⟩]) (.error (.store e))) :
    (coder.getVersioned mailbox >>= f).Meets rely each post past := by
  rw [coder.getVersioned_eq, Plan.bind_eq, Plan.bind_eq, Plan.bind_assoc]
  exact Plan.Meets.ask_bind here ok error

theorem Coder.settle_meets (coder : Coder) (rounds : Nat) (synced : UInt64) (past : List Exchange) :
    (coder.settle mailbox rounds synced).Meets rely (fun _ x => Upkeep mailbox x.call) Faultless past := by
  induction rounds generalizing synced past with
  | zero => exact faultless_ok
  | succ rounds ih =>
      refine Coder.getVersioned_bind (fun _ _ => .read) ?_ (fun _ => faultless_concat)
      intro seen _
      cases seen with
      | none => exact faultless_ok
      | some record =>
          refine Plan.Meets.ite (fun _ => faultless_ok) ?_
          intro _
          exact (Index.repair_meets _ _).upkeep.bind_faultless fun past _ => ih record.version past

theorem Coder.syncIndex_meets (coder : Coder) (editor : Editor) (written : Written) (diff : Diff)
    (past : List Exchange) :
    (coder.syncIndex editor mailbox written diff).Meets rely (fun _ x => Upkeep mailbox x.call) Faultless past := by
  refine Plan.Meets.ite ?_ ?_
  · intro _
    exact (Index.repair_meets _ _).upkeep.bind_faultless fun past _ => coder.settle_meets _ _ past
  · intro _
    exact (Index.applyChanges_meets _ _).upkeep.bind_faultless fun past _ => coder.settle_meets _ _ past

end Upkeep

end MailboxAccess
