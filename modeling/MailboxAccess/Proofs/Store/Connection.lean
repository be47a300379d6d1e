import MailboxAccess.Store.Connection

/-!
What scripts do, whatever the engine refuses. `Meets` says it of a script within a transaction, where the file is out
of reach, and `transaction_commits` of the whole transaction.
-/
namespace MailboxAccess.Script

variable {α β : Type} {draft : Database}

theorem bind_run (script : Script α) (f : α → Script β) (c : Connection) :
    (script >>= f) c =
      match script c with
      | (.ok a, next) => f a next
      | (.error e, next) => (.error e, next) := by
  change ExceptT.bindCont f (script c).1 (script c).2 = _
  rcases script c with ⟨result, next⟩
  cases result <;> rfl

theorem tryCatch_run (script : Script α) (handle : StoreError → Script α) (c : Connection) :
    (tryCatch script handle : Script α) c =
      match script c with
      | (.ok a, next) => (.ok a, next)
      | (.error e, next) => handle e next := by
  simp only [tryCatch, tryCatchThe, MonadExceptOf.tryCatch, ExceptT.tryCatch, ExceptT.mk, bind, StateT.bind]
  rcases script c with ⟨result, next⟩
  cases result <;> rfl

structure Refused (refusals : List Bool) (e : StoreError) : Prop where
  reported : e = .database
  foreseen : true ∈ refusals

theorem Refused.mono {refusals later : List Bool} {e : StoreError} (refused : Refused later e)
    (fewer : later ⊆ refusals) :
    Refused refusals e := ⟨refused.reported, fewer refused.foreseen⟩

/-- How a script ends: it has come to a result and a draft with `post`, or it has failed, for a `reason` that is its own
or because the engine refused something. -/
inductive Ends (post : α → Database → Prop) (reason : StoreError → Prop) (file : Database) (refusals : List Bool) :
    Except StoreError α × Connection → Prop where
  | done {a : α} {draft : Database} {later : List Bool} (fewer : later ⊆ refusals) (holds : post a draft) :
      Ends post reason file refusals (.ok a, ⟨file, some draft, later⟩)
  | failed {e : StoreError} {last : Option Database} {later : List Bool} (why : Refused refusals e ∨ reason e) :
      Ends post reason file refusals (.error e, ⟨file, last, later⟩)

def Meets (script : Script α) (draft : Database) (post : α → Database → Prop) (reason : StoreError → Prop) : Prop :=
  ∀ (file : Database) (refusals : List Bool), Ends post reason file refusals (script ⟨file, some draft, refusals⟩)

section Meets

variable {script : Script α} {post post' : α → Database → Prop} {reason reason' : StoreError → Prop}

theorem Meets.mono (meets : script.Meets draft post reason) (stronger : ∀ a after, post a after → post' a after)
    (explained : ∀ e, reason e → reason' e) : script.Meets draft post' reason' := by
  intro file refusals
  have ends := meets file refusals
  generalize script ⟨file, some draft, refusals⟩ = result at ends ⊢
  cases ends with
  | done fewer holds => exact .done fewer (stronger _ _ holds)
  | failed why => exact .failed (why.imp_right (explained _))

theorem Meets.bind {f : α → Script β} {after : β → Database → Prop} (first : script.Meets draft post reason)
    (rest : ∀ a between, post a between → (f a).Meets between after reason) :
    (script >>= f).Meets draft after reason := by
  intro file refusals
  rw [bind_run]
  have ends := first file refusals
  generalize script ⟨file, some draft, refusals⟩ = result at ends
  cases ends with
  | failed why => exact .failed why
  | @done a between later fewer holds =>
      have onward := rest a between holds file later
      change Ends after reason file refusals (f a ⟨file, some between, later⟩)
      generalize f a ⟨file, some between, later⟩ = result at onward
      cases onward with
      | done fewer' holds' => exact .done (List.Subset.trans fewer' fewer) holds'
      | failed why => exact .failed (why.imp_left fun refused => refused.mono fewer)

theorem meets_pure {a : α} (holds : post a draft) : (pure a : Script α).Meets draft post reason :=
  fun _ _ => .done (List.Subset.refl _) holds

theorem meets_throw {e : StoreError} (own : reason e) : (throw e : Script α).Meets draft post reason :=
  fun _ _ => .failed (.inr own)

end Meets

theorem attempt_cases (act : Connection → Except StoreError (α × Connection)) (c : Connection) :
    (true ∈ c.refusals ∧ attempt act c = (.error .database, { c with refusals := c.refusals.tail })) ∨
      attempt act c =
        match act { c with refusals := c.refusals.tail } with
        | .ok (a, next) => (.ok a, next)
        | .error e => (.error e, { c with refusals := c.refusals.tail }) := by
  by_cases refused : c.refusals.head? = some true
  · exact .inl ⟨List.mem_of_head? refused, if_pos refused⟩
  · exact .inr (if_neg refused)

theorem statement_meets (act : Database → Except StoreError (α × Database)) (draft : Database) :
    (statement act).Meets draft (fun a after => act draft = .ok (a, after)) fun e => act draft = .error e := by
  intro file refusals
  rcases attempt_cases _ ⟨file, some draft, refusals⟩ with ⟨refused, ran⟩ | ran
  · rw [statement, ran]
    exact .failed (.inl ⟨rfl, refused⟩)
  · rw [statement, ran]
    cases acted : act draft with
    | ok result =>
        simp only [acted, bind, Except.bind, pure, Except.pure]
        exact .done (fun _ => List.mem_of_mem_tail) rfl
    | error e =>
        simp only [acted, bind, Except.bind]
        exact .failed (.inr rfl)

section Statement

variable {act : Database → Except StoreError (α × Database)} {post : α → Database → Prop} {reason : StoreError → Prop}

theorem Meets.statement {a : α} {after : Database} (acted : act draft = .ok (a, after)) (holds : post a after) :
    (Script.statement act).Meets draft post reason := by
  refine (statement_meets act draft).mono ?_ ?_
  · intro b between same
    rw [acted] at same
    cases same
    exact holds
  · intro e failed
    rw [acted] at failed
    cases failed

theorem Meets.failing {e : StoreError} (failed : act draft = .error e) (own : reason e) :
    (Script.statement act).Meets draft post reason := by
  refine (statement_meets act draft).mono ?_ ?_
  · intro b between acted
    rw [failed] at acted
    cases acted
  · intro other same
    rw [failed] at same
    cases same
    exact own

variable {f : α → Script β} {last : β → Database → Prop}

theorem Meets.statement_bind {a : α} {between : Database} (acted : act draft = .ok (a, between))
    (rest : (f a).Meets between last reason) : (Script.statement act >>= f).Meets draft last reason := by
  have first : (Script.statement act).Meets draft (fun b after => b = a ∧ after = between) reason :=
    .statement acted ⟨rfl, rfl⟩
  refine first.bind ?_
  intro b after same
  rcases same with ⟨rfl, rfl⟩
  exact rest

theorem Meets.failing_bind {e : StoreError} (failed : act draft = .error e) (own : reason e) :
    (Script.statement act >>= f).Meets draft last reason := by
  have first : (Script.statement act).Meets draft (fun _ _ => False) reason := .failing failed own
  exact first.bind fun _ _ => False.elim

end Statement

theorem start_cases (file : Database) (refusals : List Bool) :
    (true ∈ refusals ∧ start ⟨file, none, refusals⟩ = (.error .database, ⟨file, none, refusals.tail⟩)) ∨
      start ⟨file, none, refusals⟩ = (.ok (), ⟨file, some file, refusals.tail⟩) :=
  attempt_cases _ ⟨file, none, refusals⟩

theorem commit_cases (file draft : Database) (refusals : List Bool) :
    (true ∈ refusals ∧ commit ⟨file, some draft, refusals⟩ = (.error .database, ⟨file, some draft, refusals.tail⟩)) ∨
      commit ⟨file, some draft, refusals⟩ = (.ok (), ⟨draft, none, refusals.tail⟩) :=
  attempt_cases _ ⟨file, some draft, refusals⟩

inductive Commits (post : α → Database → Prop) (reason : StoreError → Prop) (file : Database) (refusals : List Bool) :
    Except StoreError α × Connection → Prop where
  | committed {a : α} {after : Database} {later : List Bool} (holds : post a after) :
      Commits post reason file refusals (.ok a, ⟨after, none, later⟩)
  | rolledBack {e : StoreError} {later : List Bool} (why : Refused refusals e ∨ reason e) :
      Commits post reason file refusals (.error e, ⟨file, none, later⟩)

theorem transaction_commits {body : Script α} {file : Database} {post : α → Database → Prop}
    {reason : StoreError → Prop} (meets : body.Meets file post reason) (refusals : List Bool) :
    Commits post reason file refusals (transaction body ⟨file, none, refusals⟩) := by
  rw [transaction, bind_run]
  rcases start_cases file refusals with ⟨refused, started⟩ | started
  · rw [started]
    exact .rolledBack (.inl ⟨rfl, refused⟩)
  · rw [started]
    dsimp only
    rw [tryCatch_run, bind_run]
    have ends := meets file refusals.tail
    generalize body ⟨file, some file, refusals.tail⟩ = result at ends
    cases ends with
    | failed why =>
        exact .rolledBack (why.imp_left fun refused => refused.mono fun _ => List.mem_of_mem_tail)
    | @done a after later fewer holds =>
        dsimp only
        rw [bind_run]
        rcases commit_cases file after later with ⟨refused, ran⟩ | ran
        · rw [ran]
          exact .rolledBack (.inl ⟨rfl, List.mem_of_mem_tail (fewer refused)⟩)
        · rw [ran]
          exact .committed holds

end MailboxAccess.Script
