import MailboxAccess.Proofs.Course

/-!
Version numbers along a course. Every commit raises the version by one, and only a reset sets it back, so
that equal versions with no reset between them mean equal records, unless the numbers have wrapped around.
-/
namespace MailboxAccess

/-- The version that an update gives to what had this version. -/
def bump : Option UInt64 → Option UInt64
  | none => some Record.firstVersion
  | some version => some (version + 1)

def upcoming : Option UInt64 → Nat
  | none => 0
  | some version => version.toNat + 1

theorem bump_iterate_some (version : UInt64) (n : Nat) :
    bump^[n] (some version) = some (version + UInt64.ofNat n) := by
  induction n with
  | zero => simp
  | succ n ih =>
      calc
        bump^[n + 1] (some version) = bump (some (version + UInt64.ofNat n)) := by
          rw [Function.iterate_succ_apply', ih]
        _ = some (version + (UInt64.ofNat n + 1)) := by rw [bump, UInt64.add_assoc]
        _ = some (version + UInt64.ofNat (n + 1)) := by
          rw [UInt64.ofNat_add]
          rfl

theorem bump_iterate_none (n : Nat) : bump^[n + 1] none = some (UInt64.ofNat n) := by
  calc
    bump^[n + 1] none = bump^[n] (some Record.firstVersion) := Function.iterate_succ_apply ..
    _ = some (Record.firstVersion + UInt64.ofNat n) := bump_iterate_some ..
    _ = some (UInt64.ofNat n) := by simp [Record.firstVersion]

/-- A version comes back only after all the others. -/
theorem bump_iterate_some_eq_iff (version : UInt64) (n : Nat) :
    bump^[n] (some version) = some version ↔ 2 ^ 64 ∣ n := by
  rw [bump_iterate_some, Option.some.injEq, UInt64.add_eq_left]
  constructor
  · intro zero
    have residue := congrArg UInt64.toNat zero
    rw [UInt64.toNat_ofNat'] at residue
    exact Nat.dvd_of_mod_eq_zero residue
  · intro divides
    apply UInt64.toNat_inj.mp
    rw [UInt64.toNat_ofNat']
    exact Nat.mod_eq_zero_of_dvd divides

theorem bump_iterate_none_eq_iff (n : Nat) : bump^[n] none = none ↔ n = 0 := by
  cases n with
  | zero => simp
  | succ n => simp [bump_iterate_none]

theorem eq_zero_of_bump {version : Option UInt64} {n : Nat} (few : upcoming version + n ≤ 2 ^ 64)
    (same : bump^[n] version = version) : n = 0 := by
  cases version with
  | none => exact (bump_iterate_none_eq_iff n).mp same
  | some version =>
      have divides := (bump_iterate_some_eq_iff version n).mp same
      rw [upcoming] at few
      exact Nat.eq_zero_of_dvd_of_lt divides (by omega)

theorem toNat_of_bump {version : Option UInt64} {next : UInt64} {n : Nat}
    (few : upcoming version + (n + 1) ≤ 2 ^ 64) (bumped : bump^[n + 1] version = some next) :
    next.toNat = upcoming version + n := by
  cases version with
  | none =>
      rw [bump_iterate_none, Option.some.injEq] at bumped
      rw [← bumped, UInt64.toNat_ofNat']
      simp only [upcoming] at few ⊢
      omega
  | some version =>
      rw [bump_iterate_some, Option.some.injEq] at bumped
      rw [← bumped, UInt64.toNat_add, UInt64.toNat_ofNat']
      simp only [upcoming] at few ⊢
      omega

theorem upcoming_bump {version : Option UInt64} {n : Nat} (few : upcoming version + n ≤ 2 ^ 64) :
    upcoming (bump^[n] version) = upcoming version + n := by
  cases n with
  | zero => rfl
  | succ n =>
      have there : ∃ next, bump^[n + 1] version = some next := by
        rw [Function.iterate_succ_apply']
        cases bump^[n] version <;> exact ⟨_, rfl⟩
      rcases there with ⟨next, bumped⟩
      have number := toNat_of_bump few bumped
      rw [bumped, upcoming]
      omega

def storedRecords (mailbox : MailboxId) (history : List Happening) : List Record :=
  history.filterMap (Happening.stored? mailbox)

theorem storedRecords_append (mailbox : MailboxId) (earlier later : List Happening) :
    storedRecords mailbox (earlier ++ later) = storedRecords mailbox earlier ++ storedRecords mailbox later :=
  List.filterMap_append

theorem storedRecords_concat (mailbox : MailboxId) (earlier : List Happening) (newest : Happening) :
    storedRecords mailbox (earlier ++ [newest]) =
      storedRecords mailbox earlier ++ (newest.stored? mailbox).toList := by
  rw [storedRecords_append]
  cases stored : newest.stored? mailbox <;> simp [storedRecords, stored]

theorem record_replay_append {mailbox : MailboxId} {view : View} {earlier later : List Happening}
    (quiet : storedRecords mailbox later = []) :
    (view.replay mailbox (earlier ++ later)).record = (view.replay mailbox earlier).record := by
  rw [View.replay_append, View.record_replay, latest]
  rw [storedRecords] at quiet
  rw [quiet]
  rfl

/-- A reset has replaced the record. -/
def Happening.Overwrites (mailbox : MailboxId) (happening : Happening) : Prop :=
  ∃ acl, happening.exchange = ⟨.store (.overwrite mailbox acl), .ok ()⟩

variable {tasks : List Task} {mailbox : MailboxId} {view : View}

theorem Stores.version {before : List Happening} {happening : Happening} {record : Record}
    (stores : Stores tasks mailbox view before happening record) (kept : ¬ happening.Overwrites mailbox) :
    some record.version = bump ((view.replay mailbox before).record.map Record.version) := by
  cases stores with
  | update present attempting call won current =>
      rw [current]
      next seen _ => cases seen <;> rfl
  | reset present first => exact absurd ⟨_, rfl⟩ kept

theorem Course.calm {history : List Happening} (course : Course tasks mailbox view history)
    (noReset : ∀ task ∈ tasks, ∀ editor acl, task ≠ .reset editor mailbox acl) :
    ∀ happening ∈ history, ¬ happening.Overwrites mailbox := by
  intro happening member overwrites
  rcases List.append_of_mem member with ⟨before, after, rfl⟩
  rcases happening with ⟨actor, x⟩
  rcases overwrites with ⟨acl, rfl⟩
  have stored : ∃ record, Stores tasks mailbox view before
      ⟨actor, .store (.overwrite mailbox acl), .ok ()⟩ record := ⟨_, course.upTo.stores (if_pos rfl)⟩
  rcases stored with ⟨record, stores⟩
  cases stores with
  | update present attempting call won current => cases won
  | reset present first => exact noReset _ (List.mem_of_getElem? present) _ _ rfl

theorem Course.version_eq {earlier later : List Happening}
    (course : Course tasks mailbox view (earlier ++ later))
    (calm : ∀ happening ∈ later, ¬ happening.Overwrites mailbox) :
    (view.replay mailbox (earlier ++ later)).record.map Record.version =
      bump^[(storedRecords mailbox later).length] ((view.replay mailbox earlier).record.map Record.version) := by
  induction later using List.reverseRecOn with
  | nil => rw [List.append_nil]; rfl
  | append_singleton later newest ih =>
      rw [← List.append_assoc] at course ⊢
      have before := ih course.earlier fun happening member => calm happening (List.mem_append_left _ member)
      rw [storedRecords_concat, View.replay_concat, View.record_next]
      cases stored : newest.exchange.stored? mailbox with
      | none =>
          rw [Option.none_or, before, Happening.stored?, stored]
          simp
      | some record =>
          have last := calm newest (List.mem_append_right _ List.mem_cons_self)
          have one : (newest.stored? mailbox).toList.length = 1 := by
            rw [Happening.stored?, stored]
            rfl
          rw [Option.some_or, Option.map_some, List.length_append, one]
          calc
            some record.version = bump ((view.replay mailbox (earlier ++ later)).record.map Record.version) :=
              (course.stores stored).version last
            _ = bump (bump^[(storedRecords mailbox later).length]
                ((view.replay mailbox earlier).record.map Record.version)) := by rw [before]
            _ = bump^[(storedRecords mailbox later).length + 1]
                ((view.replay mailbox earlier).record.map Record.version) :=
              (Function.iterate_succ_apply' ..).symm

theorem Course.upcoming_eq {history : List Happening} (course : Course tasks mailbox view history)
    (calm : ∀ happening ∈ history, ¬ happening.Overwrites mailbox)
    (few : upcoming (view.record.map Record.version) + (storedRecords mailbox history).length ≤ 2 ^ 64) :
    upcoming ((view.replay mailbox history).record.map Record.version) =
      upcoming (view.record.map Record.version) + (storedRecords mailbox history).length := by
  have whole : Course tasks mailbox view ([] ++ history) := course
  have version := whole.version_eq calm
  rw [List.nil_append] at version
  rw [version]
  exact upcoming_bump few

/-- Two readings of one version are readings of one record, unless a reset came between. -/
theorem Course.record_eq {earlier later : List Happening}
    (course : Course tasks mailbox view (earlier ++ later))
    (calm : ∀ happening ∈ earlier ++ later, ¬ happening.Overwrites mailbox)
    (few : upcoming (view.record.map Record.version) + (storedRecords mailbox (earlier ++ later)).length ≤ 2 ^ 64)
    (same : (view.replay mailbox (earlier ++ later)).record.map Record.version =
      (view.replay mailbox earlier).record.map Record.version) :
    (view.replay mailbox (earlier ++ later)).record = (view.replay mailbox earlier).record := by
  rw [storedRecords_append, List.length_append] at few
  have version := course.version_eq fun happening member => calm happening (List.mem_append_right _ member)
  have number := course.earlier.upcoming_eq
    (fun happening member => calm happening (List.mem_append_left _ member)) (by omega)
  have none : (storedRecords mailbox later).length = 0 := by
    apply eq_zero_of_bump
    · rw [number]
      omega
    · exact version.symm.trans same
  exact record_replay_append (List.length_eq_zero_iff.mp none)

end MailboxAccess
