import Mathlib.Data.List.Basic
import Mathlib.Data.List.Induction

namespace MailboxAccess

variable {α β : Type}

theorem split_concat {history before after : List α} {newest item : α}
    (split : history ++ [newest] = before ++ item :: after) :
    (history = before ∧ newest = item ∧ after = []) ∨
      ∃ between, after = between ++ [newest] ∧ history = before ++ item :: between := by
  cases after using List.reverseRecOn with
  | nil =>
      rcases List.append_inj' split rfl with ⟨same, last⟩
      exact .inl ⟨same, List.singleton_inj.mp last, rfl⟩
  | append_singleton between last =>
      rw [← List.cons_append, ← List.append_assoc] at split
      rcases List.append_inj' split rfl with ⟨same, newest⟩
      exact .inr ⟨between, by rw [List.singleton_inj.mp newest], same⟩

theorem split_cases {before after before' after' : List α} {item item' : α}
    (split : before ++ item :: after = before' ++ item' :: after') :
    (∃ between, before' = before ++ item :: between ∧ after = between ++ item' :: after') ∨
      (before = before' ∧ item = item' ∧ after = after') ∨
      ∃ between, before = before' ++ item' :: between ∧ after' = between ++ item :: after := by
  rcases List.append_eq_append_iff.mp split with ⟨gap, first, second⟩ | ⟨gap, first, second⟩
  · cases gap with
    | nil =>
        rw [List.append_nil] at first
        cases second
        exact .inr (.inl ⟨first.symm, rfl, rfl⟩)
    | cons head gap =>
        cases second
        exact .inl ⟨gap, first, rfl⟩
  · cases gap with
    | nil =>
        rw [List.append_nil] at first
        cases second
        exact .inr (.inl ⟨first, rfl, rfl⟩)
    | cons head gap =>
        cases second
        exact .inr (.inr ⟨gap, first, rfl⟩)

theorem never_or_last (happens : α → Prop) (history : List α) :
    (∀ item ∈ history, ¬ happens item) ∨
      ∃ before item after, history = before ++ item :: after ∧ happens item ∧
        ∀ later ∈ after, ¬ happens later := by
  induction history using List.reverseRecOn with
  | nil => exact .inl nofun
  | append_singleton history newest ih =>
      by_cases now : happens newest
      · exact .inr ⟨history, newest, [], rfl, now, nofun⟩
      · have extended (items : List α) (never : ∀ item ∈ items, ¬ happens item) :
            ∀ item ∈ items ++ [newest], ¬ happens item := by
          intro item member
          rcases List.mem_append.mp member with earlier | last
          · exact never item earlier
          · rw [List.mem_singleton.mp last]
            exact now
        rcases ih with never | ⟨before, item, after, rfl, once, never⟩
        · exact .inl (extended history never)
        · exact .inr ⟨before, item, after ++ [newest], by simp, once, extended after never⟩

def latest (learn : α → Option β) (items : List α) : Option β :=
  (items.filterMap learn).getLast?

theorem latest_append (learn : α → Option β) (earlier later : List α) :
    latest learn (earlier ++ later) = (latest learn later).or (latest learn earlier) := by
  rw [latest, List.filterMap_append, List.getLast?_append]
  rfl

theorem latest_singleton (learn : α → Option β) (item : α) :
    latest learn [item] = learn item := by
  cases learned : learn item <;> simp [latest, learned]

theorem latest_eq_none_iff {learn : α → Option β} {items : List α} :
    latest learn items = none ↔ ∀ item ∈ items, learn item = none := by
  rw [latest, List.getLast?_eq_none_iff, List.filterMap_eq_nil_iff]

/-- The only place where something was learned. -/
theorem split_unique (learn : α → Option β) {before after before' after' : List α} {item item' : α}
    (split : before ++ item :: after = before' ++ item' :: after') (learned : learn item ≠ none)
    (earlier : ∀ other ∈ before', learn other = none) (later : ∀ other ∈ after', learn other = none) :
    before = before' ∧ item = item' ∧ after = after' := by
  rcases split_cases split with ⟨between, rfl, -⟩ | same | ⟨between, -, rfl⟩
  · exact absurd (earlier item (by simp)) learned
  · exact same
  · exact absurd (later item (by simp)) learned

theorem exists_of_latest {learn : α → Option β} {items : List α} {value : β}
    (learned : latest learn items = some value) :
    ∃ before item after, items = before ++ item :: after ∧ learn item = some value ∧
      ∀ later ∈ after, learn later = none := by
  induction items using List.reverseRecOn with
  | nil => cases learned
  | append_singleton items item ih =>
      rw [latest_append, latest_singleton] at learned
      cases here : learn item with
      | some found =>
          rw [here, Option.some_or] at learned
          cases learned
          exact ⟨items, item, [], rfl, here, nofun⟩
      | none =>
          rw [here, Option.none_or] at learned
          rcases ih learned with ⟨before, found, after, rfl, value, silent⟩
          refine ⟨before, found, after ++ [item], by simp, value, ?_⟩
          intro later member
          rcases List.mem_append.mp member with earlier | last
          · exact silent later earlier
          · rw [List.mem_singleton.mp last]
            exact here

end MailboxAccess
