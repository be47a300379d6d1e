import MailboxAccess.Proofs.Grants
import Mathlib.Order.Heyting.Basic

/-!
Lists ordered by what they grant. To join two lists is to take the least list above both, and to take one list out
of another leaves the least list that makes up for it, so lists are a co-Heyting algebra and obey the laws of those
(`residuated_lattice`).
-/
namespace MailboxAccess

namespace Rights

variable {a b c : Rights}

theorem contains_and (a b : Rights) (right : Right) :
    (Rights.mk (a.mask &&& b.mask)).contains right = (a.contains right && b.contains right) := by
  simp [contains]

theorem containsAll_iff : a.containsAll b = true ↔ ∀ right, b.contains right = true → a.contains right = true := by
  have masks : a.containsAll b = true ↔ Rights.mk (a.mask &&& b.mask) = b := by
    cases b
    simp [containsAll]
  rw [masks]
  constructor
  · intro within right held
    rw [← within, contains_and, Bool.and_eq_true] at held
    exact held.1
  · intro within
    apply ext_contains
    intro right
    rw [contains_and]
    cases held : b.contains right with
    | false => exact Bool.and_false _
    | true => rw [within right held, Bool.and_true]

theorem containsAll_union_iff :
    c.containsAll (a.union b) = true ↔ c.containsAll a = true ∧ c.containsAll b = true := by
  simp only [containsAll_iff, contains_union, Bool.or_eq_true]
  constructor
  · intro above
    exact ⟨fun right held => above right (.inl held), fun right held => above right (.inr held)⟩
  · intro both right held
    exact held.elim (both.1 right) (both.2 right)

theorem containsAll_except_iff : c.containsAll (a.except b) = true ↔ (b.union c).containsAll a = true := by
  simp only [containsAll_iff, contains_union, contains_except, Bool.and_eq_true, Bool.or_eq_true, Bool.not_eq_true']
  constructor
  · intro above right held
    by_cases taken : b.contains right = true
    · exact .inl taken
    · exact .inr (above right ⟨held, Bool.eq_false_iff.mpr taken⟩)
  · intro above right held
    rcases above right held.1 with taken | left
    · rw [held.2] at taken
      cases taken
    · exact left

end Rights

namespace Acl

/-- Every key has in `b` at least the rights that it has in `a`. -/
def Below (a b : Acl) : Prop := ∀ key, (b.rightsOf key).containsAll (a.rightsOf key) = true

theorem below_refl (a : Acl) : a.Below a := by
  intro key
  exact Rights.containsAll_iff.mpr fun right held => held

theorem below_trans {a b c : Acl} (first : a.Below b) (second : b.Below c) : a.Below c := by
  intro key
  apply Rights.containsAll_iff.mpr
  intro right held
  exact Rights.containsAll_iff.mp (second key) right (Rights.containsAll_iff.mp (first key) right held)

theorem below_antisymm {a b : Acl} (first : a.Below b) (second : b.Below a) : a = b := by
  apply ext_rightsOf
  intro key
  apply Rights.ext_contains
  intro right
  rw [Bool.eq_iff_iff]
  exact ⟨Rights.containsAll_iff.mp (first key) right, Rights.containsAll_iff.mp (second key) right⟩

theorem empty_below (a : Acl) : empty.Below a := by
  intro key
  apply Rights.containsAll_iff.mpr
  intro right held
  rw [rightsOf, get?_empty, Option.getD_none, Rights.contains_empty] at held
  cases held

theorem union_below_iff {a b c : Acl} : (a.union b).Below c ↔ a.Below c ∧ b.Below c := by
  simp only [Below, rightsOf_union, Rights.containsAll_union_iff, forall_and]

theorem except_below_iff {a b c : Acl} : (a.except b).Below c ↔ a.Below (b.union c) := by
  simp only [Below, rightsOf_except, rightsOf_union, Rights.containsAll_except_iff]

def meet (a b : Acl) : Acl := a.except (a.except b)

theorem contains_meet (a b : Acl) (key : EntryKey) (right : Right) :
    ((a.meet b).rightsOf key).contains right =
      ((a.rightsOf key).contains right && (b.rightsOf key).contains right) := by
  rw [meet, rightsOf_except, rightsOf_except, Rights.contains_except, Rights.contains_except]
  cases (a.rightsOf key).contains right <;> simp

theorem below_meet_iff {a b c : Acl} : c.Below (a.meet b) ↔ c.Below a ∧ c.Below b := by
  simp only [Below, Rights.containsAll_iff, contains_meet, Bool.and_eq_true, ← forall_and]

instance : GeneralizedCoheytingAlgebra Acl where
  le := Below
  le_refl := below_refl
  le_trans _ _ _ := below_trans
  le_antisymm _ _ := below_antisymm
  sup := union
  le_sup_left a b := (union_below_iff.mp (below_refl (a.union b))).1
  le_sup_right a b := (union_below_iff.mp (below_refl (a.union b))).2
  sup_le _ _ _ first second := union_below_iff.mpr ⟨first, second⟩
  inf := meet
  inf_le_left a b := (below_meet_iff.mp (below_refl (a.meet b))).1
  inf_le_right a b := (below_meet_iff.mp (below_refl (a.meet b))).2
  le_inf _ _ _ first second := below_meet_iff.mpr ⟨first, second⟩
  bot := empty
  bot_le := empty_below
  sdiff := except
  sdiff_le_iff _ _ _ := except_below_iff

/-- Union is the join and subtraction its residual, and lists that are below one another are equal. The equations are
those of every co-Heyting algebra. -/
theorem residuated_lattice (a b c : Acl) :
    ((a.union b).Below c ↔ a.Below c ∧ b.Below c) ∧
      ((a.except b).Below c ↔ a.Below (b.union c)) ∧
      (a.Below b ∧ b.Below a ↔ a = b) ∧
      a.union b = b.union a ∧ (a.union b).union c = a.union (b.union c) ∧ a.union a = a ∧
      (a.union b).except b = a.except b ∧ a.except (b.union c) = (a.except b).except c := by
  refine ⟨union_below_iff, except_below_iff, ⟨?_, ?_⟩, ?_, ?_, ?_, ?_, ?_⟩
  · intro both
    exact below_antisymm both.1 both.2
  · intro same
    subst same
    exact ⟨below_refl a, below_refl a⟩
  · exact sup_comm a b
  · exact sup_assoc a b c
  · exact sup_idem a
  · exact sup_sdiff_right_self
  · exact (sdiff_sdiff a b c).symm

end Acl

end MailboxAccess
