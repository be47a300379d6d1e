import MailboxAccess.FormatError
import MailboxAccess.Right

namespace MailboxAccess

/-- Bit `i` stands for the `i`th right of `Right.all`. -/
structure Rights where
  mask : BitVec 11
  deriving DecidableEq, Repr

namespace Rights

def empty : Rights := ⟨0#11⟩

def full : Rights := ⟨BitVec.allOnes 11⟩

def only (right : Right) : Rights := ⟨BitVec.twoPow 11 right.index⟩

def union (a b : Rights) : Rights := ⟨a.mask ||| b.mask⟩

def except (a b : Rights) : Rights := ⟨a.mask &&& ~~~b.mask⟩

def contains (a : Rights) (right : Right) : Bool := a.mask.getLsbD right.index

def containsAll (a b : Rights) : Bool := a.mask &&& b.mask == b.mask

def isEmpty (a : Rights) : Bool := a.mask == 0#11

def ofList (rights : List Right) : Rights := rights.foldl (fun a right => a.union (only right)) empty

def toList (a : Rights) : List Right := Right.all.filter a.contains

def size (a : Rights) : Nat := a.toList.length

def text (a : Rights) : String := String.ofList (a.toList.map Right.letter)

instance : Ord Rights := ⟨fun a b => compare a.mask.toNat b.mask.toNat⟩

theorem compare_masks (a b : Rights) : compare a b = compare a.mask.toNat b.mask.toNat := rfl

instance : Std.TransOrd Rights where
  eq_swap {a b} := by
    simp only [compare_masks]
    exact Std.OrientedCmp.eq_swap
  isLE_trans {a b c} first second := by
    simp only [compare_masks] at *
    exact Std.TransCmp.isLE_trans first second

instance : Std.LawfulEqOrd Rights where
  compare_self {a} := by simp only [Std.ReflCmp.compare_self]
  eq_of_compare {a b} same := by
    simp only [compare_masks] at same
    have masks := BitVec.eq_of_toNat_eq (Std.LawfulEqCmp.eq_of_compare same)
    cases a
    cases b
    simpa using masks

theorem contains_empty (right : Right) : empty.contains right = false := by
  simp [contains, empty]

theorem contains_only (a b : Right) : (only a).contains b = decide (a = b) := by
  cases a <;> cases b <;> decide

theorem contains_union (a b : Rights) (right : Right) :
    (a.union b).contains right = (a.contains right || b.contains right) := by
  simp [contains, union]

theorem contains_except (a b : Rights) (right : Right) :
    (a.except b).contains right = (a.contains right && !b.contains right) := by
  simp [contains, except, right.index_lt]

theorem mem_toList_iff {a : Rights} {right : Right} : right ∈ a.toList ↔ a.contains right = true := by
  simp [toList, right.mem_all]

theorem ext_contains {a b : Rights} (h : ∀ right, a.contains right = b.contains right) : a = b := by
  rcases a with ⟨a⟩
  rcases b with ⟨b⟩
  congr 1
  apply BitVec.eq_of_getLsbD_eq
  intro i below
  have each : ∀ j : Fin 11, ∃ right ∈ Right.all, right.index = j := by decide
  rcases each ⟨i, below⟩ with ⟨right, _, place⟩
  subst place
  exact h right

theorem isEmpty_iff {a : Rights} : a.isEmpty = true ↔ a = empty := by
  cases a
  simp [isEmpty, empty]

theorem union_ne_empty {a b : Rights} (h : b ≠ empty) : a.union b ≠ empty := by
  intro none
  apply h
  apply ext_contains
  intro right
  have bits := congrArg (fun rights => rights.contains right) none
  simp only [contains_union, contains_empty, Bool.or_eq_false_iff] at bits
  rw [bits.2, contains_empty]

end Rights

end MailboxAccess
