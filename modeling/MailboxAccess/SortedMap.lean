/-!
Finite maps kept as lists in strictly ascending key order, so that equal maps are equal lists. Each
operation is described through `get?`, and `ext_get?` says that `get?` determines the map.
-/
namespace MailboxAccess

variable {κ β : Type} [Ord κ]

def Ascending (entries : List (κ × β)) : Prop :=
  entries.Pairwise fun a b => compare a.1 b.1 = .lt

structure SortedMap (κ β : Type) [Ord κ] where
  entries : List (κ × β)
  ascending : Ascending entries

namespace SortedMap

instance [DecidableEq κ] [DecidableEq β] : DecidableEq (SortedMap κ β) := fun a b =>
  decidable_of_iff (a.entries = b.entries) (by cases a; cases b; simp)

def empty : SortedMap κ β := ⟨[], List.Pairwise.nil⟩

def find (key : κ) : List (κ × β) → Option β
  | [] => none
  | (k, v) :: rest => if compare key k = .eq then some v else find key rest

def get? (map : SortedMap κ β) (key : κ) : Option β := find key map.entries

def put (key : κ) (value : β) : List (κ × β) → List (κ × β)
  | [] => [(key, value)]
  | (k, v) :: rest =>
    match compare key k with
    | .lt => (key, value) :: (k, v) :: rest
    | .eq => (key, value) :: rest
    | .gt => (k, v) :: put key value rest

def keys (map : SortedMap κ β) : List κ := map.entries.map Prod.fst

def size (map : SortedMap κ β) : Nat := map.entries.length

def isEmpty (map : SortedMap κ β) : Bool := map.entries.isEmpty

def filter (keep : κ → β → Bool) (map : SortedMap κ β) : SortedMap κ β where
  entries := map.entries.filter fun entry => keep entry.1 entry.2
  ascending := map.ascending.filter _

def erase (map : SortedMap κ β) (key : κ) : SortedMap κ β := map.filter fun k _ => compare key k != .eq

theorem mem_of_mem_put {key : κ} {value : β} {entries : List (κ × β)} {entry : κ × β}
    (h : entry ∈ put key value entries) : entry = (key, value) ∨ entry ∈ entries := by
  induction entries with
  | nil => simpa [put] using h
  | cons head rest ih =>
      rcases head with ⟨k, v⟩
      simp only [put] at h
      split at h
      · simpa using h
      · rcases List.mem_cons.mp h with new | old
        · exact .inl new
        · exact .inr (List.mem_cons_of_mem _ old)
      · rcases List.mem_cons.mp h with first | later
        · exact .inr (first ▸ List.mem_cons_self)
        · rcases ih later with new | old
          · exact .inl new
          · exact .inr (List.mem_cons_of_mem _ old)

theorem put_ne_nil (key : κ) (value : β) (entries : List (κ × β)) : put key value entries ≠ [] := by
  cases entries with
  | nil => exact List.cons_ne_nil _ _
  | cons head rest =>
      simp only [put]
      split <;> exact List.cons_ne_nil _ _

theorem find_append (key : κ) (a b : List (κ × β)) :
    find key (a ++ b) = (find key a).or (find key b) := by
  induction a with
  | nil => rfl
  | cons head rest ih =>
      rcases head with ⟨k, v⟩
      by_cases same : compare key k = .eq
      · simp [find, same]
      · simp [find, same, ih]

theorem find_eq_none {key : κ} {entries : List (κ × β)}
    (above : ∀ entry ∈ entries, compare key entry.1 = .lt) : find key entries = none := by
  induction entries with
  | nil => rfl
  | cons head rest ih =>
      have first := above head List.mem_cons_self
      simp [find, first, ih fun entry later => above entry (List.mem_cons_of_mem _ later)]

section LawfulKeys

variable [Std.LawfulEqOrd κ]

theorem find_put (key other : κ) (value : β) (entries : List (κ × β)) :
    find other (put key value entries) =
      if compare other key = .eq then some value else find other entries := by
  induction entries with
  | nil => simp [put, find]
  | cons head rest ih =>
      rcases head with ⟨k, v⟩
      simp only [put]
      split
      · simp [find]
      · next same =>
          have equal := Std.LawfulEqCmp.eq_of_compare same
          subst equal
          by_cases hit : compare other key = .eq <;> simp [find, hit]
      · next greater =>
          have apart : ¬ (compare other k = .eq ∧ compare other key = .eq) := by
            intro both
            have first := Std.LawfulEqCmp.eq_of_compare both.1
            have second := Std.LawfulEqCmp.eq_of_compare both.2
            subst first
            subst second
            simp [Std.ReflCmp.compare_self] at greater
          by_cases here : compare other k = .eq
          · have miss : ¬ compare other key = .eq := fun there => apart ⟨here, there⟩
            simp [find, here, miss]
          · simp [find, here, ih]

theorem find_filter_apart (key other : κ) (entries : List (κ × β)) :
    find other (entries.filter fun entry => compare key entry.1 != .eq) =
      if compare other key = .eq then none else find other entries := by
  induction entries with
  | nil => simp [find]
  | cons head rest ih =>
      rcases head with ⟨k, v⟩
      by_cases gone : compare key k = .eq
      · have equal := Std.LawfulEqCmp.eq_of_compare gone
        subst equal
        by_cases hit : compare other key = .eq <;> simp [find, ih, hit]
      · by_cases here : compare other k = .eq
        · have equal := Std.LawfulEqCmp.eq_of_compare here
          subst equal
          have miss : ¬ compare other key = .eq := by
            intro same
            have swapped := Std.LawfulEqCmp.eq_of_compare same
            exact gone (swapped ▸ here)
          simp [find, gone, miss]
        · simp [find, ih, gone, here]

theorem get?_erase (map : SortedMap κ β) (key other : κ) :
    (map.erase key).get? other = if compare other key = .eq then none else map.get? other :=
  find_filter_apart key other map.entries

theorem find_cons_self (entry : κ × β) (rest : List (κ × β)) :
    find entry.1 (entry :: rest) = some entry.2 := by
  simp [find, Std.ReflCmp.compare_self]

theorem find_cons_of_ne {key : κ} {entry : κ × β} (other : key ≠ entry.1) (rest : List (κ × β)) :
    find key (entry :: rest) = find key rest := by
  simp [find, Std.LawfulEqCmp.compare_eq_iff_eq, other]

theorem find_eq_some_of_mem {entries : List (κ × β)} (h : Ascending entries) {key : κ} {value : β}
    (member : (key, value) ∈ entries) : find key entries = some value := by
  induction entries with
  | nil => cases member
  | cons head rest ih =>
      rcases head with ⟨k, v⟩
      rcases List.pairwise_cons.mp h with ⟨below, tail⟩
      rcases List.mem_cons.mp member with same | later
      · cases same
        simp [find, Std.ReflCmp.compare_self]
      · have apart : compare key k ≠ .eq := by
          intro same
          have equal := Std.LawfulEqCmp.eq_of_compare same
          subst equal
          have less := below _ later
          simp [Std.ReflCmp.compare_self] at less
        simp [find, apart, ih tail later]

theorem mem_of_find_eq_some {entries : List (κ × β)} {key : κ} {value : β}
    (h : find key entries = some value) : (key, value) ∈ entries := by
  induction entries with
  | nil => cases h
  | cons head rest ih =>
      rcases head with ⟨k, v⟩
      simp only [find] at h
      split at h
      · next same =>
          cases Std.LawfulEqCmp.eq_of_compare same
          cases h
          exact List.mem_cons_self
      · exact List.mem_cons_of_mem _ (ih h)

theorem get?_eq_some_iff {map : SortedMap κ β} {key : κ} {value : β} :
    map.get? key = some value ↔ (key, value) ∈ map.entries :=
  ⟨mem_of_find_eq_some, find_eq_some_of_mem map.ascending⟩

/-- Where no key comes twice the order of the entries does not matter. -/
theorem find_eq_some_iff {entries : List (κ × β)} (distinct : entries.Pairwise fun a b => a.1 ≠ b.1)
    {key : κ} {value : β} : find key entries = some value ↔ (key, value) ∈ entries := by
  refine ⟨mem_of_find_eq_some, ?_⟩
  induction entries with
  | nil => intro member; cases member
  | cons head rest ih =>
      intro member
      rcases List.pairwise_cons.mp distinct with ⟨apart, tail⟩
      rcases List.mem_cons.mp member with rfl | later
      · simp [find, Std.ReflCmp.compare_self]
      · have other : compare key head.1 ≠ .eq := by
          intro same
          exact apart _ later (Std.LawfulEqCmp.eq_of_compare same).symm
        simp [find, other, ih tail later]

theorem distinct (map : SortedMap κ β) : map.entries.Pairwise fun a b => a.1 ≠ b.1 := by
  apply map.ascending.imp
  intro a b less same
  have self : compare b.1 b.1 = .eq := Std.ReflCmp.compare_self
  rw [same, self] at less
  cases less

end LawfulKeys

section LawfulOrder

variable [Std.TransOrd κ] [Std.LawfulEqOrd κ]

theorem ascending_put (key : κ) (value : β) {entries : List (κ × β)} (h : Ascending entries) :
    Ascending (put key value entries) := by
  induction entries with
  | nil => simp [put, Ascending]
  | cons head rest ih =>
      rcases head with ⟨k, v⟩
      rcases List.pairwise_cons.mp h with ⟨below, tail⟩
      simp only [put]
      split
      · next less =>
          refine List.pairwise_cons.mpr ⟨?_, h⟩
          intro entry member
          rcases List.mem_cons.mp member with rfl | later
          · exact less
          · exact Std.TransCmp.lt_trans less (below entry later)
      · next same =>
          have equal := Std.LawfulEqCmp.eq_of_compare same
          subst equal
          exact List.pairwise_cons.mpr ⟨below, tail⟩
      · next greater =>
          refine List.pairwise_cons.mpr ⟨?_, ih tail⟩
          intro entry member
          rcases mem_of_mem_put member with rfl | later
          · exact Std.OrientedCmp.lt_of_gt greater
          · exact below entry later

def insert (map : SortedMap κ β) (key : κ) (value : β) : SortedMap κ β :=
  ⟨put key value map.entries, ascending_put key value map.ascending⟩

/-- Of two values under one key the later one stays. -/
def ofList (entries : List (κ × β)) : SortedMap κ β :=
  entries.foldl (fun map entry => map.insert entry.1 entry.2) empty

theorem get?_insert (map : SortedMap κ β) (key other : κ) (value : β) :
    (map.insert key value).get? other =
      if compare other key = .eq then some value else map.get? other :=
  find_put key other value map.entries

/-- Lists that ascend by a key are equal if they have the same members. -/
theorem eq_of_ascending {α : Type} (key : α → κ) {a b : List α}
    (ha : a.Pairwise fun x y => compare (key x) (key y) = .lt)
    (hb : b.Pairwise fun x y => compare (key x) (key y) = .lt)
    (same : ∀ x, x ∈ a ↔ x ∈ b) : a = b := by
  have apart {x y : α} (less : compare (key x) (key y) = .lt) (more : compare (key y) (key x) = .lt) : False := by
    have self : compare (key x) (key x) = .lt := Std.TransCmp.lt_trans less more
    simp [Std.ReflCmp.compare_self] at self
  have nodup {list : List α} (ascending : list.Pairwise fun x y => compare (key x) (key y) = .lt) : list.Nodup := by
    apply ascending.imp
    intro x y less equal
    subst equal
    exact apart less less
  have perm := (List.perm_ext_iff_of_nodup (nodup ha) (nodup hb)).mpr same
  apply perm.eq_of_pairwise _ ha hb
  intro x y _ _ less more
  exact (apart less more).elim

theorem ext_get? {a b : SortedMap κ β} (h : ∀ key, a.get? key = b.get? key) : a = b := by
  have lists : a.entries = b.entries := by
    apply eq_of_ascending Prod.fst a.ascending b.ascending
    intro entry
    rcases entry with ⟨key, value⟩
    rw [← get?_eq_some_iff, ← get?_eq_some_iff, h key]
  cases a
  cases b
  simpa using lists

theorem get?_foldl_insert (entries : List (κ × β)) (map : SortedMap κ β) (key : κ) :
    (entries.foldl (fun map entry => map.insert entry.1 entry.2) map).get? key =
      (find key entries.reverse).or (map.get? key) := by
  induction entries generalizing map with
  | nil => rfl
  | cons head rest ih =>
      rw [List.foldl_cons, ih, get?_insert, List.reverse_cons, find_append, Option.or_assoc]
      by_cases same : compare key head.1 = .eq
      · simp [find, same]
      · simp [find, same]

theorem get?_ofList (entries : List (κ × β)) (key : κ) :
    (ofList entries).get? key = find key entries.reverse := by
  rw [ofList, get?_foldl_insert]
  exact Option.or_none

theorem get?_ofList_eq_some_iff {entries : List (κ × β)}
    (distinct : entries.Pairwise fun a b => a.1 ≠ b.1) {key : κ} {value : β} :
    (ofList entries).get? key = some value ↔ (key, value) ∈ entries := by
  have backwards : entries.reverse.Pairwise fun a b => a.1 ≠ b.1 := by
    rw [List.pairwise_reverse]
    exact distinct.imp fun apart => apart.symm
  rw [get?_ofList, find_eq_some_iff backwards, List.mem_reverse]

theorem get?_ofList_filterMap {α : Type} {members : List α} {f : α → Option (κ × β)}
    (apart : members.Pairwise fun a b => ∀ x, f a = some x → ∀ y, f b = some y → x.1 ≠ y.1)
    {key : κ} {value : β} :
    (ofList (members.filterMap f)).get? key = some value ↔ ∃ a ∈ members, f a = some (key, value) := by
  rw [get?_ofList_eq_some_iff (List.pairwise_filterMap.mpr apart), List.mem_filterMap]

theorem ofList_entries (map : SortedMap κ β) : ofList map.entries = map := by
  apply ext_get?
  intro key
  apply Option.ext
  intro value
  rw [get?_ofList_eq_some_iff map.distinct, get?_eq_some_iff]

end LawfulOrder

end SortedMap

end MailboxAccess
