namespace MailboxAccess

structure InsertionMap (κ β : Type) where
  entries : List (κ × β)
  distinct : entries.Pairwise fun a b => a.1 ≠ b.1

namespace InsertionMap

variable {κ β : Type} [DecidableEq κ]

def empty : InsertionMap κ β := ⟨[], List.Pairwise.nil⟩

def find (key : κ) : List (κ × β) → Option β
  | [] => none
  | (k, v) :: rest => if k = key then some v else find key rest

def get? (map : InsertionMap κ β) (key : κ) : Option β := find key map.entries

def put (key : κ) (value : β) : List (κ × β) → List (κ × β)
  | [] => [(key, value)]
  | (k, v) :: rest => if k = key then (key, value) :: rest else (k, v) :: put key value rest

def erase (map : InsertionMap κ β) (key : κ) : InsertionMap κ β :=
  ⟨map.entries.filter fun entry => entry.1 ≠ key, map.distinct.filter _⟩

theorem mem_of_mem_put {key : κ} {value : β} {entries : List (κ × β)} {entry : κ × β}
    (h : entry ∈ put key value entries) : entry = (key, value) ∨ entry ∈ entries := by
  induction entries with
  | nil => simpa [put] using h
  | cons head rest ih =>
      rcases head with ⟨k, v⟩
      simp only [put] at h
      split at h
      · rcases List.mem_cons.mp h with new | old
        · exact .inl new
        · exact .inr (List.mem_cons_of_mem _ old)
      · rcases List.mem_cons.mp h with first | later
        · exact .inr (first ▸ List.mem_cons_self)
        · rcases ih later with new | old
          · exact .inl new
          · exact .inr (List.mem_cons_of_mem _ old)

theorem distinct_put (key : κ) (value : β) {entries : List (κ × β)}
    (h : entries.Pairwise fun a b => a.1 ≠ b.1) :
    (put key value entries).Pairwise fun a b => a.1 ≠ b.1 := by
  induction entries with
  | nil => simp [put]
  | cons head rest ih =>
      rcases head with ⟨k, v⟩
      rcases List.pairwise_cons.mp h with ⟨apart, tail⟩
      simp only [put]
      split
      · next same =>
          subst same
          exact List.pairwise_cons.mpr ⟨apart, tail⟩
      · next other =>
          refine List.pairwise_cons.mpr ⟨?_, ih tail⟩
          intro entry member
          rcases mem_of_mem_put member with rfl | old
          · exact other
          · exact apart entry old

def insert (map : InsertionMap κ β) (key : κ) (value : β) : InsertionMap κ β :=
  ⟨put key value map.entries, distinct_put key value map.distinct⟩

theorem find_put (key other : κ) (value : β) (entries : List (κ × β)) :
    find other (put key value entries) = if key = other then some value else find other entries := by
  induction entries with
  | nil => simp [put, find]
  | cons head rest ih =>
      rcases head with ⟨k, v⟩
      simp only [put]
      split
      · next same =>
          subst same
          by_cases hit : k = other <;> simp [find, hit]
      · next apart =>
          by_cases hit : k = other
          · subst hit
            simp [find, Ne.symm apart]
          · simp [find, hit, ih]

theorem get?_insert (map : InsertionMap κ β) (key other : κ) (value : β) :
    (map.insert key value).get? other = if key = other then some value else map.get? other :=
  find_put key other value map.entries

theorem mem_of_find_eq_some {entries : List (κ × β)} {key : κ} {value : β}
    (found : find key entries = some value) : (key, value) ∈ entries := by
  induction entries with
  | nil => cases found
  | cons head rest ih =>
      rcases head with ⟨k, v⟩
      simp only [find] at found
      split at found
      · next same =>
          cases same
          cases found
          exact List.mem_cons_self
      · exact List.mem_cons_of_mem _ (ih found)

theorem find_eq_some_of_mem {entries : List (κ × β)} (distinct : entries.Pairwise fun a b => a.1 ≠ b.1)
    {key : κ} {value : β} (member : (key, value) ∈ entries) : find key entries = some value := by
  induction entries with
  | nil => cases member
  | cons head rest ih =>
      rcases List.pairwise_cons.mp distinct with ⟨apart, tail⟩
      rcases List.mem_cons.mp member with rfl | later
      · simp [find]
      · have other : head.1 ≠ key := apart _ later
        simp [find, other, ih tail later]

theorem get?_eq_some_iff {map : InsertionMap κ β} {key : κ} {value : β} :
    map.get? key = some value ↔ (key, value) ∈ map.entries :=
  ⟨mem_of_find_eq_some, find_eq_some_of_mem map.distinct⟩

theorem get?_erase (map : InsertionMap κ β) (key other : κ) :
    (map.erase key).get? other = if key = other then none else map.get? other := by
  apply Option.ext
  intro value
  rw [get?_eq_some_iff, erase, List.mem_filter, ← get?_eq_some_iff]
  by_cases gone : key = other
  · simp [gone]
  · simp [gone, Ne.symm gone]

end InsertionMap

end MailboxAccess
