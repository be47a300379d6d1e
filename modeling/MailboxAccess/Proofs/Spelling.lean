import MailboxAccess.EntryKey
import MailboxAccess.Rights.Parser

namespace MailboxAccess

namespace Rights

theorem collect_letters (input : String) (rights : List Right) (sum : Rights) :
    collect (canonicalLetter input) (rights.map Right.letter) sum =
      .ok (rights.foldl (fun a right => a.union (only right)) sum) := by
  induction rights generalizing sum with
  | nil => rfl
  | cons right rights ih =>
      have first : canonicalLetter input right.letter = .ok (only right) := by
        simp only [canonicalLetter, Right.ofLetter?_letter]
      simp only [List.map_cons, collect, first]
      exact ih _

theorem contains_foldl (rights : List Right) (sum : Rights) (right : Right) :
    (rights.foldl (fun a right => a.union (only right)) sum).contains right =
      (sum.contains right || decide (right ∈ rights)) := by
  induction rights generalizing sum with
  | nil => simp
  | cons head rights ih =>
      calc
        _ = ((sum.union (only head)).contains right || decide (right ∈ rights)) := by rw [List.foldl_cons, ih]
        _ = (sum.contains right || decide (head = right) || decide (right ∈ rights)) := by
          rw [contains_union, contains_only]
        _ = (sum.contains right || decide (right ∈ head :: rights)) := by
          by_cases same : head = right
          · simp [same]
          · simp [same, Ne.symm same]

theorem parse_text (rights : Rights) : parse rights.text = .ok rights := by
  have letters : rights.text.toList = rights.toList.map Right.letter := by simp [text]
  rw [parse, letters, collect_letters]
  congr 1
  apply ext_contains
  intro right
  rw [contains_foldl, contains_empty, Bool.false_or]
  by_cases held : rights.contains right = true
  · simp [mem_toList_iff, held]
  · simp [mem_toList_iff, held]

end Rights

namespace EntryKey

theorem split_polarity (negative : Bool) {letters : List Char} (unsigned : letters.head? ≠ some '-') :
    splitPolarity ((if negative then ['-'] else []) ++ letters) = (negative, letters) := by
  cases negative with
  | true => rfl
  | false =>
      cases letters with
      | nil => rfl
      | cons c cs =>
          have other : c ≠ '-' := by simpa using unsigned
          simp [splitPolarity, other]

theorem special_head {name : List Char} (special : Kind.isSpecialName name = true) :
    name ≠ [] ∧ name.head? ≠ some '-' ∧ name.head? ≠ some '$' := by
  simp only [Kind.isSpecialName, decide_eq_true_eq, List.mem_cons, List.not_mem_nil, or_false] at special
  rcases special with rfl | rfl | rfl <;> decide

theorem split_kind {kind : Kind} {name : List Char} (admitted : kind.admits name = true) :
    splitKind ((if kind = .group then ['$'] else []) ++ name) = (kind, name) := by
  cases kind with
  | group => rfl
  | special =>
      rcases special_head admitted with ⟨some, _, bare⟩
      cases name with
      | nil => exact absurd rfl some
      | cons c cs =>
          have other : c ≠ '$' := by simpa using bare
          have known : Kind.isSpecialName (c :: cs) = true := admitted
          simp [splitKind, other, known]
  | user =>
      cases name with
      | nil => simp [Kind.admits] at admitted
      | cons c cs =>
          simp only [Kind.admits, Bool.and_eq_true, bne_iff_ne, Bool.not_eq_true'] at admitted
          have other : c ≠ '$' := by simpa using admitted.1.2
          simp [splitKind, other, admitted.2]

theorem marked_head (key : EntryKey) :
    ((if key.kind = .group then ['$'] else []) ++ key.name.toList).head? ≠ some '-' := by
  have admitted := key.admitted
  cases kind : key.kind with
  | group => simp
  | special =>
      rw [kind] at admitted
      simpa [kind] using (special_head admitted).2.1
  | user =>
      rw [kind] at admitted
      simp only [Kind.admits, Bool.and_eq_true, bne_iff_ne] at admitted
      simpa [kind] using admitted.1.1.2

theorem parse_text (key : EntryKey) : parse key.text = .ok key := by
  have letters : key.text.toList =
      (if key.negative then ['-'] else []) ++
        ((if key.kind = .group then ['$'] else []) ++ key.name.toList) := by
    simp [text, EntryKey.letters]
  unfold parse
  rw [letters, split_polarity _ key.marked_head]
  simp only [split_kind key.admitted, String.ofList_toList, make, key.admitted, dite_true]

theorem join_polarity (letters : List Char) :
    (if (splitPolarity letters).1 then ['-'] else []) ++ (splitPolarity letters).2 = letters := by
  cases letters with
  | nil => rfl
  | cons c cs =>
      by_cases minus : c = '-'
      · simp [splitPolarity, minus]
      · simp [splitPolarity, minus]

theorem join_kind (letters : List Char) :
    (if (splitKind letters).1 = .group then ['$'] else []) ++ (splitKind letters).2 = letters := by
  cases letters with
  | nil => rfl
  | cons c cs =>
      by_cases group : c = '$'
      · simp [splitKind, group]
      · by_cases special : Kind.isSpecialName (c :: cs) = true
        · simp [splitKind, group, special]
        · simp [splitKind, group, special]

theorem text_of_parse {s : String} {key : EntryKey} (read : parse s = .ok key) : key.text = s := by
  have polarity := join_polarity s.toList
  have kind := join_kind (splitPolarity s.toList).2
  simp only [parse, make] at read
  split at read
  · next made =>
      split at made
      · cases made
        cases read
        rw [← kind] at polarity
        rw [text, letters, List.append_assoc, String.toList_ofList, polarity, String.ofList_toList]
      · cases made
  · cases read

theorem text_injective {a b : EntryKey} (same : a.text = b.text) : a = b := by
  have read := a.parse_text
  rw [same, b.parse_text] at read
  cases read
  rfl

end EntryKey

end MailboxAccess
