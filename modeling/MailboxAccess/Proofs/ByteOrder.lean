import MailboxAccess.Bytes
import MailboxAccess.EntryKey
import Mathlib.Tactic

namespace MailboxAccess.Bytes

/-- Of two different characters, already the first byte in which their encodings differ tells which is less. -/
theorem encoded_lt {c d : Char} (less : c < d) (s t : Bytes) :
    String.utf8EncodeChar c ++ s < String.utf8EncodeChar d ++ t := by
  have values : c.val.toNat < d.val.toNat := less
  have bound : d.val.toNat < 0x110000 := by
    rcases d.valid with low | ⟨_, high⟩
    · exact Nat.lt_trans low (by decide)
    · exact high
  have leaderC : (c.val.toNat / 262144 % 8 + 240) % 256 = c.val.toNat / 262144 + 240 := by omega
  have leaderD : (d.val.toNat / 262144 % 8 + 240) % 256 = d.val.toNat / 262144 + 240 := by omega
  have follower (n : Nat) : (n % 64 + 128) % 256 = n % 64 + 128 := by omega
  unfold String.utf8EncodeChar
  dsimp only
  split_ifs
  all_goals
    simp only [List.cons_append, List.nil_append, List.cons_lt_cons_iff, UInt8.lt_iff_toNat_lt,
      ← UInt8.toNat_inj, UInt8.toNat_ofNat', Nat.reducePow, follower, leaderC, leaderD,
      Nat.add_lt_add_iff_right, Nat.add_right_cancel_iff]
    omega

theorem ofText_eq (s : String) : ofText s = s.toList.flatMap String.utf8EncodeChar := by
  have whole := s.ofList_toList
  calc
    ofText s = ofText (String.ofList s.toList) := by rw [whole]
    _ = s.toList.flatMap String.utf8EncodeChar := by
      rw [ofText]
      simp [-String.ofList_toList, List.utf8Encode]

theorem flatMap_encode_lt {a b : List Char} (less : a < b) :
    a.flatMap String.utf8EncodeChar < b.flatMap String.utf8EncodeChar := by
  induction less with
  | @nil c cs =>
      rcases List.exists_cons_of_ne_nil (String.utf8EncodeChar_ne_nil (c := c)) with ⟨first, rest, bytes⟩
      rw [List.flatMap_nil, List.flatMap_cons, bytes]
      exact List.nil_lt_cons _ _
  | rel first => exact encoded_lt first _ _
  | @cons c _ _ _ ih =>
      rw [List.flatMap_cons, List.flatMap_cons]
      exact List.append_left_lt ih

theorem ofText_lt_iff (s t : String) : ofText s < ofText t ↔ s < t := by
  rw [ofText_eq, ofText_eq, String.lt_iff]
  refine ⟨?_, flatMap_encode_lt⟩
  intro less
  rcases Std.lt_trichotomy s.toList t.toList with below | same | above
  · exact below
  · rw [same] at less
    exact absurd less (List.lt_irrefl _)
  · exact absurd (flatMap_encode_lt above) (List.lt_asymm less)

theorem compare_text_iff (s t : String) : compare s t = .lt ↔ ofText s < ofText t := by
  rw [ofText_lt_iff]
  exact compareOfLessAndEq_eq_lt

end MailboxAccess.Bytes

namespace MailboxAccess.EntryKey

inductive Before (a b : EntryKey) : Prop where
  | name (less : Bytes.ofText a.name < Bytes.ofText b.name)
  | kind (name : a.name = b.name) (less : a.kind.rank < b.kind.rank)
  | polarity (name : a.name = b.name) (kind : a.kind = b.kind) (positive : a.negative = false)
      (negative : b.negative = true)

theorem compare_iff_before (a b : EntryKey) : compare a b = .lt ↔ a.Before b := by
  have parts : compare a b = .lt ↔ compare a.name b.name = .lt ∨ compare a.name b.name = .eq ∧
      (compare a.kind.rank b.kind.rank = .lt ∨
        compare a.kind.rank b.kind.rank = .eq ∧ compare a.negative b.negative = .lt) := by
    change order a b = .lt ↔ _
    simp only [order, Ordering.then_eq_lt]
  have polarity : compare a.negative b.negative = .lt ↔ a.negative = false ∧ b.negative = true := by
    cases a.negative <;> cases b.negative <;> decide
  rw [parts, polarity, Bytes.compare_text_iff, Nat.compare_eq_lt, Std.LawfulEqCmp.compare_eq_iff_eq,
    Std.LawfulEqCmp.compare_eq_iff_eq]
  constructor
  · intro less
    rcases less with name | ⟨name, rank | ⟨rank, positive, negative⟩⟩
    · exact .name name
    · exact .kind name rank
    · exact .polarity name (rank_injective rank) positive negative
  · intro before
    cases before with
    | name less => exact .inl less
    | kind name less => exact .inr ⟨name, .inl less⟩
    | polarity name kind positive negative =>
        exact .inr ⟨name, .inr ⟨congrArg Kind.rank kind, positive, negative⟩⟩

end MailboxAccess.EntryKey
