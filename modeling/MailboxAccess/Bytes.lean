namespace MailboxAccess

abbrev Bytes := List UInt8

/-- `none` when the bytes do not start with a value of the kind that is read. -/
abbrev Reader (α : Type) := Bytes → Option (α × Bytes)

namespace Bytes

def ofText (s : String) : Bytes := s.toUTF8.data.toList

def toText? (s : Bytes) : Option String := String.fromUTF8? ⟨s.toArray⟩

def take? : Nat → Reader Bytes
  | 0, s => some ([], s)
  | _ + 1, [] => none
  | n + 1, b :: s => (take? n s).map fun (taken, rest) => (b :: taken, rest)

theorem toText?_ofText (s : String) : toText? (ofText s) = some s := by
  have whole : (⟨s.toUTF8.data.toList.toArray⟩ : ByteArray) = s.toUTF8 := by simp
  have valid : s.toUTF8.IsValidUTF8 := s.isValidUTF8
  simp only [toText?, ofText, whole, String.fromUTF8?, valid]
  rfl

theorem take?_append (a rest : Bytes) : take? a.length (a ++ rest) = some (a, rest) := by
  induction a with
  | nil => rfl
  | cons b a ih => simp [take?, ih]

end Bytes

end MailboxAccess
