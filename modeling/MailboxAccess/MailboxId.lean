import MailboxAccess.Text.Hex

namespace MailboxAccess

structure MailboxId where
  bytes : Bytes
  sixteen : bytes.length = 16
  deriving DecidableEq, Repr

namespace MailboxId

def ofBytes? (bytes : Bytes) : Option MailboxId :=
  if sixteen : bytes.length = 16 then some ⟨bytes, sixteen⟩ else none

def hex (mailbox : MailboxId) : String := Hex.ofBytes mailbox.bytes

def parse (s : String) : Except HexError MailboxId := do
  match ofBytes? (← Hex.toBytes s) with
  | some mailbox => return mailbox
  | none => throw .wrongLength

instance : Ord MailboxId := ⟨fun a b => compare a.bytes b.bytes⟩

theorem compare_bytes (a b : MailboxId) : compare a b = compare a.bytes b.bytes := rfl

instance : Std.TransOrd MailboxId where
  eq_swap {a b} := by
    simp only [compare_bytes]
    exact Std.OrientedCmp.eq_swap
  isLE_trans {a b c} first second := by
    simp only [compare_bytes] at *
    exact Std.TransCmp.isLE_trans first second

instance : Std.LawfulEqOrd MailboxId where
  compare_self {a} := by simp only [Std.ReflCmp.compare_self]
  eq_of_compare {a b} same := by
    simp only [compare_bytes] at same
    have bytes := Std.LawfulEqCmp.eq_of_compare same
    cases a
    cases b
    simpa using bytes

end MailboxId

end MailboxAccess
