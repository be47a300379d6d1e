import MailboxAccess.Proofs.Editor.Run
import MailboxAccess.Proofs.Truncation

namespace MailboxAccess

namespace Codec

variable {codec : Codec} {acl : Acl} {part : Bytes}

theorem read?_short (carried : codec.Carries acl.keys) (cut : ShortOf part (codec.encode acl)) :
    codec.read? part = none := by
  cases codec with
  | json => exact Document.readJson_short cut
  | cbor => exact Document.readCbor_short (fitsCbor_of_carries carried) cut

theorem decode_of_unread {bytes : Bytes} (unread : codec.read? bytes = none) :
    codec.decode bytes = .error .malformed := by
  rw [decode, unread]

theorem json_followed (acl : Acl) (junk : Bytes) :
    json.decode (json.encode acl ++ junk) = if junk.all Json.isBlank then .ok acl else .error .malformed := by
  have read := Document.readJson_followed (Document.ofAcl acl) junk
  by_cases blank : junk.all Json.isBlank = true
  · rw [if_pos blank] at read ⊢
    exact decode_of_read_ofAcl read
  · rw [if_neg blank] at read ⊢
    exact decode_of_unread read

theorem cbor_followed (carried : cbor.Carries acl.keys) (junk : Bytes) :
    cbor.decode (cbor.encode acl ++ junk) = .ok acl :=
  decode_of_read_ofAcl (Document.readCbor_followed (fitsCbor_of_carries carried) junk)

end Codec

theorem Editor.found_of_refused {editor : Editor} {record : Record} {cause : DecodeError}
    (refused : editor.codec.decode record.acl = .error cause) :
    editor.found (some record) = some ⟨Acl.empty, record.version⟩ := by
  have unread : editor.decode? record.acl = none := by
    change (editor.codec.decode record.acl).toOption = none
    rw [refused]
    rfl
  change some (Versioned.mk ((editor.decode? record.acl).getD Acl.empty) record.version) = _
  rw [unread]
  rfl

/-- Wherever a stored list is cut off, no list is left: neither format reads it, and a reader is given the empty list
at the version of the record. A CBOR header holds lengths below `2 ^ 64`. -/
theorem truncated_refused {codec : Codec} {acl : Acl} {part : Bytes} (carried : codec.Carries acl.keys)
    (start : part <+: codec.encode acl) (cut : part ≠ codec.encode acl) :
    codec.decode part = .error .malformed ∧
      ∀ (editor : Editor) (mailbox : MailboxId) (version : UInt64) (store : Store), editor.codec = codec →
        store.look (.read mailbox) = .ok (some ⟨part, version⟩) →
          (editor.getVersioned mailbox).run Store.answer store = (.ok (some ⟨Acl.empty, version⟩), store) := by
  have refused : codec.decode part = .error .malformed :=
    Codec.decode_of_unread (Codec.read?_short carried ⟨start, cut⟩)
  refine ⟨refused, ?_⟩
  intro editor mailbox version store same shown
  subst same
  rw [Editor.run_getVersioned shown, Editor.found_of_refused refused]

def quotedUser : EntryKey := ⟨"\"é", .user, false, by decide⟩

def quotedList : Acl := Acl.empty.withEntry quotedUser (.only .lookup)

def tornStore : Store :=
  .memory (Memory.empty.putRecord sampleMailbox ⟨(Codec.json.encode quotedList).take 14, 7⟩)

theorem truncated_refused_of_quotedList :
    (Codec.json.encode quotedList).take 14 ≠ Codec.json.encode quotedList ∧
      Codec.json.decode ((Codec.json.encode quotedList).take 14) = .error .malformed ∧
      (sampleEditor.getVersioned sampleMailbox).run Store.answer tornStore = (.ok (some ⟨Acl.empty, 7⟩), tornStore) ∧
      Codec.cbor.Carries quotedList.keys ∧
      (Codec.cbor.encode quotedList).take 13 ≠ Codec.cbor.encode quotedList ∧
      Codec.cbor.decode ((Codec.cbor.encode quotedList).take 13) = .error .malformed := by
  have escaped : (Codec.json.encode quotedList).take 14 ≠ Codec.json.encode quotedList := by decide +kernel
  have split : (Codec.cbor.encode quotedList).take 13 ≠ Codec.cbor.encode quotedList := by decide +kernel
  have carried : Codec.cbor.Carries quotedList.keys := ⟨by decide, by decide +kernel⟩
  have stored : tornStore.look (.read sampleMailbox) = .ok (some ⟨(Codec.json.encode quotedList).take 14, 7⟩) := rfl
  have json := truncated_refused (show Codec.json.Carries quotedList.keys from trivial) (List.take_prefix 14 _) escaped
  have cbor := truncated_refused carried (List.take_prefix 13 _) split
  exact ⟨escaped, json.1, json.2 sampleEditor sampleMailbox 7 tornStore rfl stored, carried, split, cbor.1⟩

/-- A list is read again when other bytes follow it, except in JSON when one of them is no blank. A CBOR header holds
lengths below `2 ^ 64`. -/
theorem decode_followed {codec : Codec} {acl : Acl} (carried : codec.Carries acl.keys) (junk : Bytes) :
    codec.decode (codec.encode acl ++ junk) =
      if codec = .json ∧ ∃ b ∈ junk, Json.isBlank b = false then .error .malformed else .ok acl := by
  cases codec with
  | json =>
      have spoilt : (∃ b ∈ junk, Json.isBlank b = false) ↔ ¬ junk.all Json.isBlank = true := by simp
      rw [Codec.json_followed]
      simp only [true_and, spoilt, ite_not]
  | cbor =>
      rw [Codec.cbor_followed carried, if_neg (fun both => Codec.noConfusion both.1)]

theorem decode_followed_of_quotedList :
    Codec.json.decode (Codec.json.encode quotedList ++ [0x0a]) = .ok quotedList ∧
      Codec.json.decode (Codec.json.encode quotedList ++ [0x0a, 0x00]) = .error .malformed ∧
      Codec.cbor.Carries quotedList.keys ∧
      Codec.cbor.decode (Codec.cbor.encode quotedList ++ [0x0a, 0x00]) = .ok quotedList := by
  have plain : Codec.json.Carries quotedList.keys := trivial
  have carried : Codec.cbor.Carries quotedList.keys := ⟨by decide, by decide +kernel⟩
  exact ⟨decode_followed plain [0x0a], decode_followed plain [0x0a, 0x00], carried,
    decode_followed carried [0x0a, 0x00]⟩

/-- What is left of a longer list after a shorter one was written over its start goes unnoticed in CBOR. -/
theorem remains_unnoticed :
    (Codec.cbor.encode Acl.ownerFull).drop 10 ≠ [] ∧
      Codec.cbor.decode (Codec.cbor.encode Acl.empty ++ (Codec.cbor.encode Acl.ownerFull).drop 10) = .ok Acl.empty := by
  have remains : (Codec.cbor.encode Acl.ownerFull).drop 10 ≠ [] := by decide +kernel
  have carried : Codec.cbor.Carries Acl.empty.keys := ⟨by decide, nofun⟩
  exact ⟨remains, Codec.cbor_followed carried _⟩

end MailboxAccess
