import MailboxAccess.Codec
import MailboxAccess.Document.Samples
import MailboxAccess.Proofs.Cbor
import MailboxAccess.Proofs.Json
import MailboxAccess.Proofs.Spelling

namespace MailboxAccess

theorem Rights.text_injective {a b : Rights} (same : a.text = b.text) : a = b := by
  have read := a.parse_text
  rw [same, b.parse_text] at read
  cases read
  rfl

namespace Document

def wordEntry (entry : EntryKey × Rights) : String × String := (entry.1.text, entry.2.text)

theorem wordEntry_injective {a b : EntryKey × Rights} (same : wordEntry a = wordEntry b) : a = b := by
  rcases Prod.mk.inj same with ⟨keys, rights⟩
  exact Prod.ext (EntryKey.text_injective keys) (Rights.text_injective rights)

theorem mapM_readEntry (entries : List (EntryKey × Rights)) :
    (entries.map wordEntry).mapM readEntry = .ok entries := by
  induction entries with
  | nil => rfl
  | cons entry entries ih =>
      have first : readEntry (wordEntry entry) = .ok entry := by
        simp only [readEntry, wordEntry, EntryKey.parse_text, Rights.parse_text]
        rfl
      rw [List.map_cons, List.mapM_cons, first, ih]
      rfl

theorem exists_map_wordEntry {texts : List (String × String)}
    (worded : ∀ pair ∈ texts, ∃ entry, wordEntry entry = pair) :
    ∃ entries : List (EntryKey × Rights), entries.map wordEntry = texts := by
  induction texts with
  | nil => exact ⟨[], rfl⟩
  | cons pair texts ih =>
      rcases worded pair List.mem_cons_self with ⟨entry, first⟩
      rcases ih fun other later => worded other (List.mem_cons_of_mem _ later) with ⟨entries, rest⟩
      exact ⟨entry :: entries, by rw [List.map_cons, first, rest]⟩

theorem distinct_wordEntry (acl : Acl) :
    (acl.entries.map wordEntry).Pairwise fun a b => a.1 ≠ b.1 := by
  rw [List.pairwise_map]
  apply acl.table.distinct.imp
  intro a b apart same
  exact apart (EntryKey.text_injective same)

theorem mem_ofAcl_iff (acl : Acl) (pair : String × String) :
    pair ∈ (ofAcl acl).entries ↔ pair ∈ acl.entries.map wordEntry := by
  rcases pair with ⟨key, rights⟩
  rw [← SortedMap.get?_eq_some_iff, ← SortedMap.get?_ofList_eq_some_iff (distinct_wordEntry acl)]
  rfl

theorem mem_iff_of_texts {acl : Acl} {entries : List (EntryKey × Rights)}
    (texts : entries.map wordEntry = (ofAcl acl).entries) (entry : EntryKey × Rights) :
    entry ∈ entries ↔ entry ∈ acl.entries := by
  have injective : Function.Injective wordEntry := fun a b => wordEntry_injective
  have same := mem_ofAcl_iff acl (wordEntry entry)
  rwa [← texts, List.mem_map_of_injective injective, List.mem_map_of_injective injective] at same

theorem toAcl_ofAcl (acl : Acl) : (ofAcl acl).toAcl = .ok acl := by
  have worded : ∀ pair ∈ (ofAcl acl).entries, ∃ entry, wordEntry entry = pair := by
    intro pair member
    rcases List.mem_map.mp ((mem_ofAcl_iff acl pair).mp member) with ⟨entry, _, same⟩
    exact ⟨entry, same⟩
  rcases exists_map_wordEntry worded with ⟨entries, texts⟩
  have distinct : entries.Pairwise fun a b => a.1 ≠ b.1 := by
    have apart := (ofAcl acl).distinct
    rw [← texts, List.pairwise_map] at apart
    exact apart.imp fun {a b} texts keys => texts (congrArg EntryKey.text keys)
  calc
    (ofAcl acl).toAcl = .ok (Acl.ofEntries entries) := by
      rw [toAcl, ← texts, mapM_readEntry]
      rfl
    _ = .ok acl := congrArg Except.ok (Acl.ofEntries_eq_of_mem_iff distinct (mem_iff_of_texts texts))

theorem size_ofAcl_le (acl : Acl) : (ofAcl acl).size ≤ acl.size := by
  have nodup : (ofAcl acl).entries.Nodup := by
    apply (ofAcl acl).distinct.imp
    intro a b apart same
    exact apart (congrArg Prod.fst same)
  have members : (ofAcl acl).entries ⊆ acl.entries.map wordEntry := fun pair => (mem_ofAcl_iff acl pair).mp
  have bound := (nodup.subperm members).length_le
  rwa [List.length_map] at bound

end Document

theorem Bytes.length_ofText_ofList (letters : List Char) :
    (Bytes.ofText (String.ofList letters)).length ≤ 4 * letters.length := by
  have bytes : Bytes.ofText (String.ofList letters) = letters.flatMap String.utf8EncodeChar := by
    simp [Bytes.ofText, List.utf8Encode]
  rw [bytes]
  induction letters with
  | nil => exact Nat.le_refl _
  | cons c letters ih =>
      have few := c.utf8Size_le_four
      have rest := ih (by simp [Bytes.ofText, List.utf8Encode])
      simp only [List.flatMap_cons, List.length_append, String.length_utf8EncodeChar, List.length_cons]
      omega

theorem Rights.length_text (rights : Rights) : (Bytes.ofText rights.text).length < 2 ^ 64 := by
  have few : rights.toList.length ≤ 11 := List.length_filter_le _ _
  have bytes := Bytes.length_ofText_ofList (rights.toList.map Right.letter)
  rw [List.length_map] at bytes
  rw [text]
  omega

namespace Codec

/-- Keys whose lists the format can write: its widest header announces lengths below `2 ^ 64`. -/
def Carries : Codec → List EntryKey → Prop
  | json, _ => True
  | cbor, keys => keys.length < 2 ^ 64 ∧ ∀ key ∈ keys, (Bytes.ofText key.text).length < 2 ^ 64

theorem carries_of_subset {codec : Codec} {keys others : List EntryKey} (carried : codec.Carries keys)
    (nodup : others.Nodup) (within : others ⊆ keys) : codec.Carries others := by
  cases codec with
  | json => trivial
  | cbor =>
      have fewer := (nodup.subperm within).length_le
      exact ⟨Nat.lt_of_le_of_lt fewer carried.1, fun key member => carried.2 key (within member)⟩

theorem fitsCbor_of_carries {acl : Acl} (carried : cbor.Carries acl.keys) :
    (Document.ofAcl acl).FitsCbor where
  size := by
    have size : acl.size < 2 ^ 64 := by
      have length := carried.1
      rwa [Acl.keys, SortedMap.keys, List.length_map] at length
    exact Nat.lt_of_le_of_lt (Document.size_ofAcl_le acl) size
  texts := by
    intro pair member
    rcases List.mem_map.mp ((Document.mem_ofAcl_iff acl pair).mp member) with ⟨entry, held, rfl⟩
    exact ⟨carried.2 entry.1 (List.mem_map_of_mem held), Rights.length_text entry.2⟩

theorem decode_of_read {codec : Codec} {bytes : Bytes} {document : Document}
    (read : codec.read? bytes = some document) : codec.decode bytes = document.toAcl.mapError .invalidEntry := by
  simp only [decode, read]
  cases document.toAcl with
  | error cause => rfl
  | ok acl => rfl

theorem decode_of_read_ofAcl {codec : Codec} {bytes : Bytes} {acl : Acl}
    (read : codec.read? bytes = some (Document.ofAcl acl)) : codec.decode bytes = .ok acl := by
  rw [decode_of_read read, Document.toAcl_ofAcl]
  rfl

theorem decode_encode {codec : Codec} {acl : Acl} (carried : codec.Carries acl.keys) :
    codec.decode (codec.encode acl) = .ok acl := by
  have document : codec.read? (codec.encode acl) = some (Document.ofAcl acl) := by
    cases codec with
    | json => exact Document.readJson_writeJson _
    | cbor => exact Document.readCbor_writeCbor (fitsCbor_of_carries carried)
  exact decode_of_read_ofAcl document

theorem json_round_trip (acl : Acl) : json.decode (json.encode acl) = .ok acl :=
  decode_encode trivial

theorem cbor_round_trip {acl : Acl} (few : acl.size < 2 ^ 64)
    (short : ∀ key ∈ acl.keys, (Bytes.ofText key.text).length < 2 ^ 64) : cbor.decode (cbor.encode acl) = .ok acl := by
  have keys : acl.keys.length < 2 ^ 64 := by
    rw [Acl.keys, SortedMap.keys, List.length_map]
    exact few
  exact decode_encode ⟨keys, short⟩

def letteredGroup (n : Nat) : EntryKey :=
  ⟨String.ofList (List.replicate (n + 1) 'b'), .group, false, by simp [Kind.admits, List.replicate_succ]⟩

def groupList (n : Nat) : Acl := Acl.empty.withEntry (letteredGroup n) Rights.full

/-- The length of the only key takes four bytes. -/
theorem cbor_round_trip_of_groupList :
    (groupList 70000).size < 2 ^ 64 ∧ (∀ key ∈ (groupList 70000).keys, (Bytes.ofText key.text).length < 2 ^ 64) ∧
      cbor.decode (cbor.encode (groupList 70000)) = .ok (groupList 70000) := by
  have few : (groupList 70000).size < 2 ^ 64 := by
    have one (n : Nat) : (groupList n).size = 1 := rfl
    rw [one]
    decide
  have short : ∀ key ∈ (groupList 70000).keys, (Bytes.ofText key.text).length < 2 ^ 64 := by
    intro key member
    have only (n : Nat) : (groupList n).keys = [letteredGroup n] := rfl
    have letters (n : Nat) : (letteredGroup n).letters.length = n + 2 := by
      simp [EntryKey.letters, letteredGroup]
    have bytes := Bytes.length_ofText_ofList (letteredGroup 70000).letters
    rw [only, List.mem_singleton] at member
    rw [letters] at bytes
    rw [member]
    exact Nat.lt_of_le_of_lt bytes (by decide)
  exact ⟨few, short, cbor_round_trip few short⟩

example : Document.samples.all Document.Sample.holds = true := by decide +kernel

end Codec

end MailboxAccess
