import MailboxAccess.Document.Cbor
import Mathlib.Tactic

namespace MailboxAccess.Cbor

theorem length_bigEndian (width n : Nat) : (bigEndian width n).length = width := by
  induction width generalizing n with
  | zero => rfl
  | succ width ih => simp [bigEndian, ih]

theorem number_append (bytes : Bytes) (b : UInt8) : number (bytes ++ [b]) = 256 * number bytes + b.toNat := by
  simp [number]

theorem number_bigEndian (width n : Nat) : number (bigEndian width n) = n % 256 ^ width := by
  induction width generalizing n with
  | zero => simp [bigEndian, number, Nat.mod_one]
  | succ width ih =>
      have last : (UInt8.ofNat n).toNat = n % 256 := by simp
      calc
        number (bigEndian (width + 1) n) = 256 * number (bigEndian width (n / 256)) + n % 256 := by
          rw [bigEndian, number_append, last]
        _ = n % 256 + 256 * (n / 256 % 256 ^ width) := by
          rw [ih]
          omega
        _ = n % 256 ^ (width + 1) := by rw [Nat.pow_succ, Nat.mul_comm (256 ^ width), Nat.mod_mul]

theorem argument_bigEndian {info width n : Nat} (wide : 24 ≤ info) (definite : info ≠ 31)
    (known : width? info = some width) (fits : n < 256 ^ width) (rest : Bytes) :
    argument info (bigEndian width n ++ rest) = some (some n, rest) := by
  have taken := Bytes.take?_append (bigEndian width n) rest
  rw [length_bigEndian] at taken
  rw [argument, if_neg (by omega), if_neg definite]
  simp [known, taken, number_bigEndian, Nat.mod_eq_of_lt fits]

theorem first_byte {major info : Nat} (kind : major < 8) (low : info < 32) :
    (UInt8.ofNat (32 * major + info)).toNat % 32 = info ∧
      (UInt8.ofNat (32 * major + info)).toNat / 32 = major := by
  have value : (UInt8.ofNat (32 * major + info)).toNat = 32 * major + info := by
    rw [UInt8.toNat_ofNat']
    omega
  rw [value]
  omega

theorem header_read {major info n : Nat} {s rest : Bytes} (kind : major < 8) (low : info < 32)
    (read : argument info s = some (some n, rest)) :
    header (UInt8.ofNat (32 * major + info) :: s) =
      (classify major info (some n)).map fun head => (head, rest) := by
  rcases first_byte kind low with ⟨lowBits, highBits⟩
  rw [header]
  simp only [lowBits, highBits, read, Option.bind_eq_bind, Option.bind_some]
  cases classify major info (some n) <;> rfl

theorem header_writeHeader {major n : Nat} (kind : major < 8) (fits : n < 2 ^ 64) (rest : Bytes) :
    ∃ info, header (writeHeader major n ++ rest) =
      (classify major info (some n)).map fun head => (head, rest) := by
  unfold writeHeader
  split_ifs with tiny byte short word
  · refine ⟨n, header_read kind (by omega) ?_⟩
    rw [argument, if_pos tiny]
    rfl
  · exact ⟨24, header_read kind (by decide)
      (argument_bigEndian (by decide) (by decide) rfl byte rest)⟩
  · exact ⟨25, header_read kind (by decide)
      (argument_bigEndian (by decide) (by decide) rfl short rest)⟩
  · exact ⟨26, header_read kind (by decide)
      (argument_bigEndian (by decide) (by decide) rfl word rest)⟩
  · exact ⟨27, header_read kind (by decide)
      (argument_bigEndian (by decide) (by decide) rfl fits rest)⟩

theorem untagged_header {s rest : Bytes} {head : Header} (read : header s = some (head, rest))
    (noTag : ∀ n, head ≠ .tag n) : untagged s = some (head, rest) := by
  cases s with
  | nil => cases read
  | cons b s =>
      rw [untagged, List.length_cons, untaggedWithin, read]
      cases head with
      | tag n => exact absurd rfl (noTag n)
      | _ => rfl

theorem header_text {length : Nat} (fits : length < 2 ^ 64) (rest : Bytes) :
    header (writeHeader 3 length ++ rest) = some (.text (some length), rest) := by
  rcases header_writeHeader (show 3 < 8 by decide) fits rest with ⟨info, read⟩
  exact read

theorem header_map {size : Nat} (fits : size < 2 ^ 64) (rest : Bytes) :
    header (writeMapHeader size ++ rest) = some (.map (some size), rest) := by
  rcases header_writeHeader (show 5 < 8 by decide) fits rest with ⟨info, read⟩
  exact read

theorem untagged_text {length : Nat} (fits : length < 2 ^ 64) (rest : Bytes) :
    untagged (writeHeader 3 length ++ rest) = some (.text (some length), rest) :=
  untagged_header (header_text fits rest) (by intro n; exact Header.noConfusion)

theorem untagged_map {size : Nat} (fits : size < 2 ^ 64) (rest : Bytes) :
    untagged (writeMapHeader size ++ rest) = some (.map (some size), rest) :=
  untagged_header (header_map fits rest) (by intro n; exact Header.noConfusion)

theorem definiteText_ofText (s : String) (rest : Bytes) :
    definiteText (Bytes.ofText s).length (Bytes.ofText s ++ rest) = some (s, rest) := by
  rw [definiteText]
  simp [Bytes.take?_append, Bytes.toText?_ofText]

theorem text_writeText {s : String} (fits : (Bytes.ofText s).length < 2 ^ 64) (rest : Bytes) :
    text (writeText s ++ rest) = some (s, rest) := by
  have shape : writeText s ++ rest =
      writeHeader 3 (Bytes.ofText s).length ++ (Bytes.ofText s ++ rest) := by
    simp [writeText]
  rw [text, shape, untagged_text fits]
  exact definiteText_ofText s rest

end MailboxAccess.Cbor

namespace MailboxAccess.Document

open Cbor

structure FitsCbor (document : Document) : Prop where
  size : document.size < 2 ^ 64
  texts : ∀ entry ∈ document.entries,
    (Bytes.ofText entry.1).length < 2 ^ 64 ∧ (Bytes.ofText entry.2).length < 2 ^ 64

theorem readCborEntry_written {entry : String × String}
    (fits : (Bytes.ofText entry.1).length < 2 ^ 64 ∧ (Bytes.ofText entry.2).length < 2 ^ 64)
    (document : Document) (rest : Bytes) :
    readCborEntry document (writeCborEntry entry ++ rest) =
      some (document.insert entry.1 entry.2, rest) := by
  simp [readCborEntry, writeCborEntry, Cbor.text_writeText fits.1, Cbor.text_writeText fits.2]

theorem times_written {entries : List (String × String)}
    (fits : ∀ entry ∈ entries,
      (Bytes.ofText entry.1).length < 2 ^ 64 ∧ (Bytes.ofText entry.2).length < 2 ^ 64)
    (document : Document) (rest : Bytes) :
    times readCborEntry entries.length document (entries.flatMap writeCborEntry ++ rest) =
      some (entries.foldl (fun document entry => document.insert entry.1 entry.2) document, rest) := by
  induction entries generalizing document with
  | nil => rfl
  | cons entry entries ih =>
      rw [List.length_cons, List.flatMap_cons, List.append_assoc, times,
        readCborEntry_written (fits entry List.mem_cons_self)]
      exact ih (fun other later => fits other (List.mem_cons_of_mem _ later)) _

theorem readCborEntries_written {document : Document} (fits : FitsCbor document) (rest : Bytes) :
    readCborEntries (writeMapHeader document.size ++ (document.entries.flatMap writeCborEntry ++ rest)) =
      some (document, rest) := by
  have read : times readCborEntry document.entries.length SortedMap.empty
      (document.entries.flatMap writeCborEntry ++ rest) = some (document, rest) := by
    rw [times_written fits.texts]
    exact congrArg (fun read => some (read, rest)) document.ofList_entries
  rw [readCborEntries, untagged_map fits.size]
  exact read

theorem readFieldName_entries (rest : Bytes) :
    readFieldName (Cbor.writeText "entries" ++ rest) = some (true, rest) := by
  have length : (Bytes.ofText "entries").length = 7 := by decide
  have shape : Cbor.writeText "entries" ++ rest =
      writeHeader 3 7 ++ (Bytes.ofText "entries" ++ rest) := by
    simp [Cbor.writeText, length]
  have name := definiteText_ofText "entries" rest
  rw [length] at name
  rw [readFieldName, shape, untagged_text (by decide)]
  simp [name]

theorem writeCbor_eq (document : Document) (rest : Bytes) :
    writeCbor document ++ rest = writeMapHeader 1 ++ (Cbor.writeText "entries" ++
      (writeMapHeader document.size ++ (document.entries.flatMap writeCborEntry ++ rest))) := by
  simp [writeCbor]

theorem readCbor_followed {document : Document} (fits : FitsCbor document) (rest : Bytes) :
    readCbor (writeCbor document ++ rest) = some document := by
  have entries := readCborEntries_written fits rest
  rw [readCbor, writeCbor_eq, untagged_map (by decide)]
  simp only [Option.bind_eq_bind, Option.bind_some, repeatedly, times, readCborField,
    readFieldName_entries, if_true, entries]
  rfl

theorem readCbor_writeCbor {document : Document} (fits : FitsCbor document) :
    readCbor (writeCbor document) = some document := by
  have read := readCbor_followed fits []
  rwa [List.append_nil] at read

end MailboxAccess.Document
