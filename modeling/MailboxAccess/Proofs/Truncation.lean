import MailboxAccess.Proofs.Cbor
import MailboxAccess.Proofs.Json

/-!
Documents that were cut off are read in neither format. A cut lies in one of the pieces that a document was written
from; the pieces before it are read, and then the reader runs out of bytes inside of it.
-/
namespace MailboxAccess

variable {part whole : Bytes}

def ShortOf (part whole : Bytes) : Prop := part <+: whole ∧ part ≠ whole

namespace ShortOf

theorem exists_missing (cut : ShortOf part whole) : ∃ missing, missing ≠ [] ∧ part ++ missing = whole := by
  rcases cut.1 with ⟨missing, same⟩
  refine ⟨missing, ?_, same⟩
  intro none
  rw [none, List.append_nil] at same
  exact cut.2 same

theorem cons_cases {b : UInt8} (cut : ShortOf part (b :: whole)) :
    part = [] ∨ ∃ more, part = b :: more ∧ ShortOf more whole := by
  rcases List.prefix_cons_iff.mp cut.1 with none | ⟨more, rfl, start⟩
  · exact .inl none
  · refine .inr ⟨more, rfl, start, ?_⟩
    intro same
    rw [same] at cut
    exact cut.2 rfl

theorem eq_nil {b : UInt8} (cut : ShortOf part [b]) : part = [] := by
  rcases cut.cons_cases with none | ⟨more, -, beyond⟩
  · exact none
  · exact absurd (List.prefix_nil.mp beyond.1) beyond.2

/-- A cut lies in the first of two pieces, or after it. -/
theorem append_cases {first second : Bytes} (cut : ShortOf part (first ++ second)) :
    ShortOf part first ∨ ∃ more, part = first ++ more ∧ ShortOf more second := by
  have after {more : Bytes} (rest : part = first ++ more) : ShortOf more second := by
    rw [rest] at cut
    refine ⟨(List.prefix_append_right_inj first).mp cut.1, ?_⟩
    intro same
    exact cut.2 (congrArg (first ++ ·) same)
  rcases List.prefix_or_prefix_of_prefix cut.1 (List.prefix_append first second) with within | ⟨more, rest⟩
  · by_cases ended : part = first
    · have rest : part = first ++ [] := by rw [ended, List.append_nil]
      exact .inr ⟨[], rest, after rest⟩
    · exact .inl ⟨within, ended⟩
  · exact .inr ⟨more, rest.symm, after rest.symm⟩

end ShortOf

/-- What was read stays so when more bytes follow. -/
structure Steady {α : Type} (reader : Reader α) : Prop where
  append : ∀ {s rest : Bytes} {a : α} (more : Bytes),
    reader s = some (a, rest) → reader (s ++ more) = some (a, rest ++ more)

theorem Steady.short {α : Type} {reader : Reader α} (steady : Steady reader) {a : α}
    (read : reader whole = some (a, [])) (cut : ShortOf part whole) : reader part = none := by
  rcases cut.exists_missing with ⟨missing, some, same⟩
  cases early : reader part with
  | none => rfl
  | some found =>
      have later := steady.append missing early
      rw [same, read, Option.some.injEq, Prod.mk.injEq] at later
      exact absurd (List.append_eq_nil_iff.mp later.2.symm).2 some

theorem Steady.short_of_append {α : Type} {reader : Reader α} (steady : Steady reader) {a : α}
    (read : ∀ rest, reader (whole ++ rest) = some (a, rest)) (cut : ShortOf part whole) : reader part = none := by
  have alone := read []
  rw [List.append_nil] at alone
  exact steady.short alone cut

theorem Bytes.take?_steady (n : Nat) : Steady (take? n) := by
  refine ⟨?_⟩
  intro s rest taken more read
  induction n generalizing s taken with
  | zero =>
      cases read
      rfl
  | succ n ih =>
      cases s with
      | nil => cases read
      | cons b s =>
          rcases Option.map_eq_some_iff.mp read with ⟨⟨others, left⟩, later, same⟩
          cases same
          rw [List.cons_append, take?, ih later]
          rfl

theorem Bytes.take?_short (cut : ShortOf part whole) : take? whole.length part = none :=
  (take?_steady _).short_of_append (take?_append whole) cut

namespace Cbor

theorem argument_steady (info : Nat) : Steady (argument info) := by
  refine ⟨?_⟩
  intro s rest n more read
  rw [argument] at read ⊢
  split_ifs at read ⊢ with immediate indefinite
  · cases read
    rfl
  · cases read
    rfl
  · rcases Option.bind_eq_some_iff.mp read with ⟨width, known, wide⟩
    rcases Option.bind_eq_some_iff.mp wide with ⟨⟨taken, left⟩, first, same⟩
    cases same
    have later := (Bytes.take?_steady width).append more first
    simp [known, later]

theorem header_steady : Steady header := by
  refine ⟨?_⟩
  intro s rest head more read
  cases s with
  | nil => cases read
  | cons b s =>
      rcases Option.bind_eq_some_iff.mp read with ⟨⟨n, left⟩, first, kind⟩
      rcases Option.bind_eq_some_iff.mp kind with ⟨found, known, same⟩
      cases same
      have later := (argument_steady _).append more first
      rw [List.cons_append, header]
      simp [later, known]

theorem untagged_of_header {s : Bytes} (unread : header s = none) : untagged s = none := by
  rw [untagged]
  cases s.length with
  | zero => rfl
  | succ n => rw [untaggedWithin, unread]

theorem untagged_text_short {length : Nat} (fits : length < 2 ^ 64) (cut : ShortOf part (writeHeader 3 length)) :
    untagged part = none :=
  untagged_of_header (header_steady.short_of_append (header_text fits) cut)

theorem untagged_map_short {size : Nat} (fits : size < 2 ^ 64) (cut : ShortOf part (writeMapHeader size)) :
    untagged part = none :=
  untagged_of_header (header_steady.short_of_append (header_map fits) cut)

theorem definiteText_short {bytes : Bytes} (cut : ShortOf part bytes) : definiteText bytes.length part = none := by
  rw [definiteText, Bytes.take?_short cut]
  rfl

theorem text_short {s : String} (fits : (Bytes.ofText s).length < 2 ^ 64) (cut : ShortOf part (writeText s)) :
    text part = none := by
  rcases cut.append_cases with inHeader | ⟨more, rfl, inText⟩
  · rw [text, untagged_text_short fits inHeader]
    rfl
  · rw [text, untagged_text fits]
    exact definiteText_short inText

end Cbor

namespace Json

theorem body_steady : Steady body := by
  refine ⟨?_⟩
  intro s rest t more read
  induction s using body.induct generalizing t with
  | case1 => cases read
  | case2 s =>
      rw [body_quote] at read
      cases read
      exact body_quote _
  | case3 notQuote =>
      cases read
  | case4 notQuote e s ih =>
      rw [body_backslash] at read
      rcases Option.map_eq_some_iff.mp read with ⟨⟨later, left⟩, found, same⟩
      cases same
      rw [List.cons_append, List.cons_append, body_backslash, ih found]
      rfl
  | case5 b s notQuote notBackslash ih =>
      rw [body_plain notQuote notBackslash] at read
      rcases Option.map_eq_some_iff.mp read with ⟨⟨later, left⟩, found, same⟩
      cases same
      rw [List.cons_append, body_plain notQuote notBackslash, ih found]
      rfl

theorem text_short {s : String} (cut : ShortOf part (writeText s)) : text part = none := by
  have ended := body_escape (Bytes.ofText s) []
  rcases cut.cons_cases with rfl | ⟨more, rfl, inside⟩
  · rfl
  · rw [text, if_pos rfl, body_steady.short ended inside]
    rfl

theorem skipBlanks_short {rest : Bytes} (cut : ShortOf part (quote :: rest)) : skipBlanks part = part := by
  rcases cut.cons_cases with rfl | ⟨more, rfl, -⟩
  · rfl
  · exact skipBlanks_cons (by decide) _

theorem expect_closeBrace_short {rest : Bytes} (cut : ShortOf part (quote :: rest)) :
    expect closeBrace part = none := by
  rcases cut.cons_cases with rfl | ⟨more, rfl, -⟩
  · rfl
  · exact expect_other (by decide) (by decide) _

theorem object_short {σ : Type} {step : σ → String → Reader σ} {start : σ} (unclosed : expect closeBrace part = none)
    (unread : ∀ rounds, members step rounds start part = none) : object step start part = none := by
  rw [object, unclosed]
  exact unread _

end Json

namespace Document

section

open Cbor

theorem readCborEntry_short {entry : String × String}
    (fits : (Bytes.ofText entry.1).length < 2 ^ 64 ∧ (Bytes.ofText entry.2).length < 2 ^ 64)
    (cut : ShortOf part (writeCborEntry entry)) (document : Document) : readCborEntry document part = none := by
  rcases cut.append_cases with inKey | ⟨more, rfl, inRights⟩
  · rw [readCborEntry, text_short fits.1 inKey]
    rfl
  · rw [readCborEntry, text_writeText fits.1]
    simp [text_short fits.2 inRights]

theorem times_short {entries : List (String × String)}
    (fits : ∀ entry ∈ entries,
      (Bytes.ofText entry.1).length < 2 ^ 64 ∧ (Bytes.ofText entry.2).length < 2 ^ 64)
    (cut : ShortOf part (entries.flatMap writeCborEntry)) (document : Document) :
    times readCborEntry entries.length document part = none := by
  induction entries generalizing document part with
  | nil => exact absurd (List.prefix_nil.mp cut.1) cut.2
  | cons entry entries ih =>
      have here := fits entry List.mem_cons_self
      rw [List.flatMap_cons] at cut
      rw [List.length_cons, times]
      rcases cut.append_cases with inEntry | ⟨more, rfl, later⟩
      · rw [readCborEntry_short here inEntry]
      · rw [readCborEntry_written here]
        exact ih (fun other member => fits other (List.mem_cons_of_mem _ member)) later _

theorem readCborEntries_short {document : Document} (fits : FitsCbor document)
    (cut : ShortOf part (writeMapHeader document.size ++ document.entries.flatMap writeCborEntry)) :
    readCborEntries part = none := by
  rcases cut.append_cases with inHeader | ⟨more, rfl, inEntries⟩
  · rw [readCborEntries, untagged_map_short fits.size inHeader]
    rfl
  · rw [readCborEntries, untagged_map fits.size]
    exact times_short fits.texts inEntries _

theorem readFieldName_short (cut : ShortOf part (Cbor.writeText "entries")) : readFieldName part = none := by
  rcases cut.append_cases with inHeader | ⟨more, rfl, inName⟩
  · rw [readFieldName, untagged_text_short (by decide) inHeader]
    rfl
  · rw [readFieldName, untagged_text (by decide)]
    simp [definiteText_short inName]

theorem readCborField_short {document : Document} (fits : FitsCbor document)
    (cut : ShortOf part (Cbor.writeText "entries" ++
      (writeMapHeader document.size ++ document.entries.flatMap writeCborEntry))) :
    readCborField none part = none := by
  rcases cut.append_cases with inName | ⟨more, rfl, inEntries⟩
  · rw [readCborField, readFieldName_short inName]
    rfl
  · rw [readCborField, readFieldName_entries]
    simp [readCborEntries_short fits inEntries]

theorem readCbor_short {document : Document} (fits : FitsCbor document) (cut : ShortOf part (writeCbor document)) :
    readCbor part = none := by
  have shape := writeCbor_eq document []
  rw [List.append_nil, List.append_nil] at shape
  rw [shape] at cut
  rcases cut.append_cases with inHeader | ⟨more, rfl, inField⟩
  · rw [readCbor, untagged_map_short (by decide) inHeader]
    rfl
  · rw [readCbor, untagged_map (by decide)]
    simp [repeatedly, times, readCborField_short fits inField]

end

section

open Json

variable {σ : Type} {step : σ → String → Reader σ} {state next : σ} {name : String} {value after : Bytes}

/-- A cut in one member, or later. What comes after the member either ends the object or goes on with a comma. -/
theorem members_short (read : ∀ rest, step state name (value ++ rest) = some (next, rest))
    (early : ∀ {part}, ShortOf part value → step state name part = none)
    (late : ∀ {part}, ShortOf part after →
      part = [] ∨ ∃ more, part = comma :: more ∧ ∀ rounds, members step rounds next more = none)
    (cut : ShortOf part (writeText name ++ colon :: (value ++ after))) (rounds : Nat) :
    members step rounds state part = none := by
  cases rounds with
  | zero => rfl
  | succ rounds =>
      rcases cut.append_cases with inName | ⟨more, rfl, afterName⟩
      · rw [members, skipBlanks_short inName, text_short inName]
        rfl
      · rcases afterName.cons_cases with rfl | ⟨more, rfl, afterColon⟩
        · rw [members, skipBlanks_writeText, text_writeText]
          rfl
        · rcases afterColon.append_cases with inValue | ⟨more, rfl, afterValue⟩
          · rw [members]
            simp [skipBlanks_writeText, text_writeText, expect_cons (show isBlank colon = false from rfl),
              early inValue]
          · rw [members_next step rounds state next name value more (read more)]
            rcases late afterValue with rfl | ⟨tail, rfl, lost⟩
            · rfl
            · rw [expect_cons (by decide)]
              exact lost rounds

theorem readJsonEntry_short {text : String} (cut : ShortOf part (Json.writeText text)) (document : Document)
    (name : String) : readJsonEntry document name part = none := by
  rw [readJsonEntry, stringValue, skipBlanks_short cut, Json.text_short cut]
  rfl

theorem entries_short (entry : String × String) (entries : List (String × String)) (document : Document)
    (cut : ShortOf part (writeJsonMember entry ++
      ((entries.flatMap fun other => comma :: writeJsonMember other) ++ [closeBrace]))) (rounds : Nat) :
    members readJsonEntry rounds document part = none := by
  induction entries generalizing entry document part rounds with
  | nil =>
      rw [writeJsonMember, List.append_assoc, List.cons_append] at cut
      refine members_short (readJsonEntry_writeText document entry.1 entry.2) ?_ ?_ cut rounds
      · intro part inValue
        exact readJsonEntry_short inValue document entry.1
      · intro part ended
        exact .inl ended.eq_nil
  | cons other entries ih =>
      rw [writeJsonMember, List.append_assoc, List.cons_append] at cut
      refine members_short (readJsonEntry_writeText document entry.1 entry.2) ?_ ?_ cut rounds
      · intro part inValue
        exact readJsonEntry_short inValue document entry.1
      · intro part later
        rw [List.flatMap_cons, List.cons_append, List.cons_append, List.append_assoc] at later
        rcases later.cons_cases with none | ⟨more, rfl, inLater⟩
        · exact .inl none
        · exact .inr ⟨more, rfl, ih other _ inLater⟩

theorem readJsonEntries_short {document : Document}
    (cut : ShortOf part ([comma].intercalate (document.entries.map writeJsonMember) ++ [closeBrace])) :
    readJsonEntries part = none := by
  cases listed : document.entries with
  | nil =>
      rw [listed] at cut
      have none : part = [] := cut.eq_nil
      rw [none]
      rfl
  | cons entry entries =>
      rw [listed, intercalate_members, List.append_assoc] at cut
      refine object_short ?_ (entries_short entry entries _ cut)
      rw [writeJsonMember, List.append_assoc] at cut
      exact expect_closeBrace_short cut

theorem readJsonMember_short {document : Document}
    (cut : ShortOf part (openBrace :: ([comma].intercalate (document.entries.map writeJsonMember) ++ [closeBrace]))) :
    readJsonMember none "entries" part = none := by
  rw [readJsonMember, if_pos rfl]
  rcases cut.cons_cases with rfl | ⟨more, rfl, inside⟩
  · rfl
  · simp [expect_cons (show isBlank openBrace = false from rfl), readJsonEntries_short inside]

theorem readJson_short {document : Document} (cut : ShortOf part (writeJson document)) : readJson part = none := by
  let value := openBrace :: ([comma].intercalate (document.entries.map writeJsonMember) ++ [closeBrace])
  have shape : writeJson document = openBrace :: (writeText "entries" ++ colon :: (value ++ [closeBrace])) := by
    simp [writeJson, value]
  have read (rest : Bytes) : readJsonMember none "entries" (value ++ rest) = some (some document, rest) := by
    have entries := readJsonMember_entries document rest
    simpa [value] using entries
  have unread : readJsonValue part = none := by
    rw [shape] at cut
    rcases cut.cons_cases with rfl | ⟨more, rfl, inside⟩
    · rfl
    · have lost : object readJsonMember none more = none := by
        refine object_short (expect_closeBrace_short inside) (members_short read ?_ ?_ inside)
        · intro part inValue
          exact readJsonMember_short inValue
        · intro part ended
          exact .inl ended.eq_nil
      rw [readJsonValue, expect_cons (by decide)]
      simp [lost]
  rw [readJson, whole, unread]
  rfl

end

end Document

end MailboxAccess
