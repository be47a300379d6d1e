import MailboxAccess.Document.Json
import Mathlib.Data.List.TakeWhile
import Mathlib.Tactic

namespace MailboxAccess.Json

inductive Escaped : UInt8 → Bytes → Prop
  | plain {b : UInt8} (notQuote : b ≠ quote) (notBackslash : b ≠ backslash) (printed : ¬ b < 0x20) :
      Escaped b [b]
  | named {b e : UInt8} (letter : e ≠ 0x75) (meaning : named? e = some b) : Escaped b [backslash, e]
  | unit {b high low : UInt8} (control : b < 0x20) (value : unitValue? 0x30 0x30 high low = some b.toNat)
      (digits : ∀ d ∈ [high, low], d ≠ quote ∧ d ≠ backslash) :
      Escaped b [backslash, 0x75, 0x30, 0x30, high, low]

theorem control_digits : ∀ n < 32,
    unitValue? 0x30 0x30 (hexDigit (n / 16)) (hexDigit (n % 16)) = some n ∧
      ∀ d ∈ [hexDigit (n / 16), hexDigit (n % 16)], d ≠ quote ∧ d ≠ backslash := by
  decide +kernel

theorem escaped (b : UInt8) : Escaped b (escape b) := by
  unfold escape
  split_ifs with mark backspace feed line carriage tab control
  · rcases mark with rfl | rfl
    · exact .named (by decide) (by decide)
    · exact .named (by decide) (by decide)
  · subst backspace
    exact .named (by decide) (by decide)
  · subst feed
    exact .named (by decide) (by decide)
  · subst line
    exact .named (by decide) (by decide)
  · subst carriage
    exact .named (by decide) (by decide)
  · subst tab
    exact .named (by decide) (by decide)
  · have small : b.toNat < 32 := by simpa [UInt8.lt_iff_toNat_lt] using control
    rcases control_digits b.toNat small with ⟨value, digits⟩
    exact .unit control value digits
  · exact .plain (fun same => mark (.inl same)) (fun same => mark (.inr same)) control

theorem body_quote (rest : Bytes) : body (quote :: rest) = some ([], rest) := by
  rw [body.eq_def]
  rfl

theorem body_plain {b : UInt8} (notQuote : b ≠ quote) (notBackslash : b ≠ backslash) (s : Bytes) :
    body (b :: s) = (body s).map fun (t, rest) => (b :: t, rest) := by
  rw [body.eq_def]
  simp only [if_neg notQuote, if_neg notBackslash]

theorem body_backslash (e : UInt8) (s : Bytes) :
    body (backslash :: e :: s) = (body s).map fun (t, rest) => (backslash :: e :: t, rest) := by
  rw [body.eq_def]
  rfl

theorem body_escaped {b : UInt8} {written : Bytes} (form : Escaped b written) (s : Bytes) :
    body (written ++ s) = (body s).map fun (t, rest) => (written ++ t, rest) := by
  cases form with
  | plain notQuote notBackslash _ => exact body_plain notQuote notBackslash s
  | named => exact body_backslash _ s
  | @unit high low _ _ digits =>
      have first := digits high (by simp)
      have second := digits low (by simp)
      have zero : (0x30 : UInt8) ≠ quote ∧ (0x30 : UInt8) ≠ backslash := by decide
      simp only [List.cons_append, List.nil_append, body_backslash, body_plain zero.1 zero.2,
        body_plain first.1 first.2, body_plain second.1 second.2, Option.map_map]
      rfl

theorem body_escape (bytes rest : Bytes) :
    body (bytes.flatMap escape ++ quote :: rest) = some (bytes.flatMap escape, rest) := by
  induction bytes with
  | nil => exact body_quote rest
  | cons b bytes ih =>
      rw [List.flatMap_cons, List.append_assoc, body_escaped (escaped b), ih]
      rfl

inductive Means : UInt8 → Piece → Prop
  | byte (b : UInt8) : Means b (.byte b)
  | unit {b : UInt8} (control : b < 0x20) : Means b (.unit b.toNat)

theorem pieces_escaped {b : UInt8} {written : Bytes} (form : Escaped b written) :
    ∃ piece, Means b piece ∧ ∀ s, pieces (written ++ s) = (pieces s).map (piece :: ·) := by
  cases form with
  | plain _ notBackslash printed =>
      refine ⟨.byte b, .byte b, ?_⟩
      intro s
      change pieces (b :: s) = _
      rw [pieces.eq_def]
      simp only [if_neg notBackslash, if_neg printed]
      cases pieces s <;> rfl
  | @named e letter meaning =>
      refine ⟨.byte b, .byte b, ?_⟩
      intro s
      change pieces (backslash :: e :: s) = _
      rw [pieces.eq_3 _ _ _ fun _ _ _ _ _ same _ => letter same, if_pos rfl, meaning]
      cases pieces s <;> rfl
  | @unit high low control value digits =>
      refine ⟨.unit b.toNat, .unit control, ?_⟩
      intro s
      change pieces (backslash :: 0x75 :: 0x30 :: 0x30 :: high :: low :: s) = _
      rw [pieces.eq_2, if_pos rfl, value]
      cases pieces s <;> rfl

theorem control_char : ∀ n < 32,
    isHighSurrogate n = false ∧ isLowSurrogate n = false ∧
      String.utf8EncodeChar (Char.ofNat n) = [UInt8.ofNat n] := by
  decide

theorem join_means {b : UInt8} {piece : Piece} (meaning : Means b piece) (rest : List Piece) :
    join (piece :: rest) = (join rest).map (b :: ·) := by
  cases meaning with
  | byte =>
      rw [join]
      cases join rest <;> rfl
  | unit control =>
      have small : b.toNat < 32 := by simpa [UInt8.lt_iff_toNat_lt] using control
      rcases control_char b.toNat small with ⟨high, low, char⟩
      rw [UInt8.ofNat_toNat] at char
      rw [join.eq_def]
      simp only [high, low, char, Bool.false_eq_true, if_false]
      cases join rest <;> rfl

theorem pieces_escape (bytes : Bytes) :
    ∃ read, pieces (bytes.flatMap escape) = some read ∧ join read = some bytes := by
  induction bytes with
  | nil => exact ⟨[], rfl, rfl⟩
  | cons b bytes ih =>
      rcases ih with ⟨read, found, joined⟩
      rcases pieces_escaped (escaped b) with ⟨piece, meaning, first⟩
      refine ⟨piece :: read, ?_, ?_⟩
      · rw [List.flatMap_cons, first, found]
        rfl
      · rw [join_means meaning, joined]
        rfl

theorem text_writeText (s : String) (rest : Bytes) : text (writeText s ++ rest) = some (s, rest) := by
  have start : writeText s ++ rest =
      quote :: ((Bytes.ofText s).flatMap escape ++ quote :: rest) := by
    simp [writeText]
  rcases pieces_escape (Bytes.ofText s) with ⟨read, found, joined⟩
  rw [start, text, if_pos rfl, body_escape]
  simp [found, joined, Bytes.toText?_ofText]

theorem skipBlanks_cons {b : UInt8} (printed : isBlank b = false) (s : Bytes) :
    skipBlanks (b :: s) = b :: s := by
  simp [skipBlanks, printed]

theorem skipBlanks_writeText (s : String) (rest : Bytes) :
    skipBlanks (writeText s ++ rest) = writeText s ++ rest :=
  skipBlanks_cons (by decide) _

theorem expect_cons {b : UInt8} (printed : isBlank b = false) (s : Bytes) : expect b (b :: s) = some s := by
  rw [expect, skipBlanks_cons printed]
  exact if_pos rfl

theorem expect_other {b c : UInt8} (printed : isBlank c = false) (other : c ≠ b) (s : Bytes) :
    expect b (c :: s) = none := by
  rw [expect, skipBlanks_cons printed]
  exact if_neg other

end MailboxAccess.Json

namespace MailboxAccess.Document

open Json

theorem readJsonEntry_writeText (document : Document) (name value : String) (rest : Bytes) :
    readJsonEntry document name (writeText value ++ rest) = some (document.insert name value, rest) := by
  simp [readJsonEntry, stringValue, skipBlanks_writeText, text_writeText]

theorem intercalate_members (entry : String × String) (entries : List (String × String)) :
    [comma].intercalate ((entry :: entries).map writeJsonMember) =
      writeJsonMember entry ++ entries.flatMap fun other => comma :: writeJsonMember other := by
  induction entries generalizing entry with
  | nil => simp [List.intercalate]
  | cons other entries ih =>
      have later := ih other
      simp only [List.intercalate, List.map_cons, List.intersperse] at later ⊢
      simp [later]

theorem members_next {σ : Type} (step : σ → String → Reader σ) (rounds : Nat) (state next : σ)
    (name : String) (value rest : Bytes)
    (read : step state name (value ++ rest) = some (next, rest)) :
    members step (rounds + 1) state (writeText name ++ colon :: (value ++ rest)) =
      match expect comma rest with
      | some more => members step rounds next more
      | none => (expect closeBrace rest).map fun rest => (next, rest) := by
  rw [members]
  simp only [skipBlanks_writeText, text_writeText, expect_cons (show isBlank colon = false from rfl),
    Option.bind_eq_bind, Option.bind_some, read]
  cases expect comma rest with
  | some more => rfl
  | none => cases expect closeBrace rest <;> rfl

theorem members_written (entry : String × String) (entries : List (String × String)) (rounds : Nat)
    (enough : entries.length < rounds) (document : Document) (rest : Bytes) :
    members readJsonEntry rounds document (writeJsonMember entry ++
        ((entries.flatMap fun other => comma :: writeJsonMember other) ++ closeBrace :: rest)) =
      some ((entry :: entries).foldl (fun document entry => document.insert entry.1 entry.2) document, rest) := by
  induction entries generalizing entry rounds document with
  | nil =>
      rcases Nat.exists_eq_succ_of_ne_zero (by omega : rounds ≠ 0) with ⟨rounds, rfl⟩
      simp only [writeJsonMember, List.append_assoc, List.cons_append, List.flatMap_nil, List.nil_append]
      rw [members_next readJsonEntry _ _ _ _ _ _ (readJsonEntry_writeText _ _ _ _),
        expect_other (by decide) (by decide), expect_cons (by decide)]
      rfl
  | cons other entries ih =>
      rcases Nat.exists_eq_succ_of_ne_zero (by omega : rounds ≠ 0) with ⟨rounds, rfl⟩
      have fewer : entries.length < rounds := by simpa using enough
      rw [List.foldl_cons, ← ih other rounds fewer]
      rw [writeJsonMember, List.append_assoc, List.cons_append]
      rw [members_next readJsonEntry _ _ _ _ _ _ (readJsonEntry_writeText _ _ _ _)]
      simp only [List.flatMap_cons, List.cons_append, expect_cons (show isBlank comma = false from rfl),
        List.append_assoc]

theorem expect_closeBrace_writeText (s : String) (rest : Bytes) :
    expect closeBrace (writeText s ++ rest) = none :=
  expect_other (by decide) (by decide) _

theorem length_le_members (entries : List (String × String)) :
    entries.length ≤ (entries.flatMap fun other => comma :: writeJsonMember other).length := by
  induction entries with
  | nil => exact Nat.le_refl _
  | cons entry entries ih =>
      simp only [List.flatMap_cons, List.length_append, List.length_cons]
      omega

theorem readJsonEntries_written (document : Document) (rest : Bytes) :
    readJsonEntries ([comma].intercalate (document.entries.map writeJsonMember) ++ closeBrace :: rest) =
      some (document, rest) := by
  have read := document.ofList_entries
  rw [readJsonEntries, object]
  cases listed : document.entries with
  | nil =>
      rw [listed] at read
      have nothing : [comma].intercalate (([] : List (String × String)).map writeJsonMember) ++
          closeBrace :: rest = closeBrace :: rest := rfl
      rw [nothing, expect_cons (by decide), ← read]
      rfl
  | cons entry entries =>
      rw [listed] at read
      have shape : [comma].intercalate ((entry :: entries).map writeJsonMember) ++ closeBrace :: rest =
          writeJsonMember entry ++
            ((entries.flatMap fun other => comma :: writeJsonMember other) ++ closeBrace :: rest) := by
        rw [intercalate_members, List.append_assoc]
      have notEmpty : expect closeBrace (writeJsonMember entry ++
          ((entries.flatMap fun other => comma :: writeJsonMember other) ++ closeBrace :: rest)) = none := by
        rw [writeJsonMember, List.append_assoc]
        exact expect_closeBrace_writeText _ _
      have rounds : entries.length < (writeJsonMember entry ++
          ((entries.flatMap fun other => comma :: writeJsonMember other) ++ closeBrace :: rest)).length := by
        have members := length_le_members entries
        simp only [List.length_append, List.length_cons]
        omega
      -- each round takes a byte, so the rounds that the reader allows itself are enough
      rw [shape, notEmpty]
      change members readJsonEntry _ SortedMap.empty _ = _
      rw [members_written entry entries _ rounds, ← read]
      rfl

theorem readJsonMember_entries (document : Document) (rest : Bytes) :
    readJsonMember none "entries" (openBrace ::
      ([comma].intercalate (document.entries.map writeJsonMember) ++ closeBrace :: rest)) =
        some (some document, rest) := by
  rw [readJsonMember, if_pos rfl]
  simp only [expect_cons (show isBlank openBrace = false from rfl), Option.bind_eq_bind,
    Option.bind_some, readJsonEntries_written]
  rfl

theorem writeJson_eq (document : Document) (rest : Bytes) :
    writeJson document ++ rest =
      openBrace :: (writeText "entries" ++ colon :: (openBrace ::
        ([comma].intercalate (document.entries.map writeJsonMember) ++ closeBrace :: closeBrace :: rest))) := by
  simp [writeJson]

theorem readJsonValue_writeJson (document : Document) (rest : Bytes) :
    readJsonValue (writeJson document ++ rest) = some (document, rest) := by
  let value := openBrace :: ([comma].intercalate (document.entries.map writeJsonMember) ++ [closeBrace])
  have shape : writeJson document ++ rest =
      openBrace :: (writeText "entries" ++ colon :: (value ++ closeBrace :: rest)) := by
    simp [writeJson_eq, value]
  have read : readJsonMember none "entries" (value ++ closeBrace :: rest) =
      some (some document, closeBrace :: rest) := by
    have entries := readJsonMember_entries document (closeBrace :: rest)
    simpa [value] using entries
  have outer : object readJsonMember none (writeText "entries" ++ colon :: (value ++ closeBrace :: rest)) =
      some (some document, rest) := by
    rw [object, expect_closeBrace_writeText]
    change members readJsonMember _ none _ = _
    have nonempty : ∃ rounds,
        (writeText "entries" ++ colon :: (value ++ closeBrace :: rest)).length = rounds + 1 := ⟨_, rfl⟩
    rcases nonempty with ⟨rounds, enough⟩
    rw [enough, members_next readJsonMember _ _ _ _ _ _ read, expect_other (by decide) (by decide),
      expect_cons (by decide)]
    rfl
  rw [shape, readJsonValue, expect_cons (by decide)]
  simp only [Option.bind_eq_bind, outer, Option.bind_some]
  rfl

theorem readJson_followed (document : Document) (rest : Bytes) :
    readJson (writeJson document ++ rest) = if rest.all isBlank then some document else none := by
  have blank : (skipBlanks rest).isEmpty = rest.all isBlank := by
    rw [Bool.eq_iff_iff, List.isEmpty_iff, skipBlanks, List.dropWhile_eq_nil_iff, List.all_eq_true]
  rw [readJson, whole, readJsonValue_writeJson]
  simp only [Option.bind_eq_bind, Option.bind_some, blank]

theorem readJson_writeJson (document : Document) : readJson (writeJson document) = some document := by
  have read := readJson_followed document []
  rwa [List.append_nil, List.all_nil, if_pos rfl] at read

end MailboxAccess.Document
