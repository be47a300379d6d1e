import MailboxAccess.Proofs.Spelling
import Mathlib.Tactic

/-!
Texts of rights, letter by letter. A reader of letters is described by its alphabet, by what each letter is short for
and by how it refuses all else (`Lexicon`). Both readers are of this kind, and what clients may write is the canonical
text with the older letters spelled out (`readers_agree`).
-/
namespace MailboxAccess.Rights

def letters : List Char := "aeiklprstwx".toList

/-- Clients may also use two older ones. -/
def clientLetters : List Char := letters ++ ['c', 'd']

def spelled (c : Char) : List Char :=
  if c = 'c' then ['k', 'x'] else if c = 'd' then ['e', 't', 'x'] else [c]

def expand (s : String) : String := String.ofList (s.toList.flatMap spelled)

def clientFault (s : String) (c : Char) : FormatError :=
  if ('a' ≤ c ∧ c ≤ 'z') ∨ ('0' ≤ c ∧ c ≤ '9') then .unsupportedRight c else .malformedRights s c

/-- Each letter of the alphabet means the rights whose letters it is short for, and nothing else has a meaning. -/
structure Lexicon (meaning : Char → Except FormatError Rights) (alphabet : List Char) (short : Char → List Char)
    (fault : Char → FormatError) : Prop where
  known : ∀ c ∈ alphabet, ∃ part, meaning c = .ok part ∧ ∀ right, part.contains right = true ↔ right.letter ∈ short c
  unknown : ∀ c, c ∉ alphabet → meaning c = .error (fault c)

namespace Lexicon

variable {meaning : Char → Except FormatError Rights} {alphabet : List Char} {short : Char → List Char}
  {fault : Char → FormatError}

theorem collect_eq_ok_iff (lexicon : Lexicon meaning alphabet short fault) {cs : List Char} {sum rights : Rights} :
    collect meaning cs sum = .ok rights ↔
      (∀ c ∈ cs, c ∈ alphabet) ∧
        ∀ right, rights.contains right = true ↔ sum.contains right = true ∨ right.letter ∈ cs.flatMap short := by
  induction cs generalizing sum with
  | nil =>
      constructor
      · intro read
        cases read
        simp
      · intro spec
        have same : sum = rights := ext_contains fun right => Bool.eq_iff_iff.mpr (by simpa using (spec.2 right).symm)
        rw [same]
        rfl
  | cons c cs ih =>
      rw [List.forall_mem_cons, collect]
      by_cases listed : c ∈ alphabet
      · rcases lexicon.known c listed with ⟨part, means, granted⟩
        rw [means]
        change collect meaning cs (sum.union part) = .ok rights ↔ _
        rw [ih, and_iff_right listed]
        refine and_congr_right fun _ => forall_congr' fun right => ?_
        rw [contains_union, Bool.or_eq_true, granted, List.flatMap_cons, List.mem_append, or_assoc]
      · rw [lexicon.unknown c listed]
        constructor
        · intro read
          cases read
        · exact fun spec => absurd spec.1.1 listed

theorem collect_eq_error_iff (lexicon : Lexicon meaning alphabet short fault) {cs : List Char} {sum : Rights}
    {e : FormatError} :
    collect meaning cs sum = .error e ↔ ∃ c, cs.find? (· ∉ alphabet) = some c ∧ e = fault c := by
  induction cs generalizing sum with
  | nil => exact ⟨nofun, fun found => by simp at found⟩
  | cons c cs ih =>
      rw [collect, List.find?_cons]
      by_cases listed : c ∈ alphabet
      · rcases lexicon.known c listed with ⟨part, means, -⟩
        rw [means]
        change collect meaning cs (sum.union part) = .error e ↔ _
        rw [ih]
        simp [listed]
      · rw [lexicon.unknown c listed]
        simp only [listed, not_false_eq_true, decide_true, Option.some.injEq, exists_eq_left']
        constructor
        · intro refused
          cases refused
          rfl
        · intro same
          rw [same]
          rfl

end Lexicon

theorem letters_eq : letters = Right.all.map Right.letter := by decide

theorem letter_mem (right : Right) : right.letter ∈ letters := by
  rw [letters_eq]
  exact List.mem_map_of_mem right.mem_all

theorem letter_injective {a b : Right} (same : a.letter = b.letter) : a = b := by
  have found := a.ofLetter?_letter
  rw [same, b.ofLetter?_letter] at found
  exact (Option.some.inj found).symm

theorem contains_only_iff {a b : Right} : (only a).contains b = true ↔ b.letter ∈ [a.letter] := by
  rw [contains_only, decide_eq_true_eq, List.mem_singleton]
  exact ⟨fun same => congrArg Right.letter same.symm, fun same => (letter_injective same).symm⟩

theorem ofLetter_of_mem {c : Char} (listed : c ∈ letters) :
    ∃ right, Right.ofLetter? c = some right ∧ right.letter = c := by
  rw [letters_eq, List.mem_map] at listed
  rcases listed with ⟨right, -, rfl⟩
  exact ⟨right, right.ofLetter?_letter, rfl⟩

theorem ofLetter_of_not_mem {c : Char} (unlisted : c ∉ letters) : Right.ofLetter? c = none := by
  cases found : Right.ofLetter? c with
  | none => rfl
  | some right => exact absurd (Right.letter_of_ofLetter? found ▸ letter_mem right) unlisted

theorem canonical (s : String) :
    Lexicon (canonicalLetter s) letters (fun c => [c]) (FormatError.malformedRights s) where
  known c listed := by
    rcases ofLetter_of_mem listed with ⟨right, found, rfl⟩
    refine ⟨only right, by rw [canonicalLetter, found], ?_⟩
    exact fun other => contains_only_iff
  unknown c unlisted := by rw [canonicalLetter, ofLetter_of_not_mem unlisted]

theorem clientFault_eq (s : String) (c : Char) :
    (if isReserved c then .unsupportedRight c else .malformedRights s c) = clientFault s c := by
  have reserved : isReserved c = true ↔ ('a' ≤ c ∧ c ≤ 'z') ∨ ('0' ≤ c ∧ c ≤ '9') := by
    have lower : c.isLower = true ↔ 'a' ≤ c ∧ c ≤ 'z' := by
      change (decide (c.val ≥ 97) && decide (c.val ≤ 122)) = true ↔ _
      rw [Bool.and_eq_true, decide_eq_true_iff, decide_eq_true_iff]
      exact Iff.rfl
    have digit : c.isDigit = true ↔ '0' ≤ c ∧ c ≤ '9' := by
      change (decide (c.val ≥ 48) && decide (c.val ≤ 57)) = true ↔ _
      rw [Bool.and_eq_true, decide_eq_true_iff, decide_eq_true_iff]
      exact Iff.rfl
    rw [isReserved, Bool.or_eq_true, lower, digit]
  simp only [clientFault, reserved]

theorem client (s : String) : Lexicon (commandLetter s) clientLetters spelled (clientFault s) where
  known c listed := by
    by_cases older : c = 'c' ∨ c = 'd'
    · rcases older with rfl | rfl
      · refine ⟨_, rfl, ?_⟩
        intro right
        cases right <;> decide
      · refine ⟨_, rfl, ?_⟩
        intro right
        cases right <;> decide
    · rcases not_or.mp older with ⟨notC, notD⟩
      have listed : c ∈ letters := by simpa [clientLetters, notC, notD] using listed
      rcases ofLetter_of_mem listed with ⟨right, found, rfl⟩
      refine ⟨only right, by simp [commandLetter, ofLegacyLetter?, notC, notD, found], ?_⟩
      intro other
      rw [contains_only_iff, spelled, if_neg notC, if_neg notD]
  unknown c unlisted := by
    simp only [clientLetters, List.mem_append, List.mem_cons, List.not_mem_nil, or_false, not_or] at unlisted
    rcases unlisted with ⟨unlisted, notC, notD⟩
    rw [← clientFault_eq]
    simp [commandLetter, ofLegacyLetter?, notC, notD, ofLetter_of_not_mem unlisted]

section Texts

variable {s t : String} {rights : Rights} {e : FormatError}

theorem parse_eq_ok_iff :
    parse s = .ok rights ↔
      (∀ c ∈ s.toList, c ∈ letters) ∧ ∀ right, rights.contains right = true ↔ right.letter ∈ s.toList := by
  rw [parse, (canonical s).collect_eq_ok_iff]
  simp [contains_empty]

theorem parse_eq_error_iff :
    parse s = .error e ↔ ∃ c, s.toList.find? (· ∉ letters) = some c ∧ e = .malformedRights s c :=
  (canonical s).collect_eq_error_iff

theorem parseCommand_eq_ok_iff :
    parseCommand s = .ok rights ↔
      (∀ c ∈ s.toList, c ∈ clientLetters) ∧
        ∀ right, rights.contains right = true ↔ right.letter ∈ (expand s).toList := by
  rw [parseCommand, (client s).collect_eq_ok_iff, expand, String.toList_ofList]
  simp [contains_empty]

theorem parseCommand_eq_error_iff :
    parseCommand s = .error e ↔ ∃ c, s.toList.find? (· ∉ clientLetters) = some c ∧ e = clientFault s c :=
  (client s).collect_eq_error_iff

theorem exists_parseCommand_iff : (∃ rights, parseCommand s = .ok rights) ↔ ∀ c ∈ s.toList, c ∈ clientLetters := by
  cases read : parseCommand s with
  | ok rights => exact iff_of_true ⟨rights, rfl⟩ (parseCommand_eq_ok_iff.mp read).1
  | error e =>
      rcases parseCommand_eq_error_iff.mp read with ⟨c, found, -⟩
      refine iff_of_false nofun fun all => ?_
      have outside := List.find?_some found
      exact of_decide_eq_true outside (all c (List.mem_of_find?_eq_some found))

theorem spelled_cases (c : Char) :
    (c ∈ clientLetters ∧ ∀ d ∈ spelled c, d ∈ letters) ∨ (c ∉ clientLetters ∧ c ∉ letters ∧ spelled c = [c]) := by
  have canonical (c : Char) (all : (spelled c).all (· ∈ letters) = true) : ∀ d ∈ spelled c, d ∈ letters := by
    intro d member
    exact of_decide_eq_true (List.all_eq_true.mp all d member)
  by_cases older : c = 'c' ∨ c = 'd'
  · rcases older with rfl | rfl
    · exact .inl ⟨by decide, canonical _ (by decide)⟩
    · exact .inl ⟨by decide, canonical _ (by decide)⟩
  · rcases not_or.mp older with ⟨notC, notD⟩
    have single : spelled c = [c] := by rw [spelled, if_neg notC, if_neg notD]
    have same : c ∈ clientLetters ↔ c ∈ letters := by simp [clientLetters, notC, notD]
    by_cases listed : c ∈ letters
    · exact .inl ⟨same.mpr listed, by simpa [single] using listed⟩
    · exact .inr ⟨fun client => listed (same.mp client), listed, single⟩

theorem find_expand (s : String) :
    (expand s).toList.find? (· ∉ letters) = s.toList.find? (· ∉ clientLetters) := by
  rw [expand, String.toList_ofList]
  induction s.toList with
  | nil => rfl
  | cons c cs ih =>
      rw [List.flatMap_cons, List.find?_append, List.find?_cons, ih]
      rcases spelled_cases c with ⟨client, short⟩ | ⟨foreign, unlisted, single⟩
      · have clean : (spelled c).find? (· ∉ letters) = none := by
          rw [List.find?_eq_none]
          intro d member outside
          exact of_decide_eq_true outside (short d member)
        rw [clean]
        simp [client]
      · simp [single, foreign, unlisted]

theorem expand_canonical_iff : (∀ c ∈ (expand s).toList, c ∈ letters) ↔ ∀ c ∈ s.toList, c ∈ clientLetters := by
  have same := find_expand s
  have none (alphabet cs : List Char) : cs.find? (· ∉ alphabet) = none ↔ ∀ c ∈ cs, c ∈ alphabet := by
    simp [List.find?_eq_none]
  rw [← none, ← none, same]

theorem expand_eq_self (canonical : ∀ c ∈ s.toList, c ∈ letters) : expand s = s := by
  have each : ∀ c ∈ s.toList, spelled c = [c] := by
    intro c member
    have listed := canonical c member
    have notC : c ≠ 'c' := fun same => absurd (same ▸ listed) (by decide)
    have notD : c ≠ 'd' := fun same => absurd (same ▸ listed) (by decide)
    rw [spelled, if_neg notC, if_neg notD]
  have same : s.toList.flatMap spelled = s.toList := by
    rw [List.flatMap, List.map_congr_left each]
    exact List.flatMap_singleton' s.toList
  rw [expand, same, String.ofList_toList]

theorem parseCommand_iff_expand : parseCommand s = .ok rights ↔ parse (expand s) = .ok rights := by
  rw [parseCommand_eq_ok_iff, parse_eq_ok_iff, expand_canonical_iff]

theorem parse_iff_client :
    parse s = .ok rights ↔ parseCommand s = .ok rights ∧ 'c' ∉ s.toList ∧ 'd' ∉ s.toList := by
  constructor
  · intro read
    have listed := (parse_eq_ok_iff.mp read).1
    refine ⟨?_, fun older => absurd (listed _ older) (by decide), fun older => absurd (listed _ older) (by decide)⟩
    rwa [parseCommand_iff_expand, expand_eq_self listed]
  · intro both
    rcases both with ⟨read, noC, noD⟩
    have listed : ∀ c ∈ s.toList, c ∈ letters := by
      intro c member
      have client := (parseCommand_eq_ok_iff.mp read).1 c member
      simp only [clientLetters, List.mem_append, List.mem_cons, List.not_mem_nil, or_false] at client
      rcases client with listed | rfl | rfl
      · exact listed
      · exact absurd member noC
      · exact absurd member noD
    rwa [parseCommand_iff_expand, expand_eq_self listed] at read

theorem mem_expand_iff {c : Char} : c ∈ (expand s).toList ↔ ∃ d ∈ s.toList, c ∈ spelled d := by
  rw [expand, String.toList_ofList, List.mem_flatMap]

theorem expand_append (s t : String) : expand (s ++ t) = expand s ++ expand t := by
  apply String.toList_injective
  simp [expand]

theorem parse_append {a b : Rights} (first : parse s = .ok a) (second : parse t = .ok b) :
    parse (s ++ t) = .ok (a.union b) := by
  rcases parse_eq_ok_iff.mp first with ⟨listed, granted⟩
  rcases parse_eq_ok_iff.mp second with ⟨listed', granted'⟩
  rw [parse_eq_ok_iff, String.toList_append]
  refine ⟨List.forall_mem_append.mpr ⟨listed, listed'⟩, ?_⟩
  intro right
  rw [contains_union, Bool.or_eq_true, granted, granted', List.mem_append]

end Texts

/-- A text of rights as the canonical reader has it, and the reader of what clients write. -/
structure Agreeing (s : String) : Prop where
  accepted : ∀ rights, parseCommand s = .ok rights ↔ parse (expand s) = .ok rights
  /-- The two refuse a text for the same character, the first that is no letter. -/
  refused : ∀ e, parseCommand s = .error e ↔
    ∃ c, s.toList.find? (· ∉ clientLetters) = some c ∧ e = clientFault s c
  expanded : ∀ e, parse (expand s) = .error e ↔
    ∃ c, s.toList.find? (· ∉ clientLetters) = some c ∧ e = .malformedRights (expand s) c
  malformed : ∀ e, parse s = .error e ↔ ∃ c, s.toList.find? (· ∉ letters) = some c ∧ e = .malformedRights s c
  canonical : ∀ rights, parse s = .ok rights ↔ parseCommand s = .ok rights ∧ 'c' ∉ s.toList ∧ 'd' ∉ s.toList
  /-- Neither order nor repetition matters. -/
  sameLetters : ∀ t : String, (∀ c, c ∈ s.toList ↔ c ∈ t.toList) → ∀ rights,
    (parse s = .ok rights ↔ parse t = .ok rights) ∧ (parseCommand s = .ok rights ↔ parseCommand t = .ok rights)
  joined : ∀ (t : String) (a b : Rights),
    (parse s = .ok a → parse t = .ok b → parse (s ++ t) = .ok (a.union b)) ∧
      (parseCommand s = .ok a → parseCommand t = .ok b → parseCommand (s ++ t) = .ok (a.union b))

theorem readers_agree (s : String) : Agreeing s where
  accepted _ := parseCommand_iff_expand
  refused _ := parseCommand_eq_error_iff
  expanded e := by rw [parse_eq_error_iff, find_expand]
  malformed _ := parse_eq_error_iff
  canonical _ := parse_iff_client
  sameLetters t same rights := by
    have expanded (c : Char) : c ∈ (expand s).toList ↔ c ∈ (expand t).toList := by simp only [mem_expand_iff, same]
    constructor
    · simp only [parse_eq_ok_iff, same]
    · simp only [parseCommand_eq_ok_iff, same, expanded]
  joined t a b := by
    refine ⟨parse_append, ?_⟩
    intro first second
    rw [parseCommand_iff_expand] at first second ⊢
    rw [expand_append]
    exact parse_append first second

example : parseCommand "dec" = parse "etxkx" ∧ parseCommand "c-7" = .error (.malformedRights "c-7" '-') := by
  decide +kernel

end MailboxAccess.Rights
