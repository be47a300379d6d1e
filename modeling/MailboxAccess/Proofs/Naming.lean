import MailboxAccess.Proofs.Codec
import MailboxAccess.Proofs.Store.Rows

namespace MailboxAccess

theorem EntryKey.negate_negate (key : EntryKey) : key.negate.negate = key := by
  rw [negate, negate, Bool.not_not]

/-- How a key comes about: from a name, as a special one, or from the key that grants what it denies. -/
inductive Naming where
  | make (name : String) (kind : Kind) (negative : Bool)
  | user (name : String)
  | group (name : String)
  | owner
  | anyone
  | authenticated
  | negate (naming : Naming)

namespace Naming

def build : Naming → Except FormatError EntryKey
  | make name kind negative => EntryKey.make name kind negative
  | user name => EntryKey.user name
  | group name => EntryKey.group name
  | owner => return EntryKey.owner
  | anyone => return EntryKey.anyone
  | authenticated => return EntryKey.authenticated
  | negate naming => return (← naming.build).negate

def name : Naming → String
  | make name _ _ | user name | group name => name
  | owner => "owner"
  | anyone => "anyone"
  | authenticated => "authenticated"
  | negate naming => naming.name

def kind : Naming → Kind
  | make _ kind _ => kind
  | user _ => .user
  | group _ => .group
  | owner | anyone | authenticated => .special
  | negate naming => naming.kind

def denies : Naming → Bool
  | make _ _ negative => negative
  | user _ | group _ | owner | anyone | authenticated => false
  | negate naming => !naming.denies

theorem make_eq_ok_iff {name : String} {kind : Kind} {negative : Bool} {key : EntryKey} :
    EntryKey.make name kind negative = .ok key ↔ key.name = name ∧ key.kind = kind ∧ key.negative = negative := by
  rw [EntryKey.make]
  constructor
  · intro made
    split at made
    · cases made
      exact ⟨rfl, rfl, rfl⟩
    · cases made
  · intro fields
    rcases fields with ⟨rfl, rfl, rfl⟩
    rw [dif_pos key.admitted]

theorem build_eq_ok_iff {naming : Naming} {key : EntryKey} :
    naming.build = .ok key ↔ key.name = naming.name ∧ key.kind = naming.kind ∧ key.negative = naming.denies := by
  induction naming generalizing key with
  | make name kind negative => exact make_eq_ok_iff
  | user name => exact make_eq_ok_iff
  | group name => exact make_eq_ok_iff
  | owner =>
      change EntryKey.make "owner" .special false = .ok key ↔ _
      exact make_eq_ok_iff
  | anyone =>
      change EntryKey.make "anyone" .special false = .ok key ↔ _
      exact make_eq_ok_iff
  | authenticated =>
      change EntryKey.make "authenticated" .special false = .ok key ↔ _
      exact make_eq_ok_iff
  | negate naming ih =>
      have turned : (negate naming).build = .ok key ↔ naming.build = .ok key.negate := by
        rw [build]
        cases naming.build with
        | error e => exact Iff.intro nofun nofun
        | ok other =>
            constructor
            · intro made
              cases made
              rw [EntryKey.negate_negate]
            · intro made
              cases made
              exact congrArg Except.ok key.negate_negate
      rw [turned, ih, name, kind, denies]
      constructor
      · intro fields
        exact ⟨fields.1, fields.2.1, by rw [← fields.2.2, EntryKey.negate, Bool.not_not]⟩
      · intro fields
        exact ⟨fields.1, fields.2.1, by rw [EntryKey.negate, fields.2.2, Bool.not_not]⟩

def text (naming : Naming) : String :=
  (if naming.denies then "-" else "") ++ (if naming.kind = .group then "$" else "") ++ naming.name

theorem text_of_build {naming : Naming} {key : EntryKey} (built : naming.build = .ok key) :
    key.text = naming.text := by
  rcases build_eq_ok_iff.mp built with ⟨names, kinds, polarities⟩
  apply String.toList_injective
  rw [EntryKey.text, EntryKey.letters, String.toList_ofList, text, names, kinds, polarities]
  simp only [String.toList_append, apply_ite String.toList]
  rfl

end Naming

namespace EntryKey

def unmarked (letters : List Char) : List Char := if letters.head? = some '-' then letters.tail else letters

def Proper (letters : List Char) : Prop :=
  unmarked letters ≠ [] ∧ unmarked letters ≠ ['$'] ∧ (unmarked letters).head? ≠ some '-'
  deriving Decidable

theorem splitPolarity_eq (letters : List Char) : (splitPolarity letters).2 = unmarked letters := by
  cases letters with
  | nil => rfl
  | cons c cs =>
      by_cases minus : c = '-'
      · simp [splitPolarity, unmarked, minus]
      · simp [splitPolarity, unmarked, minus]

theorem admits_splitKind_iff (letters : List Char) :
    (splitKind letters).1.admits (splitKind letters).2 = true ↔
      letters ≠ [] ∧ letters ≠ ['$'] ∧ letters.head? ≠ some '-' := by
  cases letters with
  | nil => simp [splitKind, Kind.admits]
  | cons c cs =>
      by_cases group : c = '$'
      · simp [splitKind, group, Kind.admits]
      · by_cases special : Kind.isSpecialName (c :: cs) = true
        · have heads := special_head special
          simp_all [splitKind, Kind.admits]
        · simp [splitKind, group, special, Kind.admits]

theorem admits_split_iff (s : String) :
    (splitKind (splitPolarity s.toList).2).1.admits (splitKind (splitPolarity s.toList).2).2 = true ↔
      Proper s.toList := by
  rw [Proper, ← splitPolarity_eq, admits_splitKind_iff]

theorem parse_of_not_proper {s : String} (improper : ¬ Proper s.toList) : parse s = .error (.invalidKey s) := by
  rw [← admits_split_iff] at improper
  simp only [parse, make, String.toList_ofList, dif_neg improper]

theorem exists_parse_iff (s : String) : (∃ key, parse s = .ok key) ↔ Proper s.toList := by
  constructor
  · intro read
    rcases read with ⟨key, read⟩
    by_contra improper
    rw [parse_of_not_proper improper] at read
    cases read
  · intro proper
    have admitted := (admits_split_iff s).mpr proper
    simp only [parse, make, String.toList_ofList, dif_pos admitted]
    exact ⟨_, rfl⟩

/-- The text of a key stands for it alone: it is read as the key, no other key has it, and neither the documents
nor the rows that are found by it are those of another key. -/
structure Spelled (key : EntryKey) : Prop where
  read : parse key.text = .ok key
  alone : ∀ other : EntryKey, other.text = key.text ↔ other = key
  document : ∀ acl : Acl, (Document.ofAcl acl).get? key.text = (acl.get? key).map Rights.text
  row : ∀ (rows : InsertionMap (String × Bytes) String) (mailbox place : MailboxId) (other : EntryKey)
    (rights : String),
    (rows.insert (other.text, place.bytes) rights).get? (key.text, mailbox.bytes) =
      if place = mailbox ∧ other = key then some rights else rows.get? (key.text, mailbox.bytes)

theorem get?_ofAcl (acl : Acl) (key : EntryKey) :
    (Document.ofAcl acl).get? key.text = (acl.get? key).map Rights.text := by
  apply Option.ext
  intro text
  rw [SortedMap.get?_eq_some_iff, Document.mem_ofAcl_iff, Option.map_eq_some_iff, List.mem_map]
  constructor
  · intro worded
    rcases worded with ⟨⟨other, rights⟩, held, same⟩
    rcases Prod.mk.inj same with ⟨texts, rfl⟩
    cases text_injective texts
    exact ⟨rights, SortedMap.get?_eq_some_iff.mpr held, rfl⟩
  · intro found
    rcases found with ⟨rights, held, rfl⟩
    exact ⟨(key, rights), SortedMap.get?_eq_some_iff.mp held, rfl⟩

theorem spelled (key : EntryKey) : Spelled key where
  read := key.parse_text
  alone := by
    intro other
    constructor
    · exact text_injective
    · intro same
      rw [same]
  document := fun acl => get?_ofAcl acl key
  row := by
    intro rows mailbox place other rights
    rw [InsertionMap.get?_insert]
    simp only [Database.row_iff]

/-- Every key that comes about is spelled with its marks and its name, and its text stands for it alone. A text
that is read is the text of the key, and what is left without one `-` tells whether it is read. -/
theorem keys_spelled_once :
    (∀ (naming : Naming) (key : EntryKey), naming.build = .ok key → key.text = naming.text ∧ Spelled key) ∧
      (∀ (s : String) (key : EntryKey), parse s = .ok key → key.text = s) ∧
      (∀ s : String, (∃ key, parse s = .ok key) ↔ Proper s.toList) ∧
      ∀ s : String, ¬ Proper s.toList → parse s = .error (.invalidKey s) := by
  refine ⟨?_, ?_, exists_parse_iff, ?_⟩
  · intro naming key built
    exact ⟨Naming.text_of_build built, spelled key⟩
  · intro s key
    exact text_of_parse
  · intro s
    exact parse_of_not_proper

example : Proper "$owner".toList ∧ Proper "-$-staff".toList ∧ ¬ Proper "--bob".toList ∧ ¬ Proper "-$".toList := by
  decide

end EntryKey

end MailboxAccess
