import MailboxAccess.Acl.Command
import MailboxAccess.Proofs.Letters

namespace MailboxAccess

def Mode.sign : Mode → String
  | add => "+"
  | remove => "-"
  | replace => ""

namespace Command

/-- A modification without a sign of its own replaces; of two signs only the first is one. -/
structure Modifies (modification : String) (mode : Mode) (letters : String) : Prop where
  signed : modification = mode.sign ++ letters
  unsigned : mode = .replace → letters.toList.head? ≠ some '+' ∧ letters.toList.head? ≠ some '-'

theorem modifies_splitMode (modification : String) :
    Modifies modification (splitMode modification.toList).1 (String.ofList (splitMode modification.toList).2) := by
  have signed (cs : List Char) : cs = (splitMode cs).1.sign.toList ++ (splitMode cs).2 := by
    cases cs with
    | nil => rfl
    | cons c cs =>
        simp only [splitMode]
        split
        · next plus => simp [plus, Mode.sign]
        · split
          · next minus => simp [minus, Mode.sign]
          · rfl
  have unsigned (cs : List Char) (replaces : (splitMode cs).1 = .replace) :
      (splitMode cs).2.head? ≠ some '+' ∧ (splitMode cs).2.head? ≠ some '-' := by
    cases cs with
    | nil => exact ⟨nofun, nofun⟩
    | cons c cs =>
        simp only [splitMode] at replaces ⊢
        split at replaces
        · cases replaces
        · next notPlus =>
            split at replaces
            · cases replaces
            · next notMinus => simp [notPlus, notMinus]
  constructor
  · apply String.toList_injective
    rw [String.toList_append, String.toList_ofList]
    exact signed modification.toList
  · rw [String.toList_ofList]
    exact unsigned modification.toList

variable {identifier modification letters : String} {mode : Mode}

theorem splitMode_of_modifies (modifies : Modifies modification mode letters) :
    splitMode modification.toList = (mode, letters.toList) := by
  rw [modifies.signed, String.toList_append]
  cases mode with
  | add => rfl
  | remove => rfl
  | replace =>
      rcases modifies.unsigned rfl with ⟨notPlus, notMinus⟩
      change splitMode letters.toList = _
      cases listed : letters.toList with
      | nil => rfl
      | cons c cs =>
          rw [listed] at notPlus notMinus
          have notPlus : c ≠ '+' := fun same => notPlus (congrArg some same)
          have notMinus : c ≠ '-' := fun same => notMinus (congrArg some same)
          rw [splitMode, if_neg notPlus, if_neg notMinus]

theorem modifies_unique {other : Mode} {rest : String} (first : Modifies modification mode letters)
    (second : Modifies modification other rest) : other = mode ∧ rest = letters := by
  have same := (splitMode_of_modifies second).symm.trans (splitMode_of_modifies first)
  rcases Prod.mk.inj same with ⟨modes, texts⟩
  exact ⟨modes, String.toList_injective texts⟩

theorem parse_eq (modifies : Modifies modification mode letters) :
    parse identifier modification =
      (EntryKey.parse identifier).bind fun key =>
        (Rights.parseCommand letters).map fun rights => ⟨key, mode, rights⟩ := by
  simp only [parse, splitMode_of_modifies modifies, String.ofList_toList]
  cases EntryKey.parse identifier with
  | error e => rfl
  | ok key => cases Rights.parseCommand letters <;> rfl

theorem parse_eq_ok_iff (modifies : Modifies modification mode letters) {command : Command} :
    parse identifier modification = .ok command ↔
      EntryKey.parse identifier = .ok command.key ∧ command.mode = mode ∧
        Rights.parseCommand letters = .ok command.rights := by
  rw [parse_eq modifies]
  rcases command with ⟨key, asked, rights⟩
  cases EntryKey.parse identifier with
  | error e => exact iff_of_false nofun fun parts => nomatch parts.1
  | ok found =>
      cases Rights.parseCommand letters with
      | error e => exact iff_of_false nofun fun parts => nomatch parts.2.2
      | ok granted =>
          constructor
          · intro read
            cases read
            exact ⟨rfl, rfl, rfl⟩
          · intro parts
            rcases parts with ⟨named, same, read⟩
            cases named
            cases same
            cases read
            rfl

structure Interpreted (identifier modification : String) (mode : Mode) (letters : String) : Prop where
  modifies : Modifies modification mode letters
  only : ∀ other rest, Modifies modification other rest → other = mode ∧ rest = letters
  accepted : (∃ command, parse identifier modification = .ok command) ↔
    (∃ key, EntryKey.parse identifier = .ok key) ∧ ∀ c ∈ letters.toList, c ∈ Rights.clientLetters
  /-- The rights are those of the letters, with the older ones spelled out. -/
  read : ∀ command, parse identifier modification = .ok command →
    EntryKey.parse identifier = .ok command.key ∧ command.mode = mode ∧
      ∀ right, command.rights.contains right = true ↔ right.letter ∈ (Rights.expand letters).toList
  /-- A fault in the identifier is reported whatever the modification is. -/
  unnamed : ∀ e, EntryKey.parse identifier = .error e → parse identifier modification = .error e
  /-- Otherwise the first character that is no letter is, with the letters but without their sign. -/
  refused : ∀ key, EntryKey.parse identifier = .ok key → ∀ e, parse identifier modification = .error e ↔
    ∃ c, letters.toList.find? (· ∉ Rights.clientLetters) = some c ∧ e = Rights.clientFault letters c

theorem interpreted (modifies : Modifies modification mode letters) :
    Interpreted identifier modification mode letters where
  modifies := modifies
  only _ _ := modifies_unique modifies
  accepted := by
    rw [← Rights.exists_parseCommand_iff]
    constructor
    · intro read
      rcases read with ⟨command, read⟩
      rcases (parse_eq_ok_iff modifies).mp read with ⟨named, -, granted⟩
      exact ⟨⟨_, named⟩, ⟨_, granted⟩⟩
    · intro parts
      rcases parts with ⟨⟨key, named⟩, ⟨rights, granted⟩⟩
      exact ⟨⟨key, mode, rights⟩, (parse_eq_ok_iff modifies).mpr ⟨named, rfl, granted⟩⟩
  read command read := by
    rcases (parse_eq_ok_iff modifies).mp read with ⟨named, same, granted⟩
    exact ⟨named, same, (Rights.parseCommand_eq_ok_iff.mp granted).2⟩
  unnamed e misnamed := by
    rw [parse_eq modifies, misnamed]
    rfl
  refused key named e := by
    rw [← Rights.parseCommand_eq_error_iff, parse_eq modifies, named]
    cases Rights.parseCommand letters <;> simp [Except.bind, Except.map]

theorem modifies_text (mode : Mode) (rights : Rights) : Modifies (mode.sign ++ rights.text) mode rights.text where
  signed := rfl
  unsigned _ := by
    have listed := (Rights.parse_eq_ok_iff.mp rights.parse_text).1
    constructor
    · intro plus
      exact absurd (listed _ (List.mem_of_head? plus)) (by decide)
    · intro minus
      exact absurd (listed _ (List.mem_of_head? minus)) (by decide)

theorem parse_text (command : Command) :
    parse command.key.text (command.mode.sign ++ command.rights.text) = .ok command := by
  have granted := (Rights.parse_iff_client.mp command.rights.parse_text).1
  exact (parse_eq_ok_iff (modifies_text command.mode command.rights)).mpr ⟨command.key.parse_text, rfl, granted⟩

/-- A command is what its identifier and its modification say, or the first fault in them is reported; and each command
can be written so that it is read back. -/
theorem commands_exact :
    (∀ identifier modification, ∃ mode letters, Interpreted identifier modification mode letters) ∧
      ∀ command : Command, parse command.key.text (command.mode.sign ++ command.rights.text) = .ok command := by
  refine ⟨?_, parse_text⟩
  intro identifier modification
  exact ⟨_, _, interpreted (modifies_splitMode modification)⟩

example : parse "-bob" "+-l" = .error (.malformedRights "-l" '-') ∧
    parse "$-" "-" = (EntryKey.group "-").map (⟨·, .remove, .empty⟩) := by
  decide +kernel

end Command

end MailboxAccess
