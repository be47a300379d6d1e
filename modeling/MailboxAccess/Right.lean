namespace MailboxAccess

inductive Right where
  | administer | performExpunge | insert | createMailbox | lookup | post | read | writeSeenFlag
  | deleteMessages | write | deleteMailbox
  deriving DecidableEq, Repr

namespace Right

def all : List Right :=
  [administer, performExpunge, insert, createMailbox, lookup, post, read, writeSeenFlag,
    deleteMessages, write, deleteMailbox]

def index : Right → Nat
  | administer => 0
  | performExpunge => 1
  | insert => 2
  | createMailbox => 3
  | lookup => 4
  | post => 5
  | read => 6
  | writeSeenFlag => 7
  | deleteMessages => 8
  | write => 9
  | deleteMailbox => 10

def letter : Right → Char
  | administer => 'a'
  | performExpunge => 'e'
  | insert => 'i'
  | createMailbox => 'k'
  | lookup => 'l'
  | post => 'p'
  | read => 'r'
  | writeSeenFlag => 's'
  | deleteMessages => 't'
  | write => 'w'
  | deleteMailbox => 'x'

def name : Right → String
  | administer => "Administer"
  | performExpunge => "PerformExpunge"
  | insert => "Insert"
  | createMailbox => "CreateMailbox"
  | lookup => "Lookup"
  | post => "Post"
  | read => "Read"
  | writeSeenFlag => "WriteSeenFlag"
  | deleteMessages => "DeleteMessages"
  | write => "Write"
  | deleteMailbox => "DeleteMailbox"

def ofLetter? (c : Char) : Option Right := all.find? fun right => right.letter == c

def ofName? (s : String) : Option Right := all.find? fun right => right.name == s

theorem mem_all (right : Right) : right ∈ all := by cases right <;> decide

theorem index_lt (right : Right) : right.index < 11 := by cases right <;> decide

theorem ofLetter?_letter (right : Right) : ofLetter? right.letter = some right := by
  cases right <;> decide

theorem letter_of_ofLetter? {c : Char} {right : Right} (h : ofLetter? c = some right) :
    right.letter = c := by
  have found := List.find?_some h
  simpa using found

end Right

end MailboxAccess
