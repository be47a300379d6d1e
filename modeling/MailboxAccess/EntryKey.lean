import MailboxAccess.FormatError

/-!
Whom an entry is about. A key has a text: `bob` names a user, `$staff` a group, `owner`, `anyone` and
`authenticated` are special, and `-` in front makes the entry deny instead of grant.
-/
namespace MailboxAccess

inductive Kind where
  | user | group | special
  deriving DecidableEq, Repr

namespace Kind

def rank : Kind → Nat
  | user => 0
  | group => 1
  | special => 2

def isSpecialName (name : List Char) : Bool :=
  name ∈ ["owner".toList, "anyone".toList, "authenticated".toList]

/-- Which names a key of each kind may have: every name keeps its kind when it is written out. -/
def admits : Kind → List Char → Bool
  | special, name => isSpecialName name
  | group, name => !name.isEmpty
  | user, name =>
    !name.isEmpty && name.head? != some '-' && name.head? != some '$' && !isSpecialName name

end Kind

structure EntryKey where
  name : String
  kind : Kind
  negative : Bool
  admitted : kind.admits name.toList = true
  deriving DecidableEq, Repr

namespace EntryKey

def make (name : String) (kind : Kind) (negative : Bool) : Except FormatError EntryKey :=
  if admitted : kind.admits name.toList = true then .ok ⟨name, kind, negative, admitted⟩
  else .error (.invalidKey name)

def user (name : String) : Except FormatError EntryKey := make name .user false

def group (name : String) : Except FormatError EntryKey := make name .group false

def owner : EntryKey := ⟨"owner", .special, false, by decide⟩

def anyone : EntryKey := ⟨"anyone", .special, false, by decide⟩

def authenticated : EntryKey := ⟨"authenticated", .special, false, by decide⟩

/-- The same principal, granted instead of denied or the other way round. -/
def negate (key : EntryKey) : EntryKey := { key with negative := !key.negative }

def order (a b : EntryKey) : Ordering :=
  (compare a.name b.name).then
    ((compare a.kind.rank b.kind.rank).then (compare a.negative b.negative))

instance : Ord EntryKey := ⟨order⟩

def letters (key : EntryKey) : List Char :=
  (if key.negative then ['-'] else []) ++ (if key.kind = .group then ['$'] else []) ++ key.name.toList

def text (key : EntryKey) : String := String.ofList key.letters

/-- The polarity and what follows its mark. -/
def splitPolarity : List Char → Bool × List Char
  | [] => (false, [])
  | c :: cs => if c = '-' then (true, cs) else (false, c :: cs)

def splitKind : List Char → Kind × List Char
  | [] => (.user, [])
  | c :: cs =>
    if c = '$' then (.group, cs)
    else if Kind.isSpecialName (c :: cs) then (.special, c :: cs)
    else (.user, c :: cs)

/-- A refused key is reported with its whole text. -/
def parse (s : String) : Except FormatError EntryKey :=
  let (negative, rest) := splitPolarity s.toList
  let (kind, name) := splitKind rest
  match make (String.ofList name) kind negative with
  | .ok key => .ok key
  | .error _ => .error (.invalidKey s)

theorem rank_injective {a b : Kind} (h : a.rank = b.rank) : a = b := by
  cases a <;> cases b <;> first | rfl | contradiction

theorem eq_of_fields {a b : EntryKey} (name : a.name = b.name) (kind : a.kind = b.kind)
    (negative : a.negative = b.negative) : a = b := by
  cases a
  cases b
  simp_all

theorem order_eq_lex :
    order = compareLex (compareOn EntryKey.name)
      (compareLex (compareOn fun key => key.kind.rank) (compareOn EntryKey.negative)) := by
  funext a b
  rfl

instance : Std.TransOrd EntryKey := by
  have lexicographic : Std.TransCmp order := by
    rw [order_eq_lex]
    infer_instance
  exact lexicographic

instance : Std.LawfulEqOrd EntryKey where
  eq_of_compare {a b} same := by
    have parts : order a b = .eq := same
    simp only [order, Ordering.then_eq_eq, Std.LawfulEqCmp.compare_eq_iff_eq] at parts
    exact eq_of_fields parts.1 (rank_injective parts.2.1) parts.2.2

end EntryKey

end MailboxAccess
