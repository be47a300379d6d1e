import MailboxAccess.Json.Text

namespace MailboxAccess.Json

def isBlank (b : UInt8) : Bool := b = 0x20 || b = 0x09 || b = 0x0a || b = 0x0d

def skipBlanks (s : Bytes) : Bytes := s.dropWhile isBlank

def expect (b : UInt8) (s : Bytes) : Option Bytes :=
  match skipBlanks s with
  | [] => none
  | c :: rest => if c = b then some rest else none

def comma : UInt8 := 0x2c
def colon : UInt8 := 0x3a
def openBracket : UInt8 := 0x5b
def closeBracket : UInt8 := 0x5d
def openBrace : UInt8 := 0x7b
def closeBrace : UInt8 := 0x7d

def isDigit (b : UInt8) : Bool := 0x30 ≤ b && b ≤ 0x39

def digits : Reader Bytes := fun s =>
  match s.takeWhile isDigit with
  | [] => none
  | ds => some (ds, s.dropWhile isDigit)

def wholeDigits : Reader Bytes
  | [] => none
  | b :: s => if b = 0x30 then some ([b], s) else digits (b :: s)

def decimal (ds : Bytes) : Nat := ds.foldl (fun n d => 10 * n + (d.toNat - 48)) 0

/-- A number that has only digits, after any blanks. What would make it a fraction is left unread, and no
document goes on with that. -/
def natural : Reader Nat := fun s => do
  let (ds, rest) ← wholeDigits (skipBlanks s)
  return (decimal ds, rest)

def skipFraction : Bytes → Option Bytes
  | [] => some []
  | b :: s => if b = 0x2e then (digits s).map Prod.snd else some (b :: s)

def skipExponent : Bytes → Option Bytes
  | [] => some []
  | b :: s =>
    if b = 0x65 ∨ b = 0x45 then
      match s with
      | [] => none
      | c :: t => (digits (if c = 0x2b ∨ c = 0x2d then t else c :: t)).map Prod.snd
    else some (b :: s)

def skipNumber (s : Bytes) : Option Bytes := do
  let unsigned := match s with
    | [] => []
    | b :: t => if b = 0x2d then t else b :: t
  let (_, rest) ← wholeDigits unsigned
  skipExponent (← skipFraction rest)

def skipWord (s : Bytes) : Option Bytes :=
  match ["null", "true", "false"].find? fun word => (Bytes.ofText word).isPrefixOf s with
  | some word => some (s.drop word.length)
  | none => none

def skipScalar (s : Bytes) : Option Bytes :=
  match s with
  | [] => none
  | b :: _ =>
    if b = quote then skipText s
    else if b = 0x2d ∨ isDigit b then skipNumber s
    else skipWord s

inductive Bracket where
  | array | object
  deriving DecidableEq, Repr

def Bracket.closing : Bracket → UInt8
  | array => closeBracket
  | object => closeBrace

inductive Expecting where
  | value | member | separator
  deriving DecidableEq, Repr

def Bracket.element : Bracket → Expecting
  | array => .value
  | object => .member

def afterOpening (bracket : Bracket) (brackets : List Bracket) (s : Bytes) :
    Expecting × List Bracket × Bytes :=
  match expect bracket.closing s with
  | some rest => (.separator, brackets, rest)
  | none => (bracket.element, bracket :: brackets, s)

/-- Skips with the given brackets open, innermost first. Each round but the last takes a byte, so as many
rounds as there are bytes, and one more, are enough. -/
def skipOpen : (rounds : Nat) → Expecting → List Bracket → Bytes → Option Bytes
  | 0, _, _, _ => none
  | n + 1, .value, brackets, s =>
    match skipBlanks s with
    | [] => none
    | b :: rest =>
      if b = openBracket ∨ b = openBrace then
        let bracket := if b = openBracket then .array else .object
        let (next, brackets, rest) := afterOpening bracket brackets rest
        skipOpen n next brackets rest
      else
        match skipScalar (b :: rest) with
        | some rest => skipOpen n .separator brackets rest
        | none => none
  | n + 1, .member, brackets, s =>
    match skipText (skipBlanks s) with
    | some rest =>
      match expect colon rest with
      | some rest => skipOpen n .value brackets rest
      | none => none
    | none => none
  | _ + 1, .separator, [], s => some s
  | n + 1, .separator, bracket :: brackets, s =>
    match expect comma s with
    | some rest => skipOpen n bracket.element (bracket :: brackets) rest
    | none =>
      match expect bracket.closing s with
      | some rest => skipOpen n .separator brackets rest
      | none => none

def skipValue (s : Bytes) : Option Bytes := skipOpen (s.length + 1) .value [] s

def members {σ : Type} (step : σ → String → Reader σ) : (rounds : Nat) → σ → Reader σ
  | 0, _, _ => none
  | n + 1, state, s => do
    let (name, afterName) ← text (skipBlanks s)
    let (next, rest) ← step state name (← expect colon afterName)
    match expect comma rest with
    | some more => members step n next more
    | none => return (next, ← expect closeBrace rest)

def object {σ : Type} (step : σ → String → Reader σ) (start : σ) : Reader σ := fun s =>
  match expect closeBrace s with
  | some rest => some (start, rest)
  | none => members step s.length start s

def elements {α : Type} (item : Reader α) : (rounds : Nat) → Reader (List α)
  | 0, _ => none
  | n + 1, s => do
    let (first, rest) ← item s
    match expect comma rest with
    | some more => do
      let (others, last) ← elements item n more
      return (first :: others, last)
    | none => return ([first], ← expect closeBracket rest)

def array {α : Type} (item : Reader α) : Reader (List α) := fun s =>
  match expect closeBracket s with
  | some rest => some ([], rest)
  | none => elements item s.length s

def whole {α : Type} (value : Reader α) (s : Bytes) : Option α := do
  let (a, rest) ← value s
  if (skipBlanks rest).isEmpty then some a else none

def stringValue : Reader String := fun s => text (skipBlanks s)

end MailboxAccess.Json
