import MailboxAccess.Cbor.Header

namespace MailboxAccess.Cbor

def untaggedWithin : (rounds : Nat) → Reader Header
  | 0, _ => none
  | n + 1, s =>
    match header s with
    | some (.tag _, rest) => untaggedWithin n rest
    | other => other

def untagged : Reader Header := fun s => untaggedWithin s.length s

def definiteText (length : Nat) : Reader String := fun s => do
  let (bytes, rest) ← Bytes.take? length s
  return (← Bytes.toText? bytes, rest)

/-- The chunks of an indefinite string up to the break that ends it. A chunk may be such a string itself:
`inner` counts those that are still open. -/
def chunks (chunk : Header → Option (Option Nat)) (check : Bytes → Bool) :
    (rounds : Nat) → (inner : Nat) → Reader Bytes
  | 0, _, _ => none
  | n + 1, inner, s =>
    match header s with
    | none => none
    | some (.stop, rest) =>
      match inner with
      | 0 => some ([], rest)
      | inner + 1 => chunks chunk check n inner rest
    | some (head, rest) =>
      match chunk head with
      | none => none
      | some none => chunks chunk check n (inner + 1) rest
      | some (some length) =>
        match Bytes.take? length rest with
        | none => none
        | some (taken, rest) =>
          if check taken then
            (chunks chunk check n inner rest).map fun (more, last) => (taken ++ more, last)
          else none

def textLength : Header → Option (Option Nat)
  | .text length => some length
  | _ => none

def bytesLength : Header → Option (Option Nat)
  | .bytes length => some length
  | _ => none

def textOf (length : Option Nat) : Reader String := fun s =>
  match length with
  | some length => definiteText length s
  | none => do
    let (bytes, rest) ← chunks textLength (fun chunk => (Bytes.toText? chunk).isSome) s.length 0 s
    return (← Bytes.toText? bytes, rest)

def text : Reader String := fun s => do
  match ← untagged s with
  | (.text length, rest) => textOf length rest
  | _ => none

def skipBytesOf (length : Option Nat) (s : Bytes) : Option Bytes :=
  match length with
  | some length => (Bytes.take? length s).map Prod.snd
  | none => (chunks bytesLength (fun _ => true) s.length 0 s).map Prod.snd

def times {σ : Type} (step : σ → Reader σ) : Nat → σ → Reader σ
  | 0, state, s => some (state, s)
  | n + 1, state, s =>
    match step state s with
    | some (next, rest) => times step n next rest
    | none => none

def untilStop {σ : Type} (step : σ → Reader σ) : (rounds : Nat) → σ → Reader σ
  | 0, _, _ => none
  | n + 1, state, s =>
    match header s with
    | some (.stop, rest) => some (state, rest)
    | _ =>
      match step state s with
      | some (next, rest) => untilStop step n next rest
      | none => none

def repeatedly {σ : Type} (step : σ → Reader σ) (length : Option Nat) (start : σ) : Reader σ := fun s =>
  match length with
  | some n => times step n start s
  | none => untilStop step s.length start s

/-- Tag 2 counts up from zero and tag 3 down from minus one, which must fit 128 bits with a sign. -/
def fitsBignum (tag : Nat) (bytes : Bytes) : Bool := tag = 2 || number bytes < 0x80000000000000000000000000000000

/-- A tag on a short byte string makes it a whole number. `none` is any other tagged item, and
`some none` a number that is too large or cut short. -/
def skipBignum (tag : Nat) (s : Bytes) : Option (Option Bytes) :=
  match header s with
  | some (.bytes (some length), rest) =>
    if (tag = 2 ∨ tag = 3) ∧ length ≤ 16 then
      match Bytes.take? length rest with
      | some (bytes, rest) => some (if fitsBignum tag bytes then some rest else none)
      | none => some none
    else none
  | _ => none

def skipLeaf (head : Header) (s : Bytes) : Option Bytes :=
  match head with
  | .positive _ | .negative _ | .float => some s
  | .simple n => if 20 ≤ n ∧ n ≤ 23 then some s else none
  | .bytes length => skipBytesOf length s
  | .text length => (textOf length s).map Prod.snd
  | _ => none

/-- Skips an item in which at most `levels` arrays, maps and tags stand inside one another. -/
def skipItem : (levels : Nat) → Bytes → Option Bytes
  | 0, s => do
    match ← header s with
    | (.tag n, rest) => (← skipBignum n rest)
    | (head, rest) => skipLeaf head rest
  | levels + 1, s => do
    let inner : Unit → Reader Unit := fun _ s => (skipItem levels s).map fun rest => ((), rest)
    let pair : Unit → Reader Unit := fun _ s => do
      let (_, value) ← inner () s
      inner () value
    match ← header s with
    | (.array length, rest) => (repeatedly inner length () rest).map Prod.snd
    | (.map length, rest) => (repeatedly pair length () rest).map Prod.snd
    | (.tag n, rest) => (skipBignum n rest).getD (skipItem levels rest)
    | (head, rest) => skipLeaf head rest

end MailboxAccess.Cbor
