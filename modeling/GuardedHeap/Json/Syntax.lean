import GuardedHeap.Json.Basic
import GuardedHeap.Text.Hex

/-! # JSON syntax — what a text spells, before it means anything

    A text is first read by the grammar alone into a `Spelling`: numbers
    keep their digits, strings their code units, objects all their members
    in order.  Whether a number fits, a string is Unicode, a key occurs
    twice or the nesting is too deep is for the reader of the value to
    say.  The reader passes on the characters that it leaves. -/

namespace GuardedHeap.Json

/-- The spelling of a number. -/
structure Numeral where
  negative : Bool
  /-- The digits before the point. -/
  whole : List Nat
  /-- The digits behind the point, none if there is no point. -/
  fraction : List Nat
  /-- A point or an exponent is written. -/
  isFloat : Bool
  exponentNegative : Bool
  /-- The digits of the exponent, none if there is no exponent. -/
  exponent : List Nat
  deriving DecidableEq, Repr

/-- What a text spells. -/
inductive Spelling where
  | null
  | bool (value : Bool)
  | number (numeral : Numeral)
  /-- Code points, and halves of surrogate pairs that were escaped. -/
  | str (units : List Nat)
  | arr (items : List Spelling)
  | obj (fields : List (List Nat × Spelling))
  deriving Inhabited

namespace Spelling

/-- Space, tab, line feed and carriage return separate tokens. -/
def isSpace (c : Char) : Bool :=
  c == ' ' || c == '\n' || c == '\t' || c == '\r'

/-- The text without its leading space. -/
def skipSpace : List Char → List Char
  | [] => []
  | c :: rest => if isSpace c then skipSpace rest else c :: rest

/-- The text behind `word`, if it begins with it. -/
def skipWord : (word : List Char) → List Char → Option (List Char)
  | [], text => some text
  | _ :: _, [] => none
  | w :: ws, c :: rest => if w = c then skipWord ws rest else none

/-- The leading decimal digits, and the text behind them. -/
def digits : List Char → List Nat × List Char
  | [] => ([], [])
  | c :: rest =>
    if c.isDigit then
      let (ds, after) := digits rest
      ((c.toNat - '0'.toNat) :: ds, after)
    else ([], c :: rest)

/-- At least one digit, and the text behind them. -/
def someDigits (text : List Char) : Option (List Nat × List Char) :=
  match digits text with
  | ([], _) => none
  | (ds, rest) => some (ds, rest)

/-- The digits before the point: no zero comes first but as the only one. -/
def wholeDigits : List Char → Option (List Nat × List Char)
  | '0' :: rest => some ([0], rest)
  | text => someDigits text

/-- The digits behind a point, if a point comes next. -/
def fractionDigits : List Char → Option (List Nat × List Char)
  | '.' :: rest => someDigits rest
  | text => some ([], text)

/-- The exponent, if one comes next: whether it is negative, and its digits. -/
def exponentDigits : List Char → Option (Bool × List Nat × List Char)
  | c :: rest =>
    if c = 'e' ∨ c = 'E' then
      match rest with
      | '+' :: after => (someDigits after).map fun (ds, r) => (false, ds, r)
      | '-' :: after => (someDigits after).map fun (ds, r) => (true, ds, r)
      | after => (someDigits after).map fun (ds, r) => (false, ds, r)
    else some (false, [], c :: rest)
  | [] => some (false, [], [])

/-- A number behind its sign. -/
def numeral (negative : Bool) (text : List Char) : Option (Numeral × List Char) := do
  let (whole, text) ← wholeDigits text
  let (fraction, text) ← fractionDigits text
  let (exponentNegative, exponent, text) ← exponentDigits text
  let isFloat := !fraction.isEmpty || !exponent.isEmpty
  return ({ negative, whole, fraction, isFloat, exponentNegative, exponent }, text)

/-- The code unit that an escape letter stands for. -/
def escapeUnit? (c : Char) : Option Nat :=
  if c = '"' ∨ c = '\\' ∨ c = '/' then some c.toNat
  else if c = 'b' then some 0x08
  else if c = 'f' then some 0x0c
  else if c = 'n' then some 0x0a
  else if c = 'r' then some 0x0d
  else if c = 't' then some 0x09
  else none

/-- The code units up to the closing quote, and the text behind it. -/
def stringUnits : List Char → Option (List Nat × List Char)
  | [] => none
  | '"' :: rest => some ([], rest)
  | '\\' :: 'u' :: a :: b :: c :: d :: rest =>
    match Text.hexValue? a, Text.hexValue? b, Text.hexValue? c, Text.hexValue? d,
      stringUnits rest with
    | some a, some b, some c, some d, some (units, after) =>
      some ((4096 * a + 256 * b + 16 * c + d) :: units, after)
    | _, _, _, _, _ => none
  | '\\' :: c :: rest =>
    match escapeUnit? c, stringUnits rest with
    | some u, some (units, after) => some (u :: units, after)
    | _, _ => none
  | c :: rest =>
    if c.toNat < 0x20 ∨ c = '\\' then none
    else (stringUnits rest).map fun (units, after) => (c.toNat :: units, after)

mutual

/-- A value with the space before it.  The fuel bounds the number of steps. -/
def value : (fuel : Nat) → List Char → Option (Spelling × List Char)
  | 0, _ => none
  | fuel + 1, text =>
    match skipSpace text with
    | [] => none
    | 'n' :: rest => (skipWord "ull".toList rest).map (null, ·)
    | 't' :: rest => (skipWord "rue".toList rest).map (bool true, ·)
    | 'f' :: rest => (skipWord "alse".toList rest).map (bool false, ·)
    | '-' :: rest => (numeral true rest).map fun (n, r) => (number n, r)
    | '"' :: rest => (stringUnits rest).map fun (units, r) => (str units, r)
    | '[' :: rest =>
      match skipSpace rest with
      | ']' :: after => some (arr [], after)
      | _ => (items fuel rest).map fun (xs, r) => (arr xs, r)
    | '\x7b' :: rest =>
      match skipSpace rest with
      | '\x7d' :: after => some (obj [], after)
      | _ => (fields fuel rest).map fun (fs, r) => (obj fs, r)
    | text => (numeral false text).map fun (n, r) => (number n, r)

/-- At least one item, up to the closing bracket. -/
def items : (fuel : Nat) → List Char → Option (List Spelling × List Char)
  | 0, _ => none
  | fuel + 1, text =>
    match value fuel text with
    | none => none
    | some (x, rest) =>
      match skipSpace rest with
      | ',' :: rest => (items fuel rest).map fun (xs, r) => (x :: xs, r)
      | ']' :: rest => some ([x], rest)
      | _ => none

/-- At least one member, up to the closing brace. -/
def fields : (fuel : Nat) → List Char → Option (List (List Nat × Spelling) × List Char)
  | 0, _ => none
  | fuel + 1, text =>
    match skipSpace text with
    | '"' :: rest =>
      match stringUnits rest with
      | none => none
      | some (key, rest) =>
        match skipSpace rest with
        | ':' :: rest =>
          match value fuel rest with
          | none => none
          | some (x, rest) =>
            match skipSpace rest with
            | ',' :: rest => (fields fuel rest).map fun (fs, r) => ((key, x) :: fs, r)
            | '\x7d' :: rest => some ([(key, x)], rest)
            | _ => none
        | _ => none
    | _ => none

end

/-- What the whole text spells, with space around it.  Every step but one or two consumes a
    character, so twice the length is fuel enough. -/
def ofText? (text : List Char) : Option Spelling :=
  match value (2 * text.length + 2) text with
  | some (x, rest) => if (skipSpace rest).isEmpty then some x else none
  | none => none

end Spelling

end GuardedHeap.Json
