import GuardedHeap.Decimal.Shortest
import GuardedHeap.Json.Basic
import GuardedHeap.Text.Hex

/-! # Writing JSON — one line, no spaces

    Strings escape the quote, the backslash and the control characters,
    the usual ones by letter; everything else is written as it is.  A
    binary64 number has the fewest digits that read back and always shows
    that it is not an integer; an exponent always shows its sign. -/

namespace GuardedHeap.Json

/-! ## Strings -/

/-- A character as it stands inside a written string. -/
def escapeChar (c : Char) : List Char :=
  if c = '"' then ['\\', '"']
  else if c = '\\' then ['\\', '\\']
  else if c = '\n' then ['\\', 'n']
  else if c = '\r' then ['\\', 'r']
  else if c = '\t' then ['\\', 't']
  else if c = '\x08' then ['\\', 'b']
  else if c = '\x0c' then ['\\', 'f']
  else if c.toNat < 0x20 then
    ['\\', 'u', '0', '0', Text.hexDigit (c.toNat / 16), Text.hexDigit (c.toNat % 16)]
  else [c]

/-- A string with its quotes. -/
def stringChars (s : String) : List Char :=
  '"' :: s.toList.flatMap escapeChar ++ ['"']

/-! ## Numbers -/

/-- An integer in decimal digits. -/
def intChars (n : Int) : List Char :=
  if n < 0 then '-' :: Nat.toDigits 10 n.natAbs else Nat.toDigits 10 n.natAbs

/-- The exponent of a number in decimal digits, behind its sign. -/
def exponentChars (n : Int) : List Char :=
  (if n < 0 then '-' else '+') :: Nat.toDigits 10 n.natAbs

/-- How a decimal number is laid out. -/
structure FloatLayout where
  /-- The point stands behind at most this many digits of the number. -/
  wholeDigits : Int
  /-- At most this many zeros stand between the point and the first digit. -/
  leadingZeros : Int

/-- Numbers from 1e-5 to below 1e16 are written without an exponent. -/
def floatLayout : FloatLayout := ⟨16, 4⟩

/-- The digits `ds * 10 ^ k` in the layout. -/
def decimalChars (layout : FloatLayout) (ds : List Char) (k : Int) : List Char :=
  let point := ds.length + k
  if 0 ≤ k ∧ point ≤ layout.wholeDigits then
    ds ++ List.replicate k.toNat '0' ++ ['.', '0']
  else if 0 < point ∧ point ≤ layout.wholeDigits then
    ds.take point.toNat ++ '.' :: ds.drop point.toNat
  else if -layout.leadingZeros ≤ point ∧ point ≤ 0 then
    '0' :: '.' :: List.replicate (-point).toNat '0' ++ ds
  else
    let fraction := if ds.length = 1 then [] else '.' :: ds.drop 1
    ds.take 1 ++ fraction ++ 'e' :: exponentChars (point - 1)

/-- A finite binary64 number. -/
def floatChars (x : Float) : List Char :=
  let (negative, size) := Decimal.ofFloat x
  let body :=
    match size with
    | none => ['0', '.', '0']
    | some b =>
      let d := b.shortest
      decimalChars floatLayout (Nat.toDigits 10 d.digits) d.exponent
  if negative then '-' :: body else body

/-! ## Values -/

mutual

/-- A value on one line. -/
def chars : Json → List Char
  | null => "null".toList
  | bool true => "true".toList
  | bool false => "false".toList
  | int n => intChars n
  | float x => floatChars x
  | str s => stringChars s
  | arr items => '[' :: itemChars items ++ [']']
  | obj fields => '\x7b' :: fieldChars fields ++ ['\x7d']

/-- Items with commas between them. -/
def itemChars : List Json → List Char
  | [] => []
  | [item] => item.chars
  | item :: rest => item.chars ++ ',' :: itemChars rest

/-- Members with commas between them. -/
def fieldChars : List (String × Json) → List Char
  | [] => []
  | [(key, value)] => stringChars key ++ ':' :: value.chars
  | (key, value) :: rest => stringChars key ++ ':' :: value.chars ++ ',' :: fieldChars rest

end

/-- The text of a value. -/
def print (j : Json) : String :=
  String.ofList j.chars

end GuardedHeap.Json
