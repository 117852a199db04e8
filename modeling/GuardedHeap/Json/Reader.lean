import GuardedHeap.Json.Syntax
import GuardedHeap.Word

/-! # Reading JSON — from a spelling to a value

    A number without point and exponent is an integer if a 64-bit one has
    its value, signed for a negative one; every other number, and `-0`, is
    binary64.  A string has to be Unicode: surrogates come in pairs.  Of
    members with one key the last one counts.  Arrays and objects may nest
    up to a limit. -/

namespace GuardedHeap.Json

/-! ## Numbers -/

/-- The decimal number `digits * 10 ^ shift` that the leading digits of a numeral give: digits
    that no longer fit the word are dropped. -/
structure Significand where
  digits : Nat
  shift : Int
  deriving DecidableEq, Repr

namespace Significand

/-- Append digits before the point; from the first one that does not fit, each only shifts. -/
def appendWhole (s : Significand) : List Nat → Significand
  | [] => s
  | d :: rest =>
    if 10 * s.digits + d < Word.limit then
      appendWhole { s with digits := 10 * s.digits + d } rest
    else { s with shift := s.shift + (rest.length + 1 : Nat) }

/-- Append digits behind the point, up to the first one that does not fit. -/
def appendFraction (s : Significand) : List Nat → Significand
  | [] => s
  | d :: rest =>
    if 10 * s.digits + d < Word.limit then
      appendFraction ⟨10 * s.digits + d, s.shift - 1⟩ rest
    else s

end Significand

/-- The largest power of ten that is a finite binary64 number. -/
def maxPower : Nat := 308

/-- The binary64 number nearest to `10 ^ n`. -/
def powerOfTen (n : Nat) : Float :=
  Float.ofScientific 1 false n

/-- `x * 10 ^ k` in binary64 arithmetic, one power of the table at a time, unless it is
    infinite. -/
def scale (x : Float) (k : Int) : Option Float :=
  if k.natAbs ≤ maxPower then
    if 0 ≤ k then
      let y := x * powerOfTen k.natAbs
      if y.isInf then none else some y
    else some (x / powerOfTen k.natAbs)
  else if x == 0.0 then some x
  else if 0 ≤ k then none
  else scale (x / powerOfTen maxPower) (k + maxPower)
termination_by (-k).toNat
decreasing_by simp only [maxPower] at *; omega

/-- The value of decimal digits. -/
def natOfDigits (ds : List Nat) : Nat :=
  ds.foldl (fun n d => 10 * n + d) 0

namespace Numeral

/-- The binary64 value of a numeral. -/
def toFloat? (n : Numeral) : Option Float :=
  let s := ((⟨0, 0⟩ : Significand).appendWhole n.whole).appendFraction n.fraction
  let exponent : Int := natOfDigits n.exponent
  let k := s.shift + (if n.exponentNegative then -exponent else exponent)
  (scale s.digits.toUInt64.toFloat k).map fun x => if n.negative then -x else x

/-- The value of a numeral. -/
def toJson? (n : Numeral) : Option Json :=
  let whole := natOfDigits n.whole
  if n.isFloat then n.toFloat?.map float
  else if n.negative then
    if 0 < whole ∧ whole ≤ Word.signLimit then some (int (-whole)) else n.toFloat?.map float
  else if whole < Word.limit then some (int whole)
  else n.toFloat?.map float

end Numeral

/-! ## Strings -/

/-- The characters of code units in which surrogates come in pairs. -/
def charsOfUnits? : List Nat → Option (List Char)
  | [] => some []
  | [u] => if 0xd800 ≤ u ∧ u ≤ 0xdfff then none else some [Char.ofNat u]
  | u :: v :: rest =>
    if 0xd800 ≤ u ∧ u ≤ 0xdbff then
      if 0xdc00 ≤ v ∧ v ≤ 0xdfff then
        (charsOfUnits? rest).map
          (Char.ofNat (0x10000 + 0x400 * (u - 0xd800) + (v - 0xdc00)) :: ·)
      else none
    else if 0xdc00 ≤ u ∧ u ≤ 0xdfff then none
    else (charsOfUnits? (v :: rest)).map (Char.ofNat u :: ·)

/-- The string of code units in which surrogates come in pairs. -/
def stringOfUnits? (units : List Nat) : Option String :=
  (charsOfUnits? units).map String.ofList

/-! ## Values -/

namespace Spelling

mutual

/-- The value that a spelling has, if its arrays and objects nest at most `depth` deep. -/
def toJson? : Spelling → (depth : Nat) → Option Json
  | null, _ => some .null
  | bool b, _ => some (.bool b)
  | number n, _ => n.toJson?
  | str units, _ => (stringOfUnits? units).map .str
  | arr _, 0 => none
  | obj _, 0 => none
  | arr xs, depth + 1 => (itemsToJson? xs depth).map .arr
  | obj fs, depth + 1 => (fieldsToJson? fs depth).map .object

/-- The values of all items. -/
def itemsToJson? : List Spelling → (depth : Nat) → Option (List Json)
  | [], _ => some []
  | x :: xs, depth =>
    match x.toJson? depth, itemsToJson? xs depth with
    | some v, some vs => some (v :: vs)
    | _, _ => none

/-- The keys and values of all members. -/
def fieldsToJson? : List (List Nat × Spelling) → (depth : Nat) → Option (List (String × Json))
  | [], _ => some []
  | (key, x) :: fs, depth =>
    match stringOfUnits? key, x.toJson? depth, fieldsToJson? fs depth with
    | some k, some v, some rest => some ((k, v) :: rest)
    | _, _, _ => none

end

end Spelling

/-- How deep arrays and objects may nest in a text. -/
def maxDepth : Nat := 127

/-- The value of a text. -/
def parse? (text : String) : Option Json := do
  (← Spelling.ofText? text.toList).toJson? maxDepth

end GuardedHeap.Json
