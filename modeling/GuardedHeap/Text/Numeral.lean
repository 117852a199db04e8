import GuardedHeap.Text.Hex

/-! # Numerals — how options spell numbers

    A numeral is at least one digit of its base, behind an optional plus
    sign; a signed one may have a minus sign instead.  Leading zeros are
    allowed, separators are not. -/

namespace GuardedHeap.Text

/-- The value of a digit of a base up to sixteen. -/
def digitValue? (base : Nat) (c : Char) : Option Nat :=
  match hexValue? c with
  | some d => if d < base then some d else none
  | none => none

/-- The value of `ds` as digits behind others of value `n`. -/
def digitsValue? (base : Nat) (n : Nat) : (ds : List Char) → Option Nat
  | [] => some n
  | c :: rest =>
    match digitValue? base c with
    | some d => digitsValue? base (base * n + d) rest
    | none => none

/-- The value of at least one digit. -/
def someDigitsValue? (base : Nat) (ds : List Char) : Option Nat :=
  if ds.isEmpty then none else digitsValue? base 0 ds

/-- The value of a numeral without a minus sign. -/
def unsigned? (base : Nat) : List Char → Option Nat
  | '+' :: ds => someDigitsValue? base ds
  | ds => someDigitsValue? base ds

/-- The value of a numeral. -/
def signed? (base : Nat) : List Char → Option Int
  | '-' :: ds => (someDigitsValue? base ds).map fun n => -(n : Int)
  | ds => (unsigned? base ds).map fun n => (n : Int)

/-- The base of a numeral, and the numeral itself: sixteen behind a zero and one of `marks`, and
    ten otherwise. -/
def splitBase (marks : List Char) : List Char → Nat × List Char
  | '0' :: mark :: ds => if mark ∈ marks then (16, ds) else (10, '0' :: mark :: ds)
  | ds => (10, ds)

/-- The value of a numeral without a minus sign, which `marks` tell to be hexadecimal. -/
def prefixed? (marks cs : List Char) : Option Nat :=
  let (base, ds) := splitBase marks cs
  unsigned? base ds

/-- The value of a numeral that `marks` tell to be hexadecimal; its sign stands behind them. -/
def signedPrefixed? (marks cs : List Char) : Option Int :=
  let (base, ds) := splitBase marks cs
  signed? base ds

end GuardedHeap.Text
