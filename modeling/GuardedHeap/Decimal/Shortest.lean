/-! # Shortest decimals — the fewest digits that read back

    A positive binary number `m * 2 ^ q` stands for every real number that
    rounds to it.  Of the decimals in that interval `shortest` gives the
    one with the fewest digits, and of those the nearest to the number
    itself; a tie goes to the even digit.

    The search goes over grids of powers of ten from coarse to fine.  On
    each grid only the two neighbours of the number need a look: if any
    point of the grid lies in the interval, one of them does. -/

namespace GuardedHeap.Decimal

/-- The binary number `m * 2 ^ q`, with the reals that round to it. -/
structure Binary where
  m : Nat
  q : Int
  /-- The number below is only half as far away as the one above. -/
  closeBelow : Bool
  deriving DecidableEq, Repr

/-- The decimal number `digits * 10 ^ exponent`. -/
structure Scaled where
  digits : Nat
  exponent : Int
  deriving DecidableEq, Repr

namespace Binary

/-- The number four times over, and the ends of the interval likewise, in units of
    `2 ^ (q - 2)`: lower end, number, upper end. -/
def quarters (b : Binary) : Nat × Nat × Nat :=
  (4 * b.m - (if b.closeBelow then 1 else 2), 4 * b.m, 4 * b.m + 2)

/-- The point lies between `low` and `high`; the ends belong to the interval iff `m` is even. -/
def within (b : Binary) (low point high : Nat) : Bool :=
  if b.m % 2 = 0 then low ≤ point && point ≤ high else low < point && point < high

/-- The point of the grid of multiples of `10 ^ k` in the interval that is nearest to the
    number, if there is one. -/
def onGrid? (b : Binary) (k : Int) : Option Scaled :=
  -- The unit `2 ^ (q - 2)` over the grid's step, as `up / down`.
  let up := Nat.pow 2 (b.q - 2).toNat * Nat.pow 10 (-k).toNat
  let down := Nat.pow 2 (2 - b.q).toNat * Nat.pow 10 k.toNat
  let (low, number, high) := b.quarters
  let below := number * up / down
  let inside := fun c => b.within (low * up) (c * down) (high * up)
  let middle := (2 * below + 1) * down
  let preferBelow := 2 * number * up < middle || (2 * number * up == middle && below % 2 == 0)
  match inside below, inside (below + 1) with
  | true, true => some ⟨if preferBelow then below else below + 1, k⟩
  | true, false => some ⟨below, k⟩
  | false, true => some ⟨below + 1, k⟩
  | false, false => none

/-- The first of the `n` grids from `10 ^ k` down that has a point in the interval. -/
def search (b : Binary) : (n : Nat) → (k : Int) → Scaled
  | 0, k => ⟨0, k⟩
  | n + 1, k =>
    match b.onGrid? k with
    | some d => d
    | none => b.search n (k - 1)

/-- The shortest decimal that rounds to the number.  Twenty-two grids are enough: the first one
    is coarser than the number, and seventeen digits always read back. -/
def shortest (b : Binary) : Scaled :=
  let magnitude : Int := b.q + (b.m.log2 + 1 : Nat)
  b.search 22 (magnitude * 30103 / 100000 + 2)

end Binary

/-- The leading bit of a binary64 number, which its representation leaves out; eleven bits of
    exponent and the sign stand in its place and above. -/
def leadingBit : Nat := 0x10000000000000

/-- The parts of a finite binary64 number: its sign, and its size unless it is zero. -/
def ofFloat (x : Float) : Bool × Option Binary :=
  let bits : Nat := x.toBits.toNat
  let negative := bits / (2048 * leadingBit) = 1
  let exponent : Nat := bits / leadingBit % 2048
  let fraction : Nat := bits % leadingBit
  if exponent = 0 then
    (negative, if fraction = 0 then none else some ⟨fraction, -1074, false⟩)
  else
    (negative, some ⟨leadingBit + fraction, (exponent : Int) - 1075, fraction = 0 ∧ exponent > 1⟩)

end GuardedHeap.Decimal
