/-! # Machine words — arithmetic that says when it leaves 64 bits

    Addresses, sizes and counters are natural numbers below `Word.limit`.
    Plain sums, differences and products are `Checked`: a result outside
    the word is `Overrun`, which ends the whole run.  Where a rule wraps
    or saturates it says so by name (`wrapAdd`, `wrapSub`; truncated
    subtraction is the saturating one). -/

namespace GuardedHeap

/-- The arithmetic left the machine word, or divided by zero. -/
inductive Overrun where
  | overrun
  deriving DecidableEq, Repr

/-- A value, unless its computation overran the machine word. -/
abbrev Checked (α : Type) := Except Overrun α

namespace Word

/-- The number of values of a 64-bit word. -/
abbrev limit : Nat := 18446744073709551616

/-- The largest 64-bit word. -/
abbrev max : Nat := 18446744073709551615

/-- The number of values of the lower half of a word. -/
abbrev halfLimit : Nat := 4294967296

/-- The words below this are not negative when they are read as signed. -/
abbrev signLimit : Nat := 9223372036854775808

/-- The number whose only bit is the one in place `k`. -/
abbrev powerOfTwo (k : Nat) : Nat :=
  Nat.pow 2 k

/-- `n` if it is a word. -/
def checked (n : Nat) : Checked Nat :=
  if n < limit then .ok n else .error .overrun

/-- The sum of two words, if it is a word. -/
def add (a b : Nat) : Checked Nat :=
  checked (a + b)

/-- The product of two words, if it is a word. -/
def mul (a b : Nat) : Checked Nat :=
  checked (a * b)

/-- The difference of two words, if it is not negative. -/
def sub (a b : Nat) : Checked Nat :=
  if b ≤ a then .ok (a - b) else .error .overrun

/-- The sum of two words, if it is a word, for a caller that has an error of its own. -/
def add? (a b : Nat) : Option Nat :=
  if a + b < limit then some (a + b) else none

/-- The product of two words, if it is a word, for a caller that has an error of its own. -/
def mul? (a b : Nat) : Option Nat :=
  if a * b < limit then some (a * b) else none

/-- The sum modulo the word. -/
def wrapAdd (a b : Nat) : Nat :=
  (a + b) % limit

/-- The difference modulo the word. -/
def wrapSub (a b : Nat) : Nat :=
  (a + (limit - b % limit)) % limit

/-- The word `n` shifted left by `k < 64` places; bits that leave the word are lost. -/
def shiftLeft (n k : Nat) : Checked Nat :=
  if k < 64 then .ok (n * powerOfTwo k % limit) else .error .overrun

/-- The least multiple of `m` that is at least `n`; `n` itself when `m` is zero. -/
def roundUp (n m : Nat) : Nat :=
  if m = 0 then n else (n + (m - 1)) / m * m

/-- The greatest multiple of `m` that is at most `n`. -/
def roundDown (n m : Nat) : Nat :=
  n / m * m

/-- `roundUp`, if there is such a multiple below the limit. -/
def nextMultiple (n m : Nat) : Checked Nat :=
  if m = 0 then .error .overrun else checked (roundUp n m)

/-- `roundUp`, if there is such a multiple below the limit, for a caller that has an
    error of its own. -/
def nextMultiple? (n m : Nat) : Option Nat :=
  if m = 0 then none else if roundUp n m < limit then some (roundUp n m) else none

/-- Exactly one bit of `n` is set. -/
def isPowerOfTwo (n : Nat) : Bool :=
  powerOfTwo n.log2 == n

/-- A 64-bit word read as a two's complement number. -/
def toSigned (n : Nat) : Int :=
  if n < signLimit then n else (n : Int) - limit

/-! ## What the checks let through -/

theorem checked_eq_ok {n r : Nat} : checked n = .ok r ↔ n < limit ∧ r = n := by
  by_cases h : n < limit
  · rw [checked, if_pos h]; simp [h, eq_comm]
  · rw [checked, if_neg h]; simp [h]

theorem add_eq_ok {a b r : Nat} : add a b = .ok r ↔ a + b < limit ∧ r = a + b :=
  checked_eq_ok

theorem mul_eq_ok {a b r : Nat} : mul a b = .ok r ↔ a * b < limit ∧ r = a * b :=
  checked_eq_ok

theorem sub_eq_ok {a b r : Nat} : sub a b = .ok r ↔ b ≤ a ∧ r = a - b := by
  by_cases h : b ≤ a
  · rw [sub, if_pos h]; simp [h, eq_comm]
  · rw [sub, if_neg h]; simp [h]

theorem add?_eq_some {a b r : Nat} : add? a b = some r ↔ a + b < limit ∧ r = a + b := by
  by_cases h : a + b < limit
  · rw [add?, if_pos h]; simp [h, eq_comm]
  · rw [add?, if_neg h]; simp [h]

theorem le_roundUp {n m : Nat} : n ≤ roundUp n m := by
  unfold roundUp
  split
  · exact Nat.le_refl n
  · rename_i h
    have hm : 0 < m := Nat.pos_of_ne_zero h
    have h1 := Nat.div_add_mod (n + (m - 1)) m
    have h2 := Nat.mod_lt (n + (m - 1)) hm
    rw [Nat.mul_comm]
    omega

theorem roundUp_lt {n m : Nat} (hm : 0 < m) : roundUp n m < n + m := by
  unfold roundUp
  rw [if_neg (by omega)]
  have h1 := Nat.div_mul_le_self (n + (m - 1)) m
  omega

theorem dvd_roundUp {n m : Nat} (hm : 0 < m) : m ∣ roundUp n m := by
  unfold roundUp
  rw [if_neg (by omega)]
  exact Nat.dvd_mul_left m _

end Word

end GuardedHeap
