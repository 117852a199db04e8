/-! # Range maps — total maps on machine words, filled by ranges

    A `RangeMap` gives every index below `2 ^ width` a value.  It is a
    binary tree over the index space whose leaves are constant, so filling
    a range of any length touches at most two paths.  The one law of
    writing is `get_fill`: inside the range the new value, outside it the
    old one.  Searching and copying go by the runs of equal values. -/

namespace GuardedHeap

/-- A total map from indices to `α`, constant on each leaf. -/
inductive RangeMap (α : Type) where
  /-- Every index of the span has the value. -/
  | const (value : α)
  /-- The lower and the upper half of the span. -/
  | split (low high : RangeMap α)
  deriving Repr

namespace RangeMap

variable {α : Type}

instance [Inhabited α] : Inhabited (RangeMap α) := ⟨.const default⟩

/-- The half of the span below the middle. -/
def low : RangeMap α → RangeMap α
  | const v => const v
  | split l _ => l

/-- The half of the span from the middle on. -/
def high : RangeMap α → RangeMap α
  | const v => const v
  | split _ r => r

/-- A value of the map; the only one when the span has one index. -/
def first : RangeMap α → α
  | const v => v
  | split l _ => l.first

/-! ## Spans

    The functions on a span take its depth, on which they recur, and its
    number of indices `n`, which is `2 ^ depth`. -/

/-- The value at index `i` of a span. -/
def getIn : (depth n : Nat) → RangeMap α → (i : Nat) → α
  | _, _, const v, _ => v
  | 0, _, split l _, _ => l.first
  | d + 1, n, split l r, i =>
    if i < n / 2 then l.getIn d (n / 2) i else r.getIn d (n / 2) (i - n / 2)

/-- The span with `v` on `[lo, hi)`. -/
def fillIn (v : α) : (depth n : Nat) → RangeMap α → (lo hi : Nat) → RangeMap α
  | 0, _, m, lo, hi => if lo = 0 ∧ 0 < hi then const v else m
  | d + 1, n, m, lo, hi =>
    if hi ≤ lo ∨ n ≤ lo then m
    else if lo = 0 ∧ n ≤ hi then const v
    else split (m.low.fillIn v d (n / 2) lo hi) (m.high.fillIn v d (n / 2) (lo - n / 2) (hi - n / 2))

/-- The least index of `[lo, hi)` in a span whose value satisfies `p`. -/
def findIn? (p : α → Bool) : (depth n : Nat) → RangeMap α → (lo hi : Nat) → Option Nat
  | _, n, const v, lo, hi => if lo < hi ∧ lo < n ∧ p v then some lo else none
  | 0, _, split l _, lo, hi => if lo = 0 ∧ 0 < hi ∧ p l.first then some 0 else none
  | d + 1, n, split l r, lo, hi =>
    if hi ≤ lo ∨ n ≤ lo then none
    else
      match l.findIn? p d (n / 2) lo hi with
      | some i => some i
      | none => (r.findIn? p d (n / 2) (lo - n / 2) (hi - n / 2)).map (· + n / 2)

/-- The runs of equal values on `[lo, hi)` in a span: lengths and values, from the lowest
    index on. -/
def runsIn : (depth n : Nat) → RangeMap α → (lo hi : Nat) → List (Nat × α)
  | _, n, const v, lo, hi => if lo < min hi n then [(min hi n - lo, v)] else []
  | 0, _, split l _, lo, hi => if lo = 0 ∧ 0 < hi then [(1, l.first)] else []
  | d + 1, n, split l r, lo, hi =>
    if hi ≤ lo ∨ n ≤ lo then []
    else l.runsIn d (n / 2) lo hi ++ r.runsIn d (n / 2) (lo - n / 2) (hi - n / 2)

/-! ## The map -/

/-- Every map spans the machine word. -/
abbrev width : Nat := 64

/-- The number of indices of a map. -/
abbrev span : Nat := 18446744073709551616

/-- The value at index `i`. -/
def get (m : RangeMap α) (i : Nat) : α :=
  m.getIn width span i

/-- The map with `v` on `[lo, hi)`. -/
def fill (m : RangeMap α) (lo hi : Nat) (v : α) : RangeMap α :=
  m.fillIn v width span lo hi

/-- The map with `v` at index `i`. -/
def set (m : RangeMap α) (i : Nat) (v : α) : RangeMap α :=
  m.fill i (i + 1) v

/-- The least index of `[lo, hi)` whose value satisfies `p`. -/
def find? (m : RangeMap α) (lo hi : Nat) (p : α → Bool) : Option Nat :=
  m.findIn? p width span lo hi

/-- The runs of equal values on `[lo, hi)`. -/
def runs (m : RangeMap α) (lo hi : Nat) : List (Nat × α) :=
  m.runsIn width span lo hi

/-- The values on the `n` indices from `i` on. -/
def slice (m : RangeMap α) (i n : Nat) : List α :=
  (List.range n).map fun k => m.get (i + k)

/-- The indices of the runs that start at `i`, where the value satisfies `p`. -/
def indicesOfRuns (p : α → Bool) (i : Nat) : List (Nat × α) → List Nat
  | [] => []
  | (n, v) :: rest =>
    if p v then (List.range n).map (i + ·) ++ indicesOfRuns p (i + n) rest
    else indicesOfRuns p (i + n) rest

/-- The indices of `[lo, hi)` whose value satisfies `p`, in increasing order. -/
def indices (m : RangeMap α) (lo hi : Nat) (p : α → Bool) : List Nat :=
  indicesOfRuns p lo (m.runs lo hi)

/-- Write the values of the list one after the other from index `i` on. -/
def setList (m : RangeMap α) (i : Nat) : List α → RangeMap α
  | [] => m
  | v :: rest => (m.set i v).setList (i + 1) rest

/-- Fill the runs one after the other from index `i` on. -/
def setRuns (m : RangeMap α) (i : Nat) : List (Nat × α) → RangeMap α
  | [] => m
  | (n, v) :: rest => (m.fill i (i + n) v).setRuns (i + n) rest

/-- Copy the `n` values at `source` to `target`. -/
def copy (m : RangeMap α) (source target n : Nat) : RangeMap α :=
  m.setRuns target (m.runs source (source + n))

/-! ## The law of filling -/

theorem getIn_zero (n : Nat) (m : RangeMap α) (i : Nat) : m.getIn 0 n i = m.first := by
  cases m <;> rfl

theorem getIn_succ (d n : Nat) (m : RangeMap α) (i : Nat) :
    m.getIn (d + 1) n i =
      if i < n / 2 then m.low.getIn d (n / 2) i else m.high.getIn d (n / 2) (i - n / 2) := by
  cases m with
  | const v => cases d <;> simp [getIn, low, high]
  | split l r => simp [getIn, low, high]

theorem getIn_fillIn (v : α) (d n : Nat) (m : RangeMap α) (lo hi i : Nat) (hn : n = Nat.pow 2 d)
    (hi' : i < n) :
    (m.fillIn v d n lo hi).getIn d n i = if lo ≤ i ∧ i < hi then v else m.getIn d n i := by
  induction d generalizing n m lo hi i with
  | zero =>
    have hone : n = 1 := hn
    have hzero : i = 0 := by omega
    subst hzero
    simp only [fillIn]
    by_cases h : lo = 0 ∧ 0 < hi
    · simp [h, getIn]
    · rw [if_neg h, if_neg (by omega)]
  | succ d ih =>
    have hpow : n = Nat.pow 2 d * 2 := hn
    have hhalf : n / 2 = Nat.pow 2 d := by omega
    have hdouble : n = n / 2 + n / 2 := by omega
    simp only [fillIn]
    split
    · rw [if_neg (by omega)]
    · split
      · rw [if_pos (by omega)]; rfl
      · rw [getIn_succ d n m, getIn]
        by_cases hlow : i < n / 2
        · rw [if_pos hlow, if_pos hlow]
          exact ih (n / 2) m.low lo hi i hhalf hlow
        · rw [if_neg hlow, if_neg hlow, ih (n / 2) m.high _ _ (i - n / 2) hhalf (by omega)]
          congr 1
          exact propext ⟨fun h => by omega, fun h => by omega⟩

theorem get_fill (m : RangeMap α) (lo hi : Nat) (v : α) (i : Nat) (h : i < span) :
    (m.fill lo hi v).get i = if lo ≤ i ∧ i < hi then v else m.get i :=
  getIn_fillIn v width span m lo hi i (by decide) h

theorem get_set (m : RangeMap α) (j : Nat) (v : α) (i : Nat) (h : i < span) :
    (m.set j v).get i = if i = j then v else m.get i := by
  rw [set, get_fill m j (j + 1) v i h]
  congr 1
  exact propext ⟨fun h => by omega, fun h => by omega⟩

@[simp] theorem get_const (v : α) (i : Nat) : (const v).get i = v := by
  simp [get, getIn]

end RangeMap

end GuardedHeap
