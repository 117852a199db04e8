import GuardedHeap.Word
import Mathlib.Data.Nat.Log

/-! # Rounding — multiples and powers of two

    `roundUp n m` is the least multiple of `m` that is at least `n`: the
    order facts that follow from that, what the checked roundings let
    through, and the divisibility between powers of two that alignments
    rest on. -/

namespace GuardedHeap

namespace Word

/-! ## Rounding up -/

/-- A multiple that is large enough is not below the rounded number. -/
theorem roundUp_le {n m k : Nat} (hm : 0 < m) (hdvd : m ∣ k) (h : n ≤ k) : roundUp n m ≤ k := by
  obtain ⟨q, rfl⟩ := hdvd
  have hlt := @roundUp_lt n m hm
  obtain ⟨r, hr⟩ := dvd_roundUp (n := n) hm
  rw [hr] at hlt ⊢
  refine Nat.mul_le_mul_left m ?_
  by_contra hqr
  have hmul : m * (q + 1) ≤ m * r := Nat.mul_le_mul_left m (by omega)
  rw [Nat.mul_add, Nat.mul_one] at hmul
  omega

theorem roundUp_of_dvd {n m : Nat} (hm : 0 < m) (h : m ∣ n) : roundUp n m = n :=
  Nat.le_antisymm (roundUp_le hm h (Nat.le_refl n)) le_roundUp

/-- Rounding up keeps the order. -/
theorem roundUp_mono {n n' m : Nat} (hm : 0 < m) (h : n ≤ n') : roundUp n m ≤ roundUp n' m :=
  roundUp_le hm (dvd_roundUp hm) (Nat.le_trans h le_roundUp)

/-! ## What the checks let through -/

/-- A multiple that is no word is an overrun. -/
theorem nextMultiple_eq_ok {n m r : Nat} :
    nextMultiple n m = .ok r ↔ 0 < m ∧ roundUp n m < limit ∧ r = roundUp n m := by
  unfold nextMultiple
  by_cases h : m = 0
  · rw [if_pos h]
    simp [h]
  · rw [if_neg h, checked_eq_ok]
    exact ⟨fun hr => ⟨Nat.pos_of_ne_zero h, hr⟩, fun hr => hr.2⟩

theorem mul?_eq_some {a b r : Nat} : mul? a b = some r ↔ a * b < limit ∧ r = a * b := by
  by_cases h : a * b < limit
  · rw [mul?, if_pos h]
    simp [h, eq_comm]
  · rw [mul?, if_neg h]
    simp [h]

/-- A multiple that is no word is none. -/
theorem nextMultiple?_eq_some {n m r : Nat} :
    nextMultiple? n m = some r ↔ 0 < m ∧ roundUp n m < limit ∧ r = roundUp n m := by
  unfold nextMultiple?
  by_cases h : m = 0
  · rw [if_pos h]
    simp [h]
  · rw [if_neg h]
    by_cases hlt : roundUp n m < limit
    · rw [if_pos hlt]
      simp [hlt, Nat.pos_of_ne_zero h, eq_comm]
    · rw [if_neg hlt]
      simp [hlt]

/-! ## Powers of two -/

/-- A power of two is one of the powers. -/
theorem isPowerOfTwo_iff {n : Nat} : isPowerOfTwo n = true ↔ ∃ k, n = powerOfTwo k := by
  rw [isPowerOfTwo, beq_iff_eq]
  constructor
  · intro h
    exact ⟨n.log2, h.symm⟩
  · rintro ⟨k, rfl⟩
    show Nat.pow 2 (Nat.log2 (2 ^ k)) = Nat.pow 2 k
    rw [Nat.log2_two_pow]

/-- What is shifted keeps its bits if the product is a word. -/
theorem shiftLeft_eq_ok {n k r : Nat} (h : n * powerOfTwo k < limit) :
    shiftLeft n k = .ok r ↔ k < 64 ∧ r = n * powerOfTwo k := by
  unfold shiftLeft
  by_cases hk : k < 64
  · rw [if_pos hk, Nat.mod_eq_of_lt h]
    simp [hk, eq_comm]
  · rw [if_neg hk]
    simp [hk]

theorem shiftLeft_one_eq_ok {k r : Nat} : shiftLeft 1 k = .ok r ↔ k < 64 ∧ r = powerOfTwo k := by
  by_cases hk : k < 64
  · have hlt : 1 * powerOfTwo k < limit := by
      rw [Nat.one_mul]
      exact Nat.pow_lt_pow_right (by decide) hk
    rw [shiftLeft_eq_ok hlt, Nat.one_mul]
  · unfold shiftLeft
    rw [if_neg hk]
    simp [hk]

theorem powerOfTwo_pos (k : Nat) : 0 < powerOfTwo k := Nat.pow_pos (by decide)

theorem powerOfTwo_add (j k : Nat) : powerOfTwo (j + k) = powerOfTwo j * powerOfTwo k :=
  Nat.pow_add 2 j k

theorem powerOfTwo_dvd {j k : Nat} (h : j ≤ k) : powerOfTwo j ∣ powerOfTwo k :=
  Nat.pow_dvd_pow 2 h

/-- Powers of two go up. -/
theorem powerOfTwo_le {j k : Nat} (h : j ≤ k) : powerOfTwo j ≤ powerOfTwo k :=
  Nat.pow_le_pow_right (by decide) h

/-- Of two powers of two the smaller divides the larger. -/
theorem dvd_of_le_powerOfTwo {j k : Nat} (h : powerOfTwo j ≤ powerOfTwo k) :
    powerOfTwo j ∣ powerOfTwo k := by
  rcases Nat.lt_or_ge k j with hlt | hle
  · have := Nat.pow_lt_pow_right (by decide : 1 < 2) hlt
    exact absurd h (Nat.not_le.mpr this)
  · exact powerOfTwo_dvd hle

/-- A power of two that is at least the granule is a multiple of it. -/
theorem dvd_of_powerOfTwo_le {n m : Nat} (hn : isPowerOfTwo n = true) (hm : isPowerOfTwo m = true)
    (h : n ≤ m) : n ∣ m := by
  obtain ⟨j, rfl⟩ := isPowerOfTwo_iff.mp hn
  obtain ⟨k, rfl⟩ := isPowerOfTwo_iff.mp hm
  exact dvd_of_le_powerOfTwo h

end Word

/-! ## Maxima and minima -/

/-- The greater of two powers of two is one. -/
theorem isPowerOfTwo_max {n m : Nat} (hn : Word.isPowerOfTwo n = true)
    (hm : Word.isPowerOfTwo m = true) :
    Word.isPowerOfTwo (max n m) = true := by
  rcases Nat.le_total n m with h | h
  · rwa [Nat.max_eq_right h]
  · rwa [Nat.max_eq_left h]

theorem dvd_max {m a b : Nat} (ha : m ∣ a) (hb : m ∣ b) : m ∣ max a b := by
  rcases Nat.le_total a b with h | h
  · rwa [Nat.max_eq_right h]
  · rwa [Nat.max_eq_left h]

theorem dvd_min {m a b : Nat} (ha : m ∣ a) (hb : m ∣ b) : m ∣ min a b := by
  rcases Nat.le_total a b with h | h
  · rwa [Nat.min_eq_left h]
  · rwa [Nat.min_eq_right h]

end GuardedHeap
