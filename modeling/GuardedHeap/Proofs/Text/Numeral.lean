import GuardedHeap.Text.Numeral
import Mathlib.Data.Nat.Digits.Defs

/-! # Numerals — what is read from digits

    Digits are read from the first one on; what is read is the number that
    they write in their base, where a letter may be of either case
    (`someDigitsValue?_eq_some`).  Signs and the marks of a base are put
    before them: `prefixed?_eq_some` and `signed?_eq_some` tell which texts
    are numerals, and of which number. -/

namespace GuardedHeap.Text

variable {base n : Nat} {c mark : Char} {cs : List Char}

/-- The character is a digit of a base, with this value. -/
def IsDigit (base : Nat) (c : Char) (d : Nat) : Prop :=
  d < base ∧ c.toLower = Nat.digitChar d

/-- The text consists of digits, at least one of them, that write the number. -/
def Digits (base : Nat) (cs : List Char) (n : Nat) : Prop :=
  cs ≠ [] ∧ ∃ ds, List.Forall₂ (IsDigit base) cs ds ∧ n = Nat.ofDigits base ds.reverse

/-- There may be a plus sign before the digits. -/
def Positive (base : Nat) (cs : List Char) (n : Nat) : Prop :=
  Digits base cs n ∨ ∃ ds, cs = '+' :: ds ∧ Digits base ds n

/-- A number is decimal, or hexadecimal behind a zero and a mark. -/
inductive Unsigned (marks : List Char) : List Char → Nat → Prop where
  | decimal {cs : List Char} {n : Nat} (h : Positive 10 cs n) : Unsigned marks cs n
  | hexadecimal {mark : Char} {cs : List Char} {n : Nat} (hmark : mark ∈ marks) (h : Positive 16 cs n) :
      Unsigned marks ('0' :: mark :: cs) n

/-- A signed number may have a minus sign instead of the plus sign. -/
inductive Signed : List Char → Int → Prop where
  | positive {cs : List Char} {n : Nat} (h : Positive 10 cs n) : Signed cs n
  | negative {cs : List Char} {n : Nat} (h : Digits 10 cs n) : Signed ('-' :: cs) (-(n : Int))

/-! ## Digits -/

/-- Characters behind the ASCII ones are no digits, and have no other case here. -/
theorem hexValue?_of_not_ascii (h : 128 ≤ c.toNat) : hexValue? c = none ∧ c.toLower = c := by
  have hle : ∀ {d : Char}, d.toNat < 128 → ¬ c ≤ d := fun {d} hd hcd => by
    have hval : c.toNat ≤ d.toNat := UInt32.le_iff_toNat_le.mp (Char.le_def.mp hcd)
    omega
  constructor
  · unfold hexValue?
    rw [if_neg fun hc => hle (by decide) hc.2, if_neg fun hc => hle (by decide) hc.2,
      if_neg fun hc => hle (by decide) hc.2]
  · exact dif_neg fun hc => hle (d := 'Z') (by decide) hc.2

theorem hexValue?_eq_some {d : Nat} : hexValue? c = some d ↔ IsDigit 16 c d := by
  by_cases hascii : c.toNat < 128
  · have hdigit : ∀ n < 128, ∀ d < 16, hexValue? (Char.ofNat n) = some d ↔
        (Char.ofNat n).toLower = Nat.digitChar d := by decide +kernel
    have hvalue : ∀ n < 128, (hexValue? (Char.ofNat n)).all (decide <| · < 16) = true := by decide +kernel
    have hvalue := hvalue _ hascii
    have hdigit := hdigit _ hascii d
    rw [Char.ofNat_toNat] at hvalue hdigit
    refine ⟨fun h => ?_, fun h => (hdigit h.1).mpr h.2⟩
    rw [h, Option.all_some, decide_eq_true_eq] at hvalue
    exact ⟨hvalue, (hdigit hvalue).mp h⟩
  · obtain ⟨hnone, hlower⟩ := hexValue?_of_not_ascii (Nat.not_lt.mp hascii)
    have hsmall : ∀ d < 16, (Nat.digitChar d).toNat < 128 := by decide
    rw [hnone]
    refine ⟨nofun, fun ⟨hd, h⟩ => absurd (hsmall d hd) ?_⟩
    rwa [← h, hlower]

theorem digitValue?_eq_some (hbase : base ≤ 16) {d : Nat} : digitValue? base c = some d ↔ IsDigit base c d := by
  have hhex := @hexValue?_eq_some c
  unfold digitValue?
  cases hvalue : hexValue? c with
  | none =>
      refine ⟨nofun, fun ⟨hd, h⟩ => ?_⟩
      rw [hhex.mpr ⟨Nat.lt_of_lt_of_le hd hbase, h⟩] at hvalue
      exact nomatch hvalue
  | some e =>
      obtain ⟨-, he⟩ := hhex.mp hvalue
      dsimp only
      constructor
      · intro h
        by_cases hlt : e < base
        · rw [if_pos hlt] at h
          obtain rfl := Option.some.inj h
          exact ⟨hlt, he⟩
        · rw [if_neg hlt] at h
          exact nomatch h
      · rintro ⟨hd, h⟩
        obtain rfl := Option.some.inj ((hhex.mpr ⟨Nat.lt_of_lt_of_le hd hbase, h⟩).symm.trans hvalue)
        exact if_pos hd

/-- Digits go on behind a number that was read already. -/
theorem digitsValue?_eq_some (hbase : base ≤ 16) {read : Nat} : digitsValue? base read cs = some n ↔
    ∃ ds, List.Forall₂ (IsDigit base) cs ds ∧ n = ds.foldl (fun value d => base * value + d) read := by
  induction cs generalizing read with
  | nil =>
      constructor
      · intro h
        exact ⟨[], .nil, (Option.some.inj h).symm⟩
      · rintro ⟨ds, hds, rfl⟩
        cases hds
        rfl
  | cons c rest ih =>
      unfold digitsValue?
      constructor
      · intro h
        cases hd : digitValue? base c with
        | none =>
            rw [hd] at h
            exact nomatch h
        | some d =>
            rw [hd] at h
            obtain ⟨ds, hds, rfl⟩ := ih.mp h
            exact ⟨d :: ds, .cons ((digitValue?_eq_some hbase).mp hd) hds, rfl⟩
      · rintro ⟨ds, hds, rfl⟩
        cases hds with
        | @cons _ d _ ds hd hds =>
            rw [(digitValue?_eq_some hbase).mpr hd]
            exact ih.mpr ⟨ds, hds, rfl⟩

theorem someDigitsValue?_eq_some (hbase : base ≤ 16) : someDigitsValue? base cs = some n ↔ Digits base cs n := by
  have hvalue : ∀ ds : List Nat, Nat.ofDigits base ds.reverse = ds.foldl (fun value d => base * value + d) 0 := by
    intro ds
    rw [Nat.ofDigits_eq_foldr, List.foldr_reverse]
    congr 1
    funext value d
    exact Nat.add_comm _ _
  unfold someDigitsValue? Digits
  cases cs with
  | nil => exact ⟨nofun, fun h => absurd rfl h.1⟩
  | cons c rest =>
      rw [List.isEmpty_cons, if_neg Bool.false_ne_true, digitsValue?_eq_some hbase]
      simp only [hvalue]
      exact (and_iff_right (List.cons_ne_nil _ _)).symm

/-! ## Numerals -/

/-- A sign is no digit. -/
theorem not_digits_cons (hbase : base ≤ 16) (hc : hexValue? c = none) : ¬ Digits base (c :: cs) n := by
  rintro ⟨-, ds, hds, -⟩
  cases hds with
  | cons hd _ =>
      rw [hexValue?_eq_some.mpr ⟨Nat.lt_of_lt_of_le hd.1 hbase, hd.2⟩] at hc
      exact nomatch hc

theorem unsigned?_eq_some (hbase : base ≤ 16) : unsigned? base cs = some n ↔ Positive base cs n := by
  unfold unsigned? Positive
  split
  · rename_i ds
    rw [someDigitsValue?_eq_some hbase, or_iff_right (not_digits_cons hbase (by decide))]
    refine ⟨fun h => ⟨ds, rfl, h⟩, ?_⟩
    rintro ⟨ds', heq, h⟩
    obtain ⟨-, rfl⟩ := List.cons.inj heq
    exact h
  · rename_i hplus
    rw [someDigitsValue?_eq_some hbase]
    exact (or_iff_left fun ⟨ds, heq, _⟩ => hplus ds heq).symm

/-- What begins with another character than a digit or a plus sign is no numeral. -/
theorem not_positive_cons (hbase : base ≤ 16) (hc : hexValue? c = none) (hplus : c ≠ '+') :
    ¬ Positive base (c :: cs) n := by
  rintro (h | ⟨ds, heq, -⟩)
  · exact not_digits_cons hbase hc h
  · exact hplus (List.cons.inj heq).1

/-- A mark that is no digit tells where a hexadecimal number begins. -/
theorem prefixed?_eq_some {marks : List Char} (hmarks : ∀ mark ∈ marks, digitValue? 10 mark = none) :
    prefixed? marks cs = some n ↔ Unsigned marks cs n := by
  -- A digit string cannot begin with zero and a mark, so at most one of the bases can read a text.
  have hmarked : ∀ {mark : Char} {ds : List Char} {n : Nat}, mark ∈ marks →
      ¬ Positive 10 ('0' :: mark :: ds) n := by
    rintro mark ds n hmark (⟨-, vs, hvs, -⟩ | ⟨ds', heq, -⟩)
    · cases hvs with
      | cons _ hvs =>
          cases hvs with
          | cons hv _ =>
              have := (digitValue?_eq_some (by decide)).mpr hv
              rw [hmarks mark hmark] at this
              exact nomatch this
    · exact absurd (List.cons.inj heq).1 (by decide)
  unfold prefixed? splitBase
  split
  rename_i b ds hsplit
  split at hsplit
  · rename_i mark ds'
    by_cases hmark : mark ∈ marks
    · rw [if_pos hmark] at hsplit
      obtain ⟨rfl, rfl⟩ := Prod.mk.inj hsplit
      rw [unsigned?_eq_some (by decide)]
      refine ⟨.hexadecimal hmark, fun h => ?_⟩
      cases h with
      | decimal h => exact absurd h (hmarked hmark)
      | hexadecimal _ h => exact h
    · rw [if_neg hmark] at hsplit
      obtain ⟨rfl, rfl⟩ := Prod.mk.inj hsplit
      rw [unsigned?_eq_some (by decide)]
      refine ⟨.decimal, fun h => ?_⟩
      cases h with
      | decimal h => exact h
      | hexadecimal hmark' _ => exact absurd hmark' hmark
  · rename_i hzero
    obtain ⟨rfl, rfl⟩ := Prod.mk.inj hsplit
    rw [unsigned?_eq_some (by decide)]
    refine ⟨.decimal, fun h => ?_⟩
    cases h with
    | decimal h => exact h
    | @hexadecimal mark ds _ _ _ => exact absurd rfl (hzero mark ds)

theorem signed?_eq_some {i : Int} : signed? 10 cs = some i ↔ Signed cs i := by
  have hcast : ∀ {x : Option Nat} {m : Int}, ((do let n ← x; pure (n : Int)) : Option Int) = some m ↔
      ∃ n : Nat, x = some n ∧ (n : Int) = m := by
    intro x m
    cases x <;> simp
  unfold signed?
  split
  · rename_i ds
    rw [Option.map_eq_some_iff]
    constructor
    · rintro ⟨m, hm, rfl⟩
      obtain ⟨n, hn, rfl⟩ := hcast.mp hm
      exact .negative ((someDigitsValue?_eq_some (by decide)).mp hn)
    · intro h
      cases h with
      | positive h => exact absurd h (not_positive_cons (by decide) (by decide) (by decide))
      | negative h => exact ⟨_, hcast.mpr ⟨_, (someDigitsValue?_eq_some (by decide)).mpr h, rfl⟩, rfl⟩
  · rename_i hminus
    rw [Option.map_eq_some_iff]
    constructor
    · rintro ⟨m, hm, rfl⟩
      obtain ⟨n, hn, rfl⟩ := hcast.mp hm
      exact .positive ((unsigned?_eq_some (by decide)).mp hn)
    · intro h
      cases h with
      | positive h => exact ⟨_, hcast.mpr ⟨_, (unsigned?_eq_some (by decide)).mpr h, rfl⟩, rfl⟩
      | @negative ds _ _ => exact absurd rfl (hminus ds)

end GuardedHeap.Text
