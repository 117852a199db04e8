import GuardedHeap.Proofs.Shadow.Questions
import Mathlib.Data.Nat.Find
import Mathlib.Order.Bounds.Basic

/-! # Scans — the first bad granule and the lowest bad byte

    An access is looked at granule by granule, and of each granule only the
    last byte that the access touches is compared with its shadow byte.
    That is enough: behind a byte that cannot be accessed there is none in
    its granule that can (`Addressable.of_le`), so the granule is bad for
    the access exactly if one of the touched bytes is.  The scan therefore
    finds the granule of the lowest byte that would be reported on its own
    (`firstBad_lowest`).  The search goes by runs of granules with the same
    byte; looking at one granule after the other comes to the same
    (`firstBad_eq_scan`). -/

namespace GuardedHeap.Shadow

variable {s : Shadow} {addr size : Nat}

/-- In a granule, what is before an accessible byte is accessible. -/
theorem Addressable.of_le {a b : Nat} (h : s.Addressable b) (hle : a ≤ b)
    (hsame : a / granule = b / granule) : s.Addressable a := by
  unfold Addressable at *
  rw [hsame]
  have hmod : a % granule ≤ b % granule := by
    simp only [granule] at *
    omega
  exact Nat.lt_of_le_of_lt hmod h

/-- Every byte of a granule without a reason to poison can be accessed. -/
theorem addressable_of_zero {a : Nat} (h : s.ofGranule (a / granule) = 0) : s.Addressable a := by
  unfold Addressable
  rw [h]
  exact Nat.mod_lt a (by decide)

/-- The last byte of a granule can be accessed only if the granule has no reason to poison. -/
theorem not_addressable_last {g : Nat} (h : s.ofGranule g ≠ 0) :
    ¬ s.Addressable (g * granule + (granule - 1)) := by
  have hplace : (g * granule + (granule - 1)) / granule = g
      ∧ (g * granule + (granule - 1)) % granule = granule - 1 := by
    simp only [granule]
    omega
  unfold Addressable
  rw [hplace.1, hplace.2]
  unfold addressableBytes
  rw [if_neg h]
  split
  · rename_i hlt
    have := UInt8.lt_iff_toNat_lt.mp hlt
    exact Nat.not_lt.mpr (Nat.le_of_lt_succ this)
  · exact Nat.not_lt_zero _

/-- A range outside of the tracked one is refused. -/
theorem firstBad_outside (hsize : size ≠ 0) (hcovers : s.covers addr size = false) :
    s.firstBad addr size = .error (.refused (s.outside addr size)) := by
  unfold firstBad
  rw [if_neg hsize, if_pos (by rw [hcovers]; decide)]
  rfl

/-- The scan stops in front of a granule with a touched byte that cannot be accessed, or all touched
    bytes can. -/
theorem firstBad_scan (hend : s.appEnd + granule ≤ Word.limit) (hsize : size ≠ 0)
    (hcovers : s.covers addr size = true) :
    (∃ g, s.firstBad addr size = .ok (some (g * granule))
        ∧ (∀ b, addr ≤ b → b < g * granule → s.Addressable b)
        ∧ ∃ b, addr ≤ b ∧ b < addr + size ∧ b / granule = g ∧ ¬ s.Addressable b)
      ∨ s.firstBad addr size = .ok none ∧ ∀ b, addr ≤ b → b < addr + size → s.Addressable b := by
  obtain ⟨hlo, hhi⟩ := covers_iff.mp hcovers
  have hlast : addr + size - 1 - (addr + size - 1) / granule * granule = (addr + size - 1) % granule := by
    simp only [granule]
    omega
  unfold firstBad
  rw [if_neg hsize, if_neg (by rw [hcovers]; decide)]
  dsimp only
  cases hfind : s.bytes.find? (addr / granule) ((addr + size - 1) / granule) (· != 0) with
  | some g =>
      obtain ⟨hfirst, hbefore, -, hbad⟩ := RangeMap.find?_eq_some hfind
      refine .inl ⟨g, rfl, fun b hb hb' => ?_, g * granule + (granule - 1), ?_⟩
      · have hclear := RangeMap.find?_below (j := b / granule) hfind (Nat.div_le_div_right hb)
          (Nat.div_lt_of_lt_mul (Nat.mul_comm g granule ▸ hb'))
        exact addressable_of_zero (bne_eq_false_iff_eq.mp hclear)
      · refine ⟨?_, ?_, ?_, not_addressable_last (bne_iff_ne.mp hbad)⟩
        all_goals
          simp only [granule] at *
          omega
  | none =>
      -- All granules but the last one are clear; of that one the last touched byte decides.
      have hclear : ∀ b, addr ≤ b → b / granule < (addr + size - 1) / granule → s.Addressable b := by
        intro b hb hb'
        refine addressable_of_zero (bne_eq_false_iff_eq.mp
          (RangeMap.find?_eq_none hfind (Nat.div_le_div_right hb) hb' ?_))
        simp only [granule, RangeMap.span, Word.limit] at *
        omega
      dsimp only
      rw [show Word.add ((addr + size - 1) / granule * granule) granule = .ok _ from
        Word.add_eq_ok.mpr ⟨by simp only [granule, Word.limit] at *; omega, rfl⟩, hlast]
      by_cases htouched : addressableBytes (s.ofGranule ((addr + size - 1) / granule)) ≤
          (addr + size - 1) % granule
      · refine .inl ⟨_, congrArg Except.ok (if_pos htouched), fun b hb hb' => hclear b hb ?_, addr + size - 1,
          by omega, by omega, rfl, Nat.not_lt.mpr htouched⟩
        exact Nat.div_lt_of_lt_mul (Nat.mul_comm _ granule ▸ hb')
      · refine .inr ⟨congrArg Except.ok (if_neg htouched), fun b hb hb' => ?_⟩
        by_cases hbefore : b / granule < (addr + size - 1) / granule
        · exact hclear b hb hbefore
        · refine Addressable.of_le (b := addr + size - 1) (Nat.not_le.mp htouched) (by omega) ?_
          simp only [granule] at *
          omega

/-! ## Granule by granule -/

/-- Look at the granules before `past` one after the other, from the one that begins at `start`: of each the
    last byte that is touched is compared with the shadow byte. -/
def scanFrom (s : Shadow) (past start : Nat) : Query ShadowError (Option Nat) :=
  if start < past then do
    let next ← Query.check (Word.add start granule)
    let touched := min past next - 1 - start
    if addressableBytes (s.ofGranule (start / granule)) ≤ touched then
      return some start
    scanFrom s past (start + granule)
  else return none
termination_by past - start
decreasing_by
  simp only [granule]
  omega

/-- Look at the granules that an access to `[addr, addr + size)` touches. -/
def scan (s : Shadow) (addr size : Nat) : Query ShadowError (Option Nat) := do
  if size = 0 then
    return none
  if !s.covers addr size then
    throw (.refused (s.outside addr size))
  scanFrom s (addr + size) (Word.roundDown addr granule)

/-- Not all bytes of a granule can be accessed as soon as there is a reason to poison it. -/
theorem addressableBytes_le_iff (b : UInt8) : addressableBytes b ≤ granule - 1 ↔ b ≠ 0 := by
  unfold addressableBytes
  by_cases hzero : b = 0
  · rw [if_pos hzero]
    exact ⟨fun hle => absurd hle (by decide), fun hne => absurd hzero hne⟩
  · rw [if_neg hzero]
    split
    · rename_i hlt
      have := UInt8.lt_iff_toNat_lt.mp hlt
      exact ⟨fun _ => hzero, fun _ => Nat.le_of_lt_succ this⟩
    · exact ⟨fun _ => hzero, fun _ => Nat.zero_le _⟩

/-- Behind the range nothing is looked at. -/
theorem scanFrom_end {past start : Nat} (hstart : past ≤ start) : scanFrom s past start = .ok none := by
  rw [scanFrom, if_neg (Nat.not_lt_of_le hstart)]
  rfl

/-- At the last granule the range may end in the middle, and so does the part that is looked at. -/
theorem scanFrom_last {past last : Nat} (hlo : last * granule < past) (hhi : past ≤ last * granule + granule) :
    scanFrom s past (last * granule) = do
      let _ ← Query.check (Word.add (last * granule) granule)
      return if addressableBytes (s.ofGranule last) ≤ past - 1 - last * granule then
        some (last * granule) else none := by
  rw [scanFrom, if_pos hlo, Nat.mul_div_cancel last (by decide)]
  unfold Word.add Word.checked
  split
  · show (if _ then _ else _ : Query ShadowError (Option Nat)) = .ok (if _ then _ else _)
    rw [Nat.min_eq_left hhi, scanFrom_end hhi]
    split <;> rfl
  · rfl

/-- A granule before the last one is looked at as a whole. -/
theorem scanFrom_before {past g : Nat} (hpast : past ≤ Word.limit) (hg : g * granule + granule < past) :
    scanFrom s past (g * granule) =
      if s.ofGranule g ≠ 0 then .ok (some (g * granule)) else scanFrom s past ((g + 1) * granule) := by
  have hadd : Word.add (g * granule) granule = .ok (g * granule + granule) :=
    Word.add_eq_ok.mpr ⟨by omega, rfl⟩
  have htouched : min past (g * granule + granule) - 1 - g * granule = granule - 1 := by
    simp only [granule] at *
    omega
  rw [scanFrom, if_pos (by omega), hadd, Nat.mul_div_cancel g (by decide), Nat.succ_mul]
  show (if addressableBytes (s.ofGranule g) ≤ min past (g * granule + granule) - 1 - g * granule then _
    else scanFrom s past (g * granule + granule) : Query ShadowError (Option Nat)) = _
  rw [htouched]
  exact if_congr (addressableBytes_le_iff _) rfl rfl

/-- The granules before the last one are searched for a reason to poison, and the last one is looked at. -/
theorem scanFrom_eq {past g last : Nat} (hpast : past ≤ Word.limit) (hlo : last * granule < past)
    (hhi : past ≤ last * granule + granule) (hle : g ≤ last) :
    scanFrom s past (g * granule) =
      match s.bytes.find? g last (· != 0) with
      | some k => .ok (some (k * granule))
      | none => do
        let _ ← Query.check (Word.add (last * granule) granule)
        return if addressableBytes (s.ofGranule last) ≤ past - 1 - last * granule then
          some (last * granule) else none := by
  -- On the number of granules that come before the last one.
  induction hn : last - g generalizing g with
  | zero =>
      obtain rfl : g = last := by omega
      have hempty : s.bytes.find? g g (· != 0) = none := by
        cases hfind : s.bytes.find? g g (· != 0) with
        | none => rfl
        | some k =>
            obtain ⟨hlo', hhi', -⟩ := RangeMap.find?_eq_some hfind
            omega
      rw [hempty, scanFrom_last hlo hhi]
  | succ n ih =>
      have hbefore : g * granule + granule < past := by
        rw [← Nat.succ_mul]
        exact Nat.lt_of_le_of_lt (Nat.mul_le_mul_right granule (by omega)) hlo
      have hspan : last ≤ RangeMap.span := by
        simp only [granule, RangeMap.span, Word.limit] at *
        omega
      rw [RangeMap.find?_step (show g < last by omega) hspan, scanFrom_before hpast hbefore,
        ih (by omega) (by omega)]
      by_cases hclear : s.ofGranule g = 0
      · have hfind : ¬ (s.bytes.get g != 0) = true := fun hne => bne_iff_ne.mp hne hclear
        rw [if_neg (not_not.mpr hclear), if_neg hfind]
      · have hfind : (s.bytes.get g != 0) = true := bne_iff_ne.mpr hclear
        rw [if_pos hclear, if_pos hfind]

/-- The search for the first bad granule finds what looking at every granule finds. -/
theorem firstBad_eq_scan (hend : s.appEnd ≤ Word.limit) : s.firstBad addr size = s.scan addr size := by
  unfold firstBad scan
  by_cases hsize : size = 0
  · rw [if_pos hsize, if_pos hsize]
  rw [if_neg hsize, if_neg hsize]
  cases hcovers : s.covers addr size with
  | false => rfl
  | true =>
      obtain ⟨-, hhi⟩ := covers_iff.mp hcovers
      have hlo : (addr + size - 1) / granule * granule < addr + size := by
        simp only [granule]
        omega
      have hpast : addr + size ≤ (addr + size - 1) / granule * granule + granule := by
        simp only [granule]
        omega
      exact (scanFrom_eq (Nat.le_trans hhi hend) hlo hpast (Nat.div_le_div_right (by omega))).symm

/-! ## Single bytes -/

theorem accessIsPoisoned_of_ok {found : Option Nat} (h : s.firstBad addr size = .ok found) :
    s.accessIsPoisoned addr size = .ok found.isSome := by
  unfold accessIsPoisoned
  rw [h]
  rfl

theorem accessIsPoisoned_of_error {e : Halt ShadowError} (h : s.firstBad addr size = .error e) :
    s.accessIsPoisoned addr size = .error e := by
  unfold accessIsPoisoned
  rw [h]
  rfl

section Byte

variable {b : Nat}

/-- A tracked byte is reported on its own exactly if its shadow byte does not let it be accessed. -/
theorem isPoisoned_answer (hend : s.appEnd + granule ≤ Word.limit)
    (hin : s.appBegin ≤ b ∧ b < s.appEnd) :
    ∃ bad, s.isPoisoned b = .ok bad ∧ (bad = true ↔ ¬ s.Addressable b) := by
  obtain ⟨bad, hbad, hiff⟩ := isPoisoned_eq hin (by omega)
  refine ⟨bad, hbad, ?_⟩
  rw [← hiff, Bool.not_eq_false]

theorem isPoisoned_eq_true_iff (hend : s.appEnd + granule ≤ Word.limit)
    (hin : s.appBegin ≤ b ∧ b < s.appEnd) : s.isPoisoned b = .ok true ↔ ¬ s.Addressable b := by
  obtain ⟨bad, hbad, hiff⟩ := isPoisoned_answer hend hin
  rw [hbad, ← hiff]
  exact ⟨Except.ok.inj, congrArg _⟩

theorem isPoisoned_eq_false_iff (hend : s.appEnd + granule ≤ Word.limit)
    (hin : s.appBegin ≤ b ∧ b < s.appEnd) : s.isPoisoned b = .ok false ↔ s.Addressable b := by
  obtain ⟨bad, hbad, hiff⟩ := isPoisoned_answer hend hin
  rw [hbad, ← not_iff_not, ← hiff, ← Bool.not_eq_false]
  exact not_congr ⟨Except.ok.inj, congrArg _⟩

end Byte

/-- The scan of a tracked access finds the granule of the lowest byte that would be reported on its own,
    or nothing if there is no such byte; a byte is reported if its shadow byte does not let it be
    accessed.  An access that leaves the tracked range is refused. -/
theorem firstBad_lowest (hend : s.appEnd + granule ≤ Word.limit) (hsize : 0 < size) :
    (s.appBegin ≤ addr ∧ addr + size ≤ s.appEnd →
      (∀ b, addr ≤ b → b < addr + size →
        ∃ bad, s.isPoisoned b = .ok bad ∧ (bad = true ↔ ¬ s.Addressable b))
      ∧ ((∃ b, IsLeast {b | addr ≤ b ∧ b < addr + size ∧ s.isPoisoned b = .ok true} b
            ∧ s.firstBad addr size = .ok (some (Word.roundDown b granule))
            ∧ s.accessIsPoisoned addr size = .ok true)
        ∨ (∀ b, addr ≤ b → b < addr + size → s.isPoisoned b = .ok false)
            ∧ s.firstBad addr size = .ok none ∧ s.accessIsPoisoned addr size = .ok false))
    ∧ (¬ (s.appBegin ≤ addr ∧ addr + size ≤ s.appEnd) →
      s.firstBad addr size = .error (.refused (.invalidRange addr size s.appBegin s.appEnd))
        ∧ s.accessIsPoisoned addr size =
          .error (.refused (.invalidRange addr size s.appBegin s.appEnd))) := by
  refine ⟨fun hin => ?_, fun hout => ?_⟩
  case refine_2 =>
    have hscan := firstBad_outside (Nat.ne_of_gt hsize) (Bool.eq_false_iff.mpr (mt covers_iff.mp hout))
    exact ⟨hscan, accessIsPoisoned_of_error hscan⟩
  have htracked : ∀ b, addr ≤ b → b < addr + size → s.appBegin ≤ b ∧ b < s.appEnd := by
    intro b hb hb'
    omega
  refine ⟨fun b hb hb' => isPoisoned_answer hend (htracked b hb hb'), ?_⟩
  rcases firstBad_scan hend (Nat.ne_of_gt hsize) (covers_iff.mpr hin) with
    ⟨_, hscan, hbefore, c, hc, hc', rfl, hnot⟩ | ⟨hscan, hclear⟩
  case inr =>
    refine .inr ⟨fun b hb hb' => ?_, hscan, accessIsPoisoned_of_ok hscan⟩
    exact (isPoisoned_eq_false_iff hend (htracked b hb hb')).mpr (hclear b hb hb')
  -- The lowest poisoned byte is not behind the one that makes the granule bad, nor before the granule.
  have hex : ∃ b, addr ≤ b ∧ b < addr + size ∧ s.isPoisoned b = .ok true :=
    ⟨c, hc, hc', (isPoisoned_eq_true_iff hend (htracked c hc hc')).mpr hnot⟩
  classical
  obtain ⟨hlow, hhigh, hpoisoned⟩ := Nat.find_spec hex
  have hle : Nat.find hex ≤ c :=
    Nat.find_min' hex ⟨hc, hc', (isPoisoned_eq_true_iff hend (htracked c hc hc')).mpr hnot⟩
  have hge : c / granule * granule ≤ Nat.find hex := by
    by_contra hlt
    exact (isPoisoned_eq_true_iff hend (htracked _ hlow hhigh)).mp hpoisoned
      (hbefore _ hlow (Nat.not_le.mp hlt))
  have hgranule : c / granule * granule = Word.roundDown (Nat.find hex) granule := by
    simp only [Word.roundDown, granule] at *
    omega
  rw [hgranule] at hscan
  exact .inl ⟨_, ⟨Nat.find_spec hex, fun b hb => Nat.find_min' hex hb⟩, hscan, accessIsPoisoned_of_ok hscan⟩

/-- An access from the middle of a granule into one with four accessible bytes: the lowest bad byte is the
    fifth of them, and without it there is none. -/
theorem firstBad_lowest_in_partial :
    ∃ s, Reached s ∧ IsLeast {b | 4107 ≤ b ∧ b < 4107 + 11 ∧ s.isPoisoned b = .ok true} 4116
      ∧ s.firstBad 4107 11 = .ok (some 4112) ∧ s.accessIsPoisoned 4107 11 = .ok true
      ∧ s.firstBad 4107 9 = .ok none := by
  obtain ⟨s, hs, hcheck⟩ := Reached.of_marked
    (show (marked 4096 64 [.unpoison 4096 20]).any
      (fun s => decide (s.appBegin = 4096 ∧ s.appEnd = 4160 ∧ s.ofGranule 513 = 0 ∧ s.ofGranule 514 = 4)) =
        true by decide +kernel)
  obtain ⟨hbegin, hend, hfull, hpartial⟩ := of_decide_eq_true hcheck
  have hroom : s.appEnd + granule ≤ Word.limit := by
    rw [hend]
    decide
  obtain ⟨hbyte, hscan⟩ := (firstBad_lowest hroom (show 0 < 11 by decide)).1
    (show s.appBegin ≤ 4107 ∧ 4107 + 11 ≤ s.appEnd by rw [hbegin, hend]; decide)
  obtain ⟨-, hscan'⟩ := (firstBad_lowest hroom (show 0 < 9 by decide)).1
    (show s.appBegin ≤ 4107 ∧ 4107 + 9 ≤ s.appEnd by rw [hbegin, hend]; decide)
  -- The first granule is all addressable, and the second up to its fourth byte.
  have hclear : ∀ b, 4107 ≤ b → b < 4116 → s.isPoisoned b = .ok false := by
    intro b hb hb'
    obtain ⟨bad, hanswer, hiff⟩ := hbyte b hb (by omega)
    have haddressable : s.Addressable b := by
      by_cases hfirst : b < 4112
      · refine addressable_of_zero ?_
        rw [show b / granule = 513 by simp only [granule]; omega, hfull]
      · unfold Addressable
        rw [show b / granule = 514 by simp only [granule]; omega, hpartial]
        show b % 8 < 4
        omega
    rw [hanswer, Bool.eq_false_iff.mpr fun h => hiff.mp h haddressable]
  have hbad : s.isPoisoned 4116 = .ok true := by
    obtain ⟨bad, hanswer, hiff⟩ := hbyte 4116 (by decide) (by decide)
    rw [hanswer, hiff.mpr]
    show ¬ 4 < addressableBytes (s.ofGranule 514)
    rw [hpartial]
    decide
  have hleast : IsLeast {b | 4107 ≤ b ∧ b < 4107 + 11 ∧ s.isPoisoned b = .ok true} 4116 := by
    refine ⟨⟨by decide, by decide, hbad⟩, fun b hb => ?_⟩
    by_contra hlt
    exact nomatch Except.ok.inj ((hclear b hb.1 (Nat.not_le.mp hlt)).symm.trans hb.2.2)
  refine ⟨s, hs, hleast, ?_⟩
  rcases hscan with ⟨b, hb, hfirst, haccess⟩ | ⟨hnone, -⟩
  · rw [hb.unique hleast] at hfirst
    refine ⟨hfirst, haccess, ?_⟩
    rcases hscan' with ⟨c, ⟨hc, -⟩, -⟩ | ⟨-, hnone, -⟩
    · exact nomatch Except.ok.inj ((hclear c hc.1 hc.2.1).symm.trans hc.2.2)
    · exact hnone
  · exact nomatch Except.ok.inj (hbad.symm.trans (hnone 4116 (by decide) (by decide)))

end GuardedHeap.Shadow
