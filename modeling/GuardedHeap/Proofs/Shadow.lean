import GuardedHeap.Proofs.Act
import GuardedHeap.Proofs.Pages
import GuardedHeap.Proofs.RangeMap
import GuardedHeap.Proofs.Rounding
import GuardedHeap.Shadow.Basic

/-! # Shadows — what marks do to single addresses

    A shadow byte speaks of eight addresses.  Here marking is told address
    by address: which addresses can be accessed after a range was poisoned
    (`addressable_poisoned`) or made accessible (`addressable_unpoisoned`),
    and which shadow byte they then have (`code_poisoned`). -/

namespace GuardedHeap.Shadow

/-- The address can be accessed, according to its shadow byte. -/
def Addressable (s : Shadow) (a : Nat) : Prop :=
  a % granule < addressableBytes (s.ofGranule (a / granule))

/-- The same range is tracked at the same place. -/
structure SameRange (s t : Shadow) : Prop where
  appBegin : t.appBegin = s.appBegin
  appEnd : t.appEnd = s.appEnd
  offset : t.offset = s.offset

/-- The shadow array is mapped, in the lower half of the address space; what it is about may lie
    anywhere. -/
structure Mapped (s : Shadow) : Prop where
  aligned : granule ∣ s.appBegin
  end_lt : s.appEnd < Word.limit
  array : ∃ array, s.offset = Word.wrapSub array (s.appBegin / granule)
    ∧ array + (s.appEnd - s.appBegin) / granule < Word.signLimit

/-- The shadow array, and all that it is about, lie in the lower half of the address space. -/
structure Placed (s : Shadow) : Prop where
  aligned : granule ∣ s.appBegin
  end_lt : s.appEnd < Word.signLimit
  array : ∃ array, s.offset = Word.wrapSub array (s.appBegin / granule)
    ∧ array + (s.appEnd - s.appBegin) / granule < Word.signLimit

/-- A shadow of the same range lies in the same place. -/
theorem Placed.kept {s t : Shadow} (h : s.Placed) (hrange : SameRange s t) : t.Placed := by
  constructor
  · rw [hrange.appBegin]
    exact h.aligned
  · rw [hrange.appEnd]
    exact h.end_lt
  · rw [hrange.appBegin, hrange.appEnd, hrange.offset]
    exact h.array

theorem Placed.mapped {s : Shadow} (h : s.Placed) : s.Mapped :=
  ⟨h.aligned, Nat.lt_trans h.end_lt (by decide), h.array⟩

theorem Mapped.kept {s t : Shadow} (h : s.Mapped) (hrange : SameRange s t) : t.Mapped := by
  constructor
  · rw [hrange.appBegin]
    exact h.aligned
  · rw [hrange.appEnd]
    exact h.end_lt
  · rw [hrange.appBegin, hrange.appEnd, hrange.offset]
    exact h.array

/-- No magic code leaves a byte addressable. -/
theorem addressableBytes_magic (m : Magic) : addressableBytes m.byte = 0 := by
  cases m <;> decide

/-- A byte below eight tells how many leading bytes can be accessed. -/
theorem addressableBytes_ofNat {n : Nat} (h : n < granule) (hne : n ≠ 0) :
    addressableBytes (UInt8.ofNat n) = n := by
  have hall : ∀ n < granule, n ≠ 0 → addressableBytes (UInt8.ofNat n) = n := by decide
  exact hall n h hne

/-- Poisoning marks the shadow of the same range. -/
theorem poisoned_sameRange (s : Shadow) (addr size : Nat) (value : UInt8) :
    SameRange s (s.poisoned addr size value) := by
  unfold poisoned
  by_cases htail : size % granule = 0
  · simp only [htail, if_true]
    exact ⟨rfl, rfl, rfl⟩
  · simp only [htail, if_false]
    exact ⟨rfl, rfl, rfl⟩

/-- The shadow byte of a granule after a range was marked. -/
theorem ofGranule_poisoned (s : Shadow) {addr size g : Nat} (value : UInt8)
    (hg : g < RangeMap.span) :
    (s.poisoned addr size value).ofGranule g =
      if addr / granule ≤ g ∧ g < addr / granule + size / granule then value
      else if g = addr / granule + size / granule ∧ size % granule ≠ 0 then
        if value = 0 then UInt8.ofNat (size % granule) else value
      else s.ofGranule g := by
  unfold poisoned
  by_cases htail : size % granule = 0
  · simp only [htail, if_true]
    show (s.bytes.fill _ _ value).get g = _
    rw [RangeMap.get_fill _ _ _ _ _ hg]
    simp [ofGranule]
  · simp only [htail, if_false]
    show ((s.bytes.fill _ _ value).set _ _).get g = _
    rw [RangeMap.get_set _ _ _ _ hg, RangeMap.get_fill _ _ _ _ _ hg]
    by_cases hlast : g = addr / granule + size / granule
    · have hnot : ¬ (addr / granule ≤ g ∧ g < addr / granule + size / granule) :=
        fun h => Nat.ne_of_lt h.2 hlast
      have hyes : g = addr / granule + size / granule ∧ size % granule ≠ 0 := ⟨hlast, htail⟩
      rw [if_pos hlast, if_neg hnot, if_pos hyes]
    · have hnot : ¬ (g = addr / granule + size / granule ∧ size % granule ≠ 0) :=
        fun h => hlast h.1
      rw [if_neg hlast, if_neg hnot]
      rfl

/-- No address of a poisoned range of whole granules can be accessed, and all others as
    before. -/
theorem addressable_poisoned (s : Shadow) {addr size a : Nat} {value : UInt8}
    (haddr : granule ∣ addr) (hsize : granule ∣ size) (hvalue : addressableBytes value = 0)
    (ha : a < Word.limit) :
    (s.poisoned addr size value).Addressable a ↔
      s.Addressable a ∧ ¬ (addr ≤ a ∧ a < addr + size) := by
  have hg : a / granule < RangeMap.span := by
    simp only [granule, RangeMap.span, Word.limit] at *
    omega
  have hin : (addr / granule ≤ a / granule ∧ a / granule < addr / granule + size / granule) ↔
      addr ≤ a ∧ a < addr + size := by
    simp only [granule] at *
    omega
  unfold Addressable
  rw [ofGranule_poisoned s value hg]
  by_cases h : addr ≤ a ∧ a < addr + size
  · rw [if_pos (hin.mpr h), hvalue]
    simp [h]
  · rw [if_neg (fun hh => h (hin.mp hh)),
      if_neg (fun hh => hh.2 (Nat.mod_eq_zero_of_dvd hsize))]
    simp only [h, not_false_eq_true, and_true]

/-- The addresses of a range made accessible can be accessed, and the others of its last granule
    cannot. -/
theorem addressable_unpoisoned (s : Shadow) {addr size a : Nat} (haddr : granule ∣ addr)
    (ha : a < Word.limit) :
    (s.poisoned addr size 0).Addressable a ↔
      (addr ≤ a ∧ a < addr + size)
      ∨ s.Addressable a ∧ ¬ (addr ≤ a ∧ a < Word.roundUp (addr + size) granule) := by
  have hg : a / granule < RangeMap.span := by
    simp only [granule, RangeMap.span, Word.limit] at *
    omega
  have hround : Word.roundUp (addr + size) granule =
      if size % granule = 0 then addr + size else addr + (size / granule + 1) * granule := by
    rw [Word.roundUp, if_neg (by decide)]
    simp only [granule] at *
    split <;> omega
  unfold Addressable
  rw [ofGranule_poisoned s 0 hg, hround]
  by_cases hfull : addr / granule ≤ a / granule ∧ a / granule < addr / granule + size / granule
  · rw [if_pos hfull]
    have hbytes : a % granule < addressableBytes 0 := Nat.mod_lt a (by decide)
    have hin : addr ≤ a ∧ a < addr + size := by
      simp only [granule] at *
      omega
    exact iff_of_true hbytes (.inl hin)
  · rw [if_neg hfull]
    by_cases hlast : a / granule = addr / granule + size / granule ∧ size % granule ≠ 0
    · -- The last granule keeps as many bytes as the range has in it.
      have hlt : size % granule < granule := Nat.mod_lt size (by decide)
      have hbytes : addressableBytes (UInt8.ofNat (size % granule)) = size % granule :=
        addressableBytes_ofNat hlt hlast.2
      rw [if_pos hlast, if_pos rfl, hbytes, if_neg hlast.2]
      simp only [granule] at *
      omega
    · rw [if_neg hlast]
      by_cases htail : size % granule = 0
      · rw [if_pos htail]
        simp only [granule] at *
        omega
      · rw [if_neg htail]
        simp only [granule] at *
        omega

/-! ## Shadow bytes -/

section Code

variable {s : Shadow} {addr size a : Nat} {value : UInt8}

/-- The shadow byte of an address. -/
def code (s : Shadow) (a : Nat) : UInt8 :=
  s.ofGranule (a / granule)

/-- A byte is addressable if the code of its granule says so. -/
theorem addressable_iff_code : s.Addressable a ↔ a % granule < addressableBytes (s.code a) := Iff.rfl

/-- Marking a range leaves the shadow bytes of other granules. -/
theorem code_poisoned_of_outside (haddr : granule ∣ addr) (ha : a < Word.limit)
    (hout : ¬ (addr ≤ a ∧ a < Word.roundUp (addr + size) granule)) :
    (s.poisoned addr size value).code a = s.code a := by
  have hg : a / granule < RangeMap.span := by
    simp only [granule, RangeMap.span, Word.limit] at *
    omega
  have hround : Word.roundUp (addr + size) granule =
      if size % granule = 0 then addr + size else addr + (size / granule + 1) * granule := by
    rw [Word.roundUp, if_neg (by decide)]
    simp only [granule] at *
    split <;> omega
  have hbefore : ¬ (addr / granule ≤ a / granule
      ∧ a / granule < addr / granule + size / granule) := by
    rw [hround] at hout
    simp only [granule] at *
    split at hout <;> omega
  have hlast : ¬ (a / granule = addr / granule + size / granule ∧ size % granule ≠ 0) := by
    rintro ⟨heq, htail⟩
    rw [hround, if_neg htail] at hout
    simp only [granule] at *
    omega
  unfold code
  rw [ofGranule_poisoned s value hg, if_neg hbefore, if_neg hlast]

/-- Every shadow byte of a range of whole granules is the one that it was marked with. -/
theorem code_poisoned (haddr : granule ∣ addr) (hsize : granule ∣ size) (ha : a < Word.limit)
    (hin : addr ≤ a ∧ a < addr + size) : (s.poisoned addr size value).code a = value := by
  have hg : a / granule < RangeMap.span := by
    simp only [granule, RangeMap.span, Word.limit] at *
    omega
  have hmid : addr / granule ≤ a / granule ∧ a / granule < addr / granule + size / granule := by
    simp only [granule] at *
    omega
  unfold code
  rw [ofGranule_poisoned s value hg, if_pos hmid]

/-- Poisoning changes no code but those of the granules in the range. -/
theorem fixes_poison (ha : a < Word.limit)
    (hout : ¬ (addr ≤ a ∧ a < Word.roundUp (addr + size) granule)) :
    Act.Fixes (·.code a) (poison addr size value) := by
  unfold poison
  by_cases hsize : size = 0
  · rw [if_pos hsize]
    exact Act.fixes_pure
  rw [if_neg hsize]
  refine Act.fixes_get_bind fun s => ?_
  by_cases hcovers : (!s.covers addr size) = true
  · rw [if_pos hcovers]
    rfl
  rw [if_neg hcovers]
  by_cases haddr : addr % granule ≠ 0
  · rw [if_pos haddr]
    rfl
  · rw [if_neg haddr]
    exact code_poisoned_of_outside (Nat.dvd_of_mod_eq_zero (not_not.mp haddr)) ha hout

end Code

/-! ## Marking -/

/-- Marking a tracked range that begins with a granule succeeds. -/
theorem ends_poison {s : Shadow} {addr size : Nat} {value : UInt8}
    {ok : Unit → Shadow → Prop} {no : ShadowError → Shadow → Prop} (haddr : granule ∣ addr)
    (hin : s.appBegin ≤ addr ∧ addr + size ≤ s.appEnd)
    (hok : ok () (s.poisoned addr size value)) : Act.Ends (poison addr size value) s ok no := by
  have hcovers : s.covers addr size = true := by simp [covers, hin]
  unfold poison
  by_cases hsize : size = 0
  · -- Nothing is marked, and `poisoned` marks nothing.
    subst hsize
    have hsame : s.poisoned addr 0 value = s := by
      simp [poisoned, fillGranules, RangeMap.fill_self]
    rw [hsame] at hok
    exact hok
  · simp only [hsize, if_false, Act.ends_bind, Act.ends_get, hcovers, Bool.not_true,
      Bool.false_eq_true, Nat.mod_eq_zero_of_dvd haddr, ne_eq, not_true_eq_false]
    exact hok

/-! ## The user's marks -/

/-- Only the shadow bytes differ. -/
theorem SameRange.of_bytes (s : Shadow) (bytes : RangeMap UInt8) : SameRange s { s with bytes } :=
  ⟨rfl, rfl, rfl⟩

theorem SameRange.trans {s t u : Shadow} (h : SameRange s t) (h' : SameRange t u) : SameRange s u :=
  ⟨h'.appBegin.trans h.appBegin, h'.appEnd.trans h.appEnd, h'.offset.trans h.offset⟩

theorem SameRange.ite {s t u : Shadow} {c : Prop} [Decidable c] (h : SameRange s t)
    (h' : SameRange s u) : SameRange s (if c then t else u) := by
  split
  · exact h
  · exact h'

theorem poisonWithin_sameRange (s : Shadow) (g fromByte toByte : Nat) :
    SameRange s (s.poisonWithin g fromByte toByte) :=
  .ite (.of_bytes s _) ⟨rfl, rfl, rfl⟩

/-- Poisoning by hand marks the shadow of the same range. -/
theorem userPoisoned_sameRange (s : Shadow) (addr size : Nat) :
    SameRange s (s.userPoisoned addr size) := by
  refine .ite (poisonWithin_sameRange s _ _ _) ?_
  have hfirst : SameRange s (if addr % granule = 0 then s
      else if s.ofGranule (addr / granule) < 8
        ∧ addr % granule < addressableBytes (s.ofGranule (addr / granule))
      then s.setGranule (addr / granule) (UInt8.ofNat (addr % granule)) else s) :=
    .ite ⟨rfl, rfl, rfl⟩ (.ite (.of_bytes s _) ⟨rfl, rfl, rfl⟩)
  exact .ite (hfirst.trans (.of_bytes _ _))
    ((hfirst.trans (.of_bytes _ _)).trans (poisonWithin_sameRange _ _ _ _))

theorem userUnpoisoned_sameRange (s : Shadow) (addr size : Nat) :
    SameRange s (s.userUnpoisoned addr size) :=
  .ite (.of_bytes s _) (.of_bytes s _)

/-- Marking for a user leaves the tracked range as it is. -/
theorem ends_markUser {mark : Shadow → Nat → Nat → Shadow} {s : Shadow} {addr size : Nat}
    (hmark : SameRange s (mark s addr size)) :
    Act.Ends (markUser mark addr size) s (fun _ t => SameRange s t) fun _ t => SameRange s t := by
  unfold markUser
  by_cases hsize : size = 0
  · rw [if_pos hsize]
    exact ⟨rfl, rfl, rfl⟩
  rw [if_neg hsize, Act.ends_bind, Act.ends_get]
  by_cases hcovers : (!s.covers addr size) = true
  · rw [if_pos hcovers, Act.ends_bind]
    exact ⟨rfl, rfl, rfl⟩
  · rw [if_neg hcovers]
    exact hmark

/-! ## Questions -/

/-- The byte at a tracked address is poisoned exactly if it cannot be accessed. -/
theorem isPoisoned_eq {s : Shadow} {a : Nat} (hin : s.appBegin ≤ a ∧ a < s.appEnd)
    (ha : a + granule < Word.limit) :
    ∃ b, s.isPoisoned a = .ok b ∧ (b = false ↔ s.Addressable a) := by
  have hcovers : s.covers a 1 = true := by simp [covers]; omega
  -- A single byte touches its own granule only.
  have hfind : s.bytes.find? (a / granule) (a / granule) (· != 0) = none := by
    cases h : s.bytes.find? (a / granule) (a / granule) (· != 0) with
    | none => rfl
    | some i =>
        obtain ⟨hlo, hhi, -⟩ := RangeMap.find?_eq_some h
        omega
  have hadd : Word.add (a / granule * granule) granule = .ok (a / granule * granule + granule) := by
    refine Word.add_eq_ok.mpr ⟨?_, rfl⟩
    simp only [granule] at *
    omega
  have hmod : a - a / granule * granule = a % granule := by
    simp only [granule]
    omega
  have hfirst : s.firstBad a 1 = .ok (if addressableBytes (s.ofGranule (a / granule)) ≤ a % granule
      then some (a / granule * granule) else none) := by
    simp only [firstBad, Nat.add_sub_cancel, hcovers, hfind, hadd, hmod, Query.check]
    rfl
  refine ⟨_, by simp only [isPoisoned, accessIsPoisoned, hfirst]; rfl, ?_⟩
  unfold Addressable
  by_cases h : addressableBytes (s.ofGranule (a / granule)) ≤ a % granule
  · simp [h]
  · simp [h, Nat.lt_of_not_le h]

/-- A shadow tracks the range that it is made for. -/
theorem endsOrStops_create {p : Pages} (begin size : Nat) :
    Act.EndsOrStops (create begin size) p
      (fun s q => s.appBegin = begin ∧ s.appEnd = begin + size
        ∧ s.Mapped ∧ Pages.Calms p q)
      fun _ _ => True := by
  unfold create
  by_cases haligned : begin % granule ≠ 0
  · rw [if_pos haligned]
    exact trivial
  rw [if_neg haligned, Act.endsOrStops_bind]
  refine (Act.ends_orRefuse.mpr ⟨fun past hpast => ?_, fun _ => trivial⟩).orStops
  obtain ⟨hend, rfl⟩ := Word.add?_eq_some.mp hpast
  rw [Act.endsOrStops_bind, Act.endsOrStops_mapError]
  unfold Pages.anonymous
  rw [Act.endsOrStops_bind, Act.endsOrStops_liftM]
  intro total htotal
  obtain ⟨-, -, rfl⟩ := Word.nextMultiple_eq_ok.mp htotal
  rw [Act.endsOrStops_bind]
  refine ((Pages.ends_map _ _).imp ?_ fun _ _ _ => trivial).orStops
  rintro array q ⟨-, hroom, hcalm⟩
  refine ⟨rfl, rfl, ⟨Nat.dvd_of_mod_eq_zero (not_not.mp haligned), hend, array, rfl, ?_⟩, hcalm⟩
  show array + (begin + size - begin) / granule < Word.signLimit
  rw [Nat.add_sub_cancel_left]
  have hround : (size + (granule - 1)) / granule ≤
      Word.roundUp (Nat.max ((size + (granule - 1)) / granule) 1) Pages.pageSize :=
    Nat.le_trans (Nat.le_max_left _ _) Word.le_roundUp
  have hdiv : size / granule ≤ (size + (granule - 1)) / granule := Nat.div_le_div_right (Nat.le_add_right _ _)
  omega

end GuardedHeap.Shadow
