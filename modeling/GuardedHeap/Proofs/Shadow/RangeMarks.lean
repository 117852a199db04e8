import GuardedHeap.Proofs.Shadow.UserMarks

/-! # Range marks — exactly which shadow bytes the allocator writes

    The allocator marks ranges that begin with a granule.  It writes the
    shadow bytes of the granules that the range touches and no others, and
    all of these lie in the shadow array: the array has one byte for every
    granule that is begun, and the offset, which may wrap around, leads from
    a tracked granule to its place in it (`MadeIn.place`).

    What is written does not depend on what was there before, so one lemma
    about a granule (`ofGranule_poisoned_of_touches`) tells the effect on
    every content, and making a range accessible after any mark of it leaves
    exactly the bytes of the range (`poison_exact`). -/

namespace GuardedHeap.Shadow

variable {s : Shadow} {array : Mapping} {addr size g : Nat} {value : UInt8}

/-! ## Where the shadow bytes are -/

/-- The shadow was made with its bytes in `array`, and what they say may have changed since. -/
def MadeIn (array : Mapping) (s : Shadow) : Prop :=
  ∃ begin size p q fresh, create begin size p = .ok fresh q
    ∧ Pages.anonymous ((size + (granule - 1)) / granule) p = .ok array q ∧ SameRange fresh s

/-- The shadow that is made, and the array it is made in. -/
theorem of_create {begin size : Nat} {p q : Pages} {fresh : Shadow}
    (h : create begin size p = .ok fresh q) :
    ∃ array, Pages.anonymous ((size + (granule - 1)) / granule) p = .ok array q
      ∧ fresh.appBegin = begin ∧ fresh.appEnd = begin + size
      ∧ fresh.offset = Word.wrapSub array.begin (begin / granule) := by
  unfold create at h
  by_cases haligned : begin % granule ≠ 0
  · rw [if_pos haligned] at h
    exact nomatch h
  rw [if_neg haligned] at h
  obtain ⟨past, p', hpast, h⟩ := Act.bind_eq_ok.mp h
  obtain ⟨hsum, rfl⟩ := Act.orRefuse_eq_ok.mp hpast
  obtain ⟨-, rfl⟩ := Word.add?_eq_some.mp hsum
  obtain ⟨array, q', harray, h⟩ := Act.bind_eq_ok.mp h
  obtain ⟨rfl, rfl⟩ := Act.pure_eq_ok.mp h
  exact ⟨array, Act.mapError_eq_ok.mp harray, rfl, rfl, rfl⟩

/-- An array that is mapped has the bytes asked for, in the lower half of the address space. -/
theorem size_le_of_anonymous {n : Nat} {p q : Pages} (h : Pages.anonymous n p = .ok array q) :
    n ≤ array.size ∧ array.endAddr < Word.signLimit := by
  unfold Pages.anonymous at h
  obtain ⟨total, p', htotal, h⟩ := Act.bind_eq_ok.mp h
  obtain ⟨hround, rfl⟩ := Act.liftM_eq_ok.mp htotal
  obtain ⟨-, -, rfl⟩ := Word.nextMultiple_eq_ok.mp hround
  obtain ⟨begin, q', hmap, h⟩ := Act.bind_eq_ok.mp h
  obtain ⟨rfl, rfl⟩ := Act.pure_eq_ok.mp h
  have hsize : n ≤ Word.roundUp (Nat.max n 1) Pages.pageSize :=
    Nat.le_trans (Nat.le_max_left n 1) Word.le_roundUp
  exact ⟨hsize, ((Pages.ends_map _ _).of_ok hmap).2.1⟩

/-- A shadow that calls lead to lies in an array. -/
theorem Reached.madeIn (h : Reached s) : ∃ array, MadeIn array s := by
  induction h with
  | create h =>
      obtain ⟨array, harray, -⟩ := of_create h
      exact ⟨array, _, _, _, _, _, h, harray, ⟨rfl, rfl, rfl⟩⟩
  | mark _ m ih =>
      obtain ⟨array, begin, size, p, q, fresh, hfresh, harray, hrange⟩ := ih
      exact ⟨array, begin, size, p, q, fresh, hfresh, harray, hrange.trans (m.sameRange _)⟩

theorem MadeIn.mapped (h : MadeIn array s) : s.Mapped := by
  obtain ⟨begin, size, p, q, fresh, hfresh, -, hrange⟩ := h
  exact ((endsOrStops_create begin size).of_ok hfresh).2.2.1.kept hrange

/-- The array has a byte for each tracked granule, those that are tracked in part included, and the
    granules have their bytes there in their order. -/
theorem MadeIn.place (h : MadeIn array s) (hlo : s.appBegin ≤ g * granule) (hhi : g * granule < s.appEnd) :
    s.toShadow (g * granule) = array.begin + (g - s.appBegin / granule)
      ∧ g - s.appBegin / granule < (s.appEnd - s.appBegin + (granule - 1)) / granule
      ∧ (s.appEnd - s.appBegin + (granule - 1)) / granule ≤ array.size := by
  have hmapped := h.mapped
  obtain ⟨begin, size, p, q, fresh, hfresh, harray, hrange⟩ := h
  obtain ⟨array', harray', hbegin, hend, hoffset⟩ := of_create hfresh
  obtain rfl : array' = array := by
    rw [harray] at harray'
    injection harray' with heq
    exact heq.symm
  rw [← hrange.appBegin] at hbegin
  rw [← hrange.appEnd] at hend
  rw [← hrange.offset, ← hbegin] at hoffset
  obtain ⟨hbytes, hplaced⟩ := size_le_of_anonymous harray
  have hsize : s.appEnd - s.appBegin = size := by omega
  have haligned := hmapped.aligned
  have hroom : array'.begin + (s.appEnd - s.appBegin) / granule < Word.signLimit := by
    have hdiv : size / granule ≤ (size + (granule - 1)) / granule :=
      Nat.div_le_div_right (Nat.le_add_right _ _)
    unfold Mapping.endAddr at hplaced
    rw [hsize]
    omega
  refine ⟨?_, ?_, hsize ▸ hbytes⟩
  · rw [hmapped.toShadow_of_offset hoffset hroom hlo hhi]
    simp only [granule] at *
    omega
  · simp only [granule] at *
    omega

/-! ## Touched granules -/

/-- The granule has a byte of `[addr, addr + size)`. -/
def Touches (addr size g : Nat) : Prop :=
  ∃ b, addr ≤ b ∧ b < addr + size ∧ b / granule = g

/-- The granules that a range touches begin with its own first one. -/
theorem touches_iff (haddr : granule ∣ addr) :
    Touches addr size g ↔ addr ≤ g * granule ∧ g * granule < addr + size := by
  rcases Nat.eq_zero_or_pos size with rfl | hsize
  · exact iff_of_false (fun ⟨b, hlo, hhi, _⟩ => absurd hhi (Nat.not_lt.mpr hlo)) (by omega)
  · unfold Touches
    rw [meets_iff hsize]
    simp only [granule] at *
    omega

theorem Touches.size_pos (h : Touches addr size g) : 0 < size := by
  obtain ⟨b, hlo, hhi, -⟩ := h
  omega

/-- The shadow byte that a touched granule gets: the last one of an accessible range keeps count of its
    bytes in the range. -/
theorem ofGranule_poisoned_of_touches (s : Shadow) (value : UInt8) (haddr : granule ∣ addr)
    (hg : g < RangeMap.span) (h : Touches addr size g) :
    (s.poisoned addr size value).ofGranule g =
      if value = 0 then byteOfValid (min (addr + size - g * granule) granule) else value := by
  obtain ⟨hlo, hhi⟩ := (touches_iff haddr).mp h
  rw [ofGranule_poisoned s value hg]
  by_cases hfull : addr / granule ≤ g ∧ g < addr / granule + size / granule
  · have hwhole : granule ≤ addr + size - g * granule := by
      simp only [granule] at *
      omega
    rw [if_pos hfull, Nat.min_eq_right hwhole]
    split
    · rename_i hzero
      rw [hzero]
      rfl
    · rfl
  · have htail : addr + size - g * granule = size % granule ∧ size % granule < granule := by
      simp only [granule] at *
      omega
    rw [if_neg hfull, if_pos (by simp only [granule] at *; omega), htail.1,
      Nat.min_eq_left (Nat.le_of_lt htail.2), byteOfValid, if_neg (Nat.ne_of_lt htail.2)]

theorem ofGranule_poisoned_of_not_touches (s : Shadow) (value : UInt8) (haddr : granule ∣ addr)
    (hg : g < RangeMap.span) (h : ¬ Touches addr size g) :
    (s.poisoned addr size value).ofGranule g = s.ofGranule g := by
  rw [touches_iff haddr] at h
  rw [ofGranule_poisoned s value hg, if_neg (by simp only [granule] at *; omega),
    if_neg (by simp only [granule] at *; omega)]

/-- A range made accessible has all of its bytes, and no other byte of a granule that it touches. -/
theorem addressable_unpoisoned_of_touches (s : Shadow) {b : Nat} (haddr : granule ∣ addr)
    (hb : b / granule < RangeMap.span) (h : Touches addr size (b / granule)) :
    (s.poisoned addr size 0).Addressable b ↔ addr ≤ b ∧ b < addr + size := by
  obtain ⟨hlo, hhi⟩ := (touches_iff haddr).mp h
  unfold Addressable
  rw [ofGranule_poisoned_of_touches s 0 haddr hb h, if_pos rfl,
    addressableBytes_byteOfValid (Nat.lt_min.mpr ⟨Nat.sub_pos_of_lt hhi, by decide⟩) (Nat.min_le_right _ _)]
  simp only [granule] at *
  omega

/-! ## Requests -/

/-- What a request to mark a range does, outcome by outcome. -/
theorem poison_eq (s : Shadow) (addr size : Nat) (value : UInt8) :
    poison addr size value s =
      if size = 0 then .ok () s
      else if ¬ (s.appBegin ≤ addr ∧ addr + size ≤ s.appEnd) then
        .error (.refused (.invalidRange addr size s.appBegin s.appEnd)) s
      else if ¬ granule ∣ addr then .error (.refused (.unaligned addr)) s
      else .ok () (s.poisoned addr size value) := by
  unfold poison
  by_cases hsize : size = 0
  · rw [if_pos hsize, if_pos hsize]
    rfl
  rw [if_neg hsize, if_neg hsize]
  show (if (!s.covers addr size) = true then _ else _ : Act ShadowError Shadow Unit) s = _
  by_cases hin : s.appBegin ≤ addr ∧ addr + size ≤ s.appEnd
  case neg =>
    rw [if_pos hin, if_pos (by rw [Bool.eq_false_iff.mpr (mt covers_iff.mp hin)]; rfl)]
    rfl
  rw [if_neg (not_not.mpr hin), if_neg (by rw [covers_iff.mpr hin]; decide)]
  show (if addr % granule ≠ 0 then _ else _ : Act ShadowError Shadow Unit) s = _
  by_cases haddr : granule ∣ addr
  · rw [if_neg (not_not.mpr haddr), if_neg (not_not.mpr (Nat.mod_eq_zero_of_dvd haddr))]
    rfl
  · rw [if_pos haddr, if_pos (mt Nat.dvd_of_mod_eq_zero haddr)]
    rfl

/-- A range that is marked below the last word is made accessible without what it shares granules with. -/
theorem unpoison_of_poison {t : Shadow} (hend : s.appEnd < Word.limit) {mark : UInt8}
    (h : poison addr size mark s = .ok () t) :
    ∃ u, unpoison addr size t = .ok () u ∧ ∀ b, Touches addr size (b / granule) →
      (u.Addressable b ↔ addr ≤ b ∧ b < addr + size) := by
  rw [poison_eq] at h
  unfold unpoison
  by_cases hsize : size = 0
  · refine ⟨t, by rw [poison_eq, if_pos hsize], fun b hb => ?_⟩
    exact absurd hb.size_pos (by omega)
  rw [if_neg hsize] at h
  by_cases hin : s.appBegin ≤ addr ∧ addr + size ≤ s.appEnd
  case neg =>
    rw [if_pos hin] at h
    exact nomatch h
  rw [if_neg (not_not.mpr hin)] at h
  by_cases haddr : granule ∣ addr
  case neg =>
    rw [if_pos haddr] at h
    exact nomatch h
  rw [if_neg (not_not.mpr haddr)] at h
  cases h
  -- The mark has left the range and its alignment as they were, so that it is accepted again.
  have hrange := poisoned_sameRange s addr size mark
  refine ⟨(s.poisoned addr size mark).poisoned addr size 0, ?_, fun b hb => ?_⟩
  · rw [poison_eq, if_neg hsize, if_neg (not_not.mpr (by rwa [hrange.appBegin, hrange.appEnd])),
      if_neg (not_not.mpr haddr)]
  · refine addressable_unpoisoned_of_touches _ haddr ?_ hb
    obtain ⟨a, -, hhi, heq⟩ := hb
    exact heq ▸ div_granule_lt_span (by omega)

/-- Marks are made exactly on tracked ranges that begin with a granule; any other request is refused with
    the reason, and nothing changes.  A poisoned range takes the granules that it touches as a whole, an
    accessible one leaves exactly its own bytes in them; no other granule changes, and the bytes written
    lie in the array.  Whatever mark a range got, making it accessible afterwards leaves exactly its bytes
    in the granules that it touches. -/
theorem poison_exact (h : MadeIn array s) (hvalue : value = 0 ∨ 8 ≤ value) :
    (size = 0 → poison addr size value s = .ok () s)
    ∧ (0 < size → ¬ (s.appBegin ≤ addr ∧ addr + size ≤ s.appEnd) ∨ Word.limit ≤ addr + size →
      poison addr size value s = .error (.refused (.invalidRange addr size s.appBegin s.appEnd)) s)
    ∧ (0 < size → s.appBegin ≤ addr ∧ addr + size ≤ s.appEnd → ¬ granule ∣ addr →
      poison addr size value s = .error (.refused (.unaligned addr)) s)
    ∧ (0 < size → s.appBegin ≤ addr ∧ addr + size ≤ s.appEnd → granule ∣ addr →
      ∃ t, poison addr size value s = .ok () t ∧ SameRange s t
        ∧ (8 ≤ value → ∀ g, Touches addr size g →
          t.ofGranule g = value ∧ ∀ b, b / granule = g → ¬ t.Addressable b)
        ∧ (value = 0 → ∀ b, Touches addr size (b / granule) →
          (t.Addressable b ↔ addr ≤ b ∧ b < addr + size))
        ∧ (∀ g < RangeMap.span, ¬ Touches addr size g → t.ofGranule g = s.ofGranule g)
        ∧ ∀ g, Touches addr size g →
          s.appBegin ≤ g * granule ∧ g * granule < s.appEnd
          ∧ s.toShadow (g * granule) = array.begin + (g - s.appBegin / granule)
          ∧ g - s.appBegin / granule < (s.appEnd - s.appBegin + (granule - 1)) / granule
          ∧ (s.appEnd - s.appBegin + (granule - 1)) / granule ≤ array.size)
    ∧ ∀ mark t, poison addr size mark s = .ok () t →
      ∃ u, unpoison addr size t = .ok () u ∧ ∀ b, Touches addr size (b / granule) →
        (u.Addressable b ↔ addr ≤ b ∧ b < addr + size) := by
  have hend := h.mapped.end_lt
  have hspan : addr + size ≤ s.appEnd → ∀ g, Touches addr size g → g < RangeMap.span := by
    rintro hin g ⟨b, -, hhi, rfl⟩
    exact div_granule_lt_span (by omega)
  refine ⟨fun hsize => ?_, fun hsize hout => ?_, fun hsize hin haddr => ?_, fun hsize hin haddr => ?_,
    fun _ _ ht => unpoison_of_poison hend ht⟩
  · rw [poison_eq, if_pos hsize]
  · rw [poison_eq, if_neg (Nat.ne_of_gt hsize), if_pos (by omega)]
  · rw [poison_eq, if_neg (Nat.ne_of_gt hsize), if_neg (not_not.mpr hin), if_pos haddr]
  -- What is left is a range of granules that is marked.
  · refine ⟨s.poisoned addr size value, ?_, poisoned_sameRange s addr size value, fun hmagic g hg => ?_,
      fun hzero b hb => ?_, fun g hg hother => ?_, fun g hg => ?_⟩
    · rw [poison_eq, if_neg (Nat.ne_of_gt hsize), if_neg (not_not.mpr hin), if_neg (not_not.mpr haddr)]
    · have hne : value ≠ 0 := by
        rintro rfl
        exact absurd hmagic (by decide)
      have hbyte : (s.poisoned addr size value).ofGranule g = value := by
        rw [ofGranule_poisoned_of_touches s value haddr (hspan hin.2 g hg) hg, if_neg hne]
      refine ⟨hbyte, ?_⟩
      rintro b rfl haccess
      unfold Addressable at haccess
      rw [hbyte, addressableBytes_of_not_lt (UInt8.not_lt.mpr hmagic)] at haccess
      exact Nat.not_lt_zero _ haccess
    · subst hzero
      exact addressable_unpoisoned_of_touches s haddr (hspan hin.2 _ hb) hb
    · exact ofGranule_poisoned_of_not_touches s value haddr hg hother
    · obtain ⟨hlo, hhi⟩ := (touches_iff haddr).mp hg
      have htracked : s.appBegin ≤ g * granule ∧ g * granule < s.appEnd := by omega
      exact ⟨htracked.1, htracked.2, h.place htracked.1 htracked.2⟩

/-- A range that ends with the tracked one, inside of a granule: poisoned as a whole, its bytes are given
    back without the rest of the granule, and the byte written for that granule is the last of the array.
    One byte more, an address inside of a granule, or an end behind the last word is refused. -/
theorem poison_exact_at_end :
    ∃ s array t u, MadeIn array s ∧ s.Addressable 4156
      ∧ poison 4144 13 0xfd s = .ok () t ∧ t.ofGranule 519 = 0xfd ∧ ¬ t.Addressable 4156
      ∧ unpoison 4144 13 t = .ok () u ∧ u.Addressable 4156 ∧ ¬ u.Addressable 4157
      ∧ s.toShadow (519 * granule) = array.begin + 7
      ∧ poison 4144 14 0xfd s = .error (.refused (.invalidRange 4144 14 4096 4157)) s
      ∧ poison 4145 8 0xfd s = .error (.refused (.unaligned 4145)) s
      ∧ poison 4104 Word.max 0 s = .error (.refused (.invalidRange 4104 Word.max 4096 4157)) s := by
  obtain ⟨s, hs, hcheck⟩ := Reached.of_marked
    (show (marked 4096 61 [.poison 4096 16 (some .heapFreed)]).any
      (fun s => decide (s.appBegin = 4096 ∧ s.appEnd = 4157 ∧ s.ofGranule 519 = 0)) = true by decide +kernel)
  obtain ⟨hbegin, hend, hfresh⟩ := of_decide_eq_true hcheck
  obtain ⟨array, harray⟩ := hs.madeIn
  have hmagic : (0xfd : UInt8) = 0 ∨ 8 ≤ (0xfd : UInt8) := by decide
  have htouches : Touches 4144 13 519 := ⟨4156, by decide, by decide, by decide⟩
  obtain ⟨-, -, -, hmarks, hback⟩ := @poison_exact s array 4144 13 0xfd harray hmagic
  obtain ⟨t, ht, -, htaken, -, -, hplace⟩ := hmarks (by decide) (by rw [hbegin, hend]; decide) (by decide)
  obtain ⟨u, hu, hbytes⟩ := hback _ t ht
  obtain ⟨hbyte, hblocked⟩ := htaken (by decide) 519 htouches
  have hlast := (hplace 519 htouches).2.2.1
  have houtside := (@poison_exact s array 4144 14 0xfd harray hmagic).2.1 (by decide)
    (.inl (by rw [hbegin, hend]; decide))
  have hunaligned := (@poison_exact s array 4145 8 0xfd harray hmagic).2.2.1 (by decide)
    (by rw [hbegin, hend]; decide) (by decide)
  have hoverflow := (@poison_exact s array 4104 Word.max 0 harray (.inl rfl)).2.1 (by decide)
    (.inr (by decide))
  rw [hbegin] at hlast
  rw [hbegin, hend] at houtside hoverflow
  refine ⟨s, array, t, u, harray, addressable_of_zero hfresh, ht, hbyte, hblocked 4156 (by decide), hu,
    (hbytes 4156 htouches).mpr (by decide), fun h => ?_, hlast, houtside, hunaligned, hoverflow⟩
  exact absurd ((hbytes 4157 htouches).mp h).2 (by decide)

end GuardedHeap.Shadow
