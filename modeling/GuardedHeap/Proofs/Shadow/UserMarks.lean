import GuardedHeap.Proofs.Shadow.Scan

/-! # User marks — exactly which bytes a user poisons and makes accessible

    A shadow byte can only tell how many leading bytes of a granule are
    accessible, so a user's mark does not always do what it asks for.
    Both marks are first told granule by granule (`ofGranule_userPoisoned`,
    `ofGranule_userUnpoisoned`): whole granules get a fixed byte, and those
    that the range covers in part are cut (`cut`) or widened (`widen`).
    From there on they are told byte by byte.

    Poisoning takes every byte of the range, unless the range ends inside
    a granule and a byte behind its end can be accessed: then what it has
    in that granule is spared (`poisonUser_exact`).  Making accessible
    begins with the granule of the first byte, and after poisoning a range
    that was accessible it gives back the shadow that there was
    (`unpoisonUser_exact`). -/

namespace GuardedHeap.Shadow

/-! ## One granule -/

section Code

variable {k : UInt8} {n fromByte toByte i : Nat}

/-- The shadow byte of a granule of which the bytes `[fromByte, toByte)` are poisoned: it stays as it
    is if there is an accessible byte behind them. -/
def cut (k : UInt8) (fromByte toByte : Nat) : UInt8 :=
  if k < 8 ∧ addressableBytes k ≤ toByte then
    let keep := min fromByte (addressableBytes k)
    if keep = 0 then Magic.userPoisoned.byte else UInt8.ofNat keep
  else k

/-- The shadow byte of a granule whose first `toByte` bytes are made accessible. -/
def widen (k : UInt8) (toByte : Nat) : UInt8 :=
  byteOfValid (if k < 8 then max (addressableBytes k) toByte else toByte)

/-- The bytes below eight are those of granules with an accessible byte. -/
theorem addressableBytes_pos_iff : 0 < addressableBytes k ↔ k < 8 := by
  unfold addressableBytes
  by_cases hzero : k = 0
  · rw [if_pos hzero, hzero]
    decide
  · rw [if_neg hzero]
    by_cases hlt : k < 8
    · rw [if_pos hlt]
      refine iff_of_true (Nat.pos_of_ne_zero fun h => hzero ?_) hlt
      exact UInt8.toNat_inj.mp h
    · rw [if_neg hlt]
      exact iff_of_false (Nat.lt_irrefl 0) hlt

theorem addressableBytes_of_not_lt (h : ¬ k < 8) : addressableBytes k = 0 :=
  Nat.eq_zero_of_not_pos (mt addressableBytes_pos_iff.mp h)

theorem addressableBytes_byteOfValid (hpos : 0 < n) (hle : n ≤ granule) :
    addressableBytes (byteOfValid n) = n := by
  unfold byteOfValid
  by_cases hall : n = granule
  · rw [if_pos hall, hall]
    rfl
  · rw [if_neg hall]
    exact addressableBytes_ofNat (Nat.lt_of_le_of_ne hle hall) (Nat.ne_of_gt hpos)

/-- A byte that tells a count is told by its count. -/
theorem byteOfValid_addressableBytes (h : k < 8) : byteOfValid (addressableBytes k) = k := by
  unfold addressableBytes
  by_cases hzero : k = 0
  · rw [if_pos hzero, hzero]
    rfl
  · rw [if_neg hzero, if_pos h, byteOfValid, if_neg]
    · exact UInt8.ofNat_toNat
    · exact Nat.ne_of_lt (UInt8.lt_iff_toNat_lt.mp h)

/-- A cut takes what it is meant to take, or nothing. -/
theorem lt_cut (hfrom : fromByte < granule) :
    i < addressableBytes (cut k fromByte toByte) ↔
      i < addressableBytes k ∧ (fromByte ≤ i ∧ i < toByte → toByte < addressableBytes k) := by
  have hle := addressableBytes_le k
  unfold cut
  by_cases hcut : k < 8 ∧ addressableBytes k ≤ toByte
  · rw [if_pos hcut]
    dsimp only
    by_cases hkeep : min fromByte (addressableBytes k) = 0
    · rw [if_pos hkeep, addressableBytes_magic]
      omega
    · rw [if_neg hkeep, addressableBytes_ofNat (by omega) hkeep]
      omega
  · rw [if_neg hcut]
    refine ⟨fun hi => ⟨hi, fun _ => ?_⟩, fun h => h.1⟩
    have hlt : k < 8 := addressableBytes_pos_iff.mp (Nat.lt_of_le_of_lt (Nat.zero_le i) hi)
    exact Nat.not_le.mp fun h => hcut ⟨hlt, h⟩

/-- Widening adds what it is meant to add. -/
theorem lt_widen (hpos : 0 < toByte) (hto : toByte < granule) :
    i < addressableBytes (widen k toByte) ↔ i < addressableBytes k ∨ i < toByte := by
  have hle := addressableBytes_le k
  unfold widen
  by_cases hlt : k < 8
  · rw [if_pos hlt, addressableBytes_byteOfValid (by omega) (by omega)]
    omega
  · rw [if_neg hlt, addressableBytes_byteOfValid hpos (Nat.le_of_lt hto), addressableBytes_of_not_lt hlt]
    omega

/-- Where a cut reaches the end of the granule, how far it goes on does not matter. -/
theorem cut_of_le (hto : granule ≤ toByte) : cut k fromByte toByte = cut k fromByte granule := by
  have hle := addressableBytes_le k
  unfold cut
  refine if_congr (and_congr_right fun _ => ?_) rfl rfl
  exact iff_of_true (Nat.le_trans hle hto) hle

/-- A cut that keeps some bytes and reaches the end of the granule writes their number, if there were
    more. -/
theorem cut_granule (hpos : 0 < fromByte) (hfrom : fromByte < granule) :
    cut k fromByte granule =
      if k < 8 ∧ fromByte < addressableBytes k then UInt8.ofNat fromByte else k := by
  unfold cut
  by_cases hlt : k < 8
  · have hcount := addressableBytes_pos_iff.mpr hlt
    rw [if_pos ⟨hlt, addressableBytes_le k⟩]
    dsimp only
    rw [if_neg (by omega)]
    by_cases hmore : fromByte < addressableBytes k
    · rw [if_pos ⟨hlt, hmore⟩, Nat.min_eq_left (Nat.le_of_lt hmore)]
    · -- The byte told fewer, and tells them still.
      have hle : addressableBytes k ≤ fromByte := Nat.not_lt.mp hmore
      rw [if_neg fun h => hmore h.2, Nat.min_eq_right hle]
      have hsame := byteOfValid_addressableBytes hlt
      rwa [byteOfValid, if_neg (Nat.ne_of_lt (Nat.lt_of_le_of_lt hle hfrom))] at hsame
  · rw [if_neg fun h => hlt h.1, if_neg fun h => hlt h.1]

/-- Bytes that could be accessed are given back by widening. -/
theorem widen_cut (hfrom : fromByte < toByte) (hto : toByte < granule) (h : toByte ≤ addressableBytes k) :
    widen (cut k fromByte toByte) toByte = k := by
  have hlt : k < 8 := addressableBytes_pos_iff.mp (by omega)
  by_cases hmore : toByte < addressableBytes k
  · rw [cut, if_neg fun hcut => Nat.not_le.mpr hmore hcut.2, widen, if_pos hlt,
      Nat.max_eq_left (Nat.le_of_lt hmore)]
    exact byteOfValid_addressableBytes hlt
  · obtain heq : addressableBytes k = toByte := by omega
    have hback : byteOfValid toByte = k := heq ▸ byteOfValid_addressableBytes hlt
    rw [cut, if_pos ⟨hlt, Nat.le_of_eq heq⟩, heq, Nat.min_eq_left (Nat.le_of_lt hfrom)]
    dsimp only
    by_cases hnone : fromByte = 0
    · rw [if_pos hnone, widen, if_neg (by decide), hback]
    · have hkept : addressableBytes (UInt8.ofNat fromByte) = fromByte :=
        addressableBytes_ofNat (Nat.lt_trans hfrom hto) hnone
      rw [if_neg hnone, widen, if_pos (addressableBytes_pos_iff.mp (by omega)), hkept,
        Nat.max_eq_right (Nat.le_of_lt hfrom), hback]

end Code

/-! ## All granules -/

section Granules

variable {s : Shadow} {addr size g : Nat}

theorem ofGranule_setGranule (g' : Nat) (k : UInt8) (hg : g < RangeMap.span) :
    (s.setGranule g' k).ofGranule g = if g = g' then k else s.ofGranule g :=
  RangeMap.get_set s.bytes g' k g hg

theorem ofGranule_fillGranules (lo hi : Nat) (k : UInt8) (hg : g < RangeMap.span) :
    (s.fillGranules lo hi k).ofGranule g = if lo ≤ g ∧ g < hi then k else s.ofGranule g :=
  RangeMap.get_fill s.bytes lo hi k g hg

theorem ofGranule_poisonWithin (g' fromByte toByte : Nat) (hg : g < RangeMap.span) :
    (s.poisonWithin g' fromByte toByte).ofGranule g =
      if g = g' then cut (s.ofGranule g') fromByte toByte else s.ofGranule g := by
  unfold poisonWithin cut
  dsimp only
  by_cases hcut : s.ofGranule g' < 8 ∧ addressableBytes (s.ofGranule g') ≤ toByte
  · rw [if_pos hcut, if_pos hcut, ofGranule_setGranule g' _ hg]
  · rw [if_neg hcut, if_neg hcut]
    split
    · rename_i heq
      rw [heq]
    · rfl

/-- The first granule of a range loses the bytes from `fromByte` on, if there are any before them. -/
theorem ofGranule_head (s : Shadow) (first : Nat) {fromByte : Nat} (hfrom : fromByte < granule)
    (hg : g < RangeMap.span) :
    (if fromByte = 0 then s
      else if s.ofGranule first < 8 ∧ fromByte < addressableBytes (s.ofGranule first)
      then s.setGranule first (UInt8.ofNat fromByte) else s).ofGranule g =
      if g = first ∧ fromByte ≠ 0 then cut (s.ofGranule first) fromByte granule else s.ofGranule g := by
  by_cases hnone : fromByte = 0
  · rw [if_pos hnone, if_neg fun h => h.2 hnone]
  rw [if_neg hnone, cut_granule (Nat.pos_of_ne_zero hnone) hfrom]
  by_cases hmore : s.ofGranule first < 8 ∧ fromByte < addressableBytes (s.ofGranule first)
  · rw [if_pos hmore, if_pos hmore, ofGranule_setGranule _ _ hg]
    exact if_congr (and_iff_left hnone).symm rfl rfl
  · rw [if_neg hmore, if_neg hmore]
    split
    · rename_i heq
      rw [heq.1]
    · rfl

/-- The last granule of a range loses the bytes up to `toByte`, if it is not whole. -/
theorem ofGranule_tail (s : Shadow) (last toByte : Nat) (hg : g < RangeMap.span) :
    (if toByte = 0 then s else s.poisonWithin last 0 toByte).ofGranule g =
      if g = last ∧ toByte ≠ 0 then cut (s.ofGranule g) 0 toByte else s.ofGranule g := by
  by_cases hwhole : toByte = 0
  · rw [if_pos hwhole, if_neg fun h => h.2 hwhole]
  · rw [if_neg hwhole, ofGranule_poisonWithin _ _ _ hg]
    by_cases heq : g = last
    · rw [if_pos heq, if_pos ⟨heq, hwhole⟩, heq]
    · rw [if_neg heq, if_neg fun h => heq h.1]

/-- A range inside of one granule takes bytes from this one. -/
theorem ofGranule_inside (s : Shadow) (hsize : 0 < size) (hsingle : addr / granule = (addr + size) / granule)
    (hg : g < RangeMap.span) :
    (s.poisonWithin (addr / granule) (addr % granule) ((addr + size) % granule)).ofGranule g =
      if addr < (g + 1) * granule ∧ g * granule < addr + size then
        cut (s.ofGranule g) (addr - g * granule) (addr + size - g * granule)
      else s.ofGranule g := by
  have hmeets : g = addr / granule ↔ addr < (g + 1) * granule ∧ g * granule < addr + size := by
    simp only [granule] at *
    omega
  rw [ofGranule_poisonWithin _ _ _ hg]
  refine ite_congr (propext hmeets) (fun h => ?_) fun _ => rfl
  obtain rfl := hmeets.mpr h
  congr 1
  all_goals
    simp only [granule] at *
    omega

/-- The shadow byte of a granule after a user has poisoned a range: whole granules are poisoned, the
    others that the range meets are cut. -/
theorem ofGranule_userPoisoned (s : Shadow) (addr : Nat) (hsize : 0 < size) (hg : g < RangeMap.span) :
    (s.userPoisoned addr size).ofGranule g =
      if addr ≤ g * granule ∧ (g + 1) * granule ≤ addr + size then Magic.userPoisoned.byte
      else if addr < (g + 1) * granule ∧ g * granule < addr + size then
        cut (s.ofGranule g) (addr - g * granule) (addr + size - g * granule)
      else s.ofGranule g := by
  unfold userPoisoned
  dsimp only
  by_cases hsingle : addr / granule = (addr + size) / granule
  · -- Such a range never takes the granule as a whole.
    have hpart : ¬ (addr ≤ g * granule ∧ (g + 1) * granule ≤ addr + size) := by
      simp only [granule] at *
      omega
    rw [if_pos hsingle, if_neg hpart]
    exact ofGranule_inside s hsize hsingle hg
  rw [if_neg hsingle]
  have hhead := fun g (hg : g < RangeMap.span) =>
    ofGranule_head s (addr / granule) (Nat.mod_lt addr (show 0 < granule by decide)) hg
  generalize (if addr % granule = 0 then s else _ : Shadow) = headed at hhead ⊢
  have hfill : ∀ g < RangeMap.span,
      (headed.fillGranules (if addr % granule = 0 then addr / granule else addr / granule + 1)
        ((addr + size) / granule) Magic.userPoisoned.byte).ofGranule g =
      if addr ≤ g * granule ∧ g < (addr + size) / granule then Magic.userPoisoned.byte
      else headed.ofGranule g := by
    intro g hg
    rw [ofGranule_fillGranules _ _ _ hg]
    refine if_congr (and_congr_left fun _ => ?_) rfl rfl
    simp only [granule]
    split <;> omega
  generalize headed.fillGranules _ _ _ = filled at hfill ⊢
  rw [ofGranule_tail filled _ _ hg, hfill g hg, hhead g hg]
  -- What remains is where the granule lies.
  by_cases hwhole : addr ≤ g * granule ∧ (g + 1) * granule ≤ addr + size
  · rw [if_pos hwhole, if_neg (by simp only [granule] at *; omega),
      if_pos (by simp only [granule] at *; omega)]
  rw [if_neg hwhole]
  by_cases htail : g = (addr + size) / granule ∧ (addr + size) % granule ≠ 0
  · rw [if_pos htail, if_neg (by simp only [granule] at *; omega),
      if_neg (by simp only [granule] at *; omega), if_pos (by simp only [granule] at *; omega)]
    congr 1 <;> simp only [granule] at * <;> omega
  rw [if_neg htail, if_neg (by simp only [granule] at *; omega)]
  by_cases hfirst : g = addr / granule ∧ addr % granule ≠ 0
  · rw [if_pos hfirst, if_pos (by simp only [granule] at *; omega),
      cut_of_le (show granule ≤ addr + size - g * granule by simp only [granule] at *; omega), hfirst.1]
    congr 1
    simp only [granule]
    omega
  · rw [if_neg hfirst, if_neg (by simp only [granule] at *; omega)]

/-- The shadow byte of a granule after a user has made a range accessible: from its first granule on all
    granules are accessible, and the last one is widened if it is not whole. -/
theorem ofGranule_userUnpoisoned (s : Shadow) (addr size : Nat) (hg : g < RangeMap.span) :
    (s.userUnpoisoned addr size).ofGranule g =
      if addr / granule ≤ g ∧ (g + 1) * granule ≤ addr + size then 0
      else if g = (addr + size) / granule ∧ (addr + size) % granule ≠ 0 then
        widen (s.ofGranule g) ((addr + size) % granule)
      else s.ofGranule g := by
  have hbefore : (addr / granule ≤ g ∧ (g + 1) * granule ≤ addr + size) ↔
      addr / granule ≤ g ∧ g < (addr + size) / granule := by
    simp only [granule]
    omega
  rw [if_congr hbefore rfl rfl]
  unfold userUnpoisoned
  dsimp only
  by_cases hwhole : (addr + size) % granule = 0
  · rw [if_pos hwhole, ofGranule_fillGranules _ _ _ hg]
    simp only [hwhole, ne_eq, not_true_eq_false, and_false, if_false]
  rw [if_neg hwhole, ofGranule_setGranule _ _ hg]
  by_cases hlast : g = (addr + size) / granule
  · subst hlast
    have hkept : (s.fillGranules (addr / granule) ((addr + size) / granule) 0).ofGranule
        ((addr + size) / granule) = s.ofGranule ((addr + size) / granule) := by
      rw [ofGranule_fillGranules _ _ _ hg, if_neg fun h => Nat.lt_irrefl _ h.2]
    rw [if_pos rfl, hkept]
    exact ((if_neg fun h => Nat.lt_irrefl _ h.2).trans (if_pos ⟨rfl, hwhole⟩)).symm
  · rw [if_neg hlast, ofGranule_fillGranules _ _ _ hg]
    exact if_congr Iff.rfl rfl (if_neg fun h => hlast h.1).symm

end Granules

/-! ## Single bytes -/

section Bytes

variable {s : Shadow} {addr size finish b g : Nat}

/-- The byte is spared by a range that ends at `finish`: the range ends inside of its granule, and with
    an accessible byte behind it. -/
def Spares (s : Shadow) (finish b : Nat) : Prop :=
  finish % granule ≠ 0 ∧ b / granule = finish / granule
    ∧ finish % granule < addressableBytes (s.ofGranule (finish / granule))

theorem div_granule_lt_span (hb : b < Word.limit) : b / granule < RangeMap.span :=
  Nat.lt_of_le_of_lt (Nat.div_le_self b granule) hb

/-- A range of bytes meets a granule exactly if it begins before its end and ends behind its begin. -/
theorem meets_iff (hsize : 0 < size) :
    (∃ b, addr ≤ b ∧ b < addr + size ∧ b / granule = g) ↔
      addr < (g + 1) * granule ∧ g * granule < addr + size := by
  constructor
  · rintro ⟨b, hlo, hhi, rfl⟩
    simp only [granule]
    omega
  · intro h
    refine ⟨max addr (g * granule), Nat.le_max_left _ _, ?_, ?_⟩
    all_goals
      simp only [granule] at *
      omega

/-- Poisoning a range takes its bytes, but for the spared ones. -/
theorem addressable_userPoisoned (hsize : 0 < size) (hb : b < Word.limit) :
    (s.userPoisoned addr size).Addressable b ↔
      s.Addressable b ∧ (addr ≤ b ∧ b < addr + size → s.Spares (addr + size) b) := by
  unfold Addressable Spares
  rw [ofGranule_userPoisoned s addr hsize (div_granule_lt_span hb)]
  by_cases hwhole : addr ≤ b / granule * granule ∧ (b / granule + 1) * granule ≤ addr + size
  · rw [if_pos hwhole, addressableBytes_magic]
    simp only [granule] at *
    omega
  rw [if_neg hwhole]
  by_cases hmeets : addr < (b / granule + 1) * granule ∧ b / granule * granule < addr + size
  case neg =>
    rw [if_neg hmeets]
    simp only [granule] at *
    omega
  rw [if_pos hmeets, lt_cut (by simp only [granule] at *; omega)]
  refine and_congr_right fun _ => imp_congr (by simp only [granule] at *; omega) ?_
  by_cases hlast : b / granule = (addr + size) / granule
  · rw [hlast]
    simp only [granule, true_and] at *
    omega
  · -- The range goes on behind the granule.
    have hle := addressableBytes_le (s.ofGranule (b / granule))
    simp only [granule] at *
    omega

/-- Making a range accessible does that to its bytes and to those before it in its first granule. -/
theorem addressable_userUnpoisoned (hb : b < Word.limit) :
    (s.userUnpoisoned addr size).Addressable b ↔
      s.Addressable b ∨ Word.roundDown addr granule ≤ b ∧ b < addr + size := by
  unfold Addressable Word.roundDown
  rw [ofGranule_userUnpoisoned s addr size (div_granule_lt_span hb)]
  by_cases hwhole : addr / granule ≤ b / granule ∧ (b / granule + 1) * granule ≤ addr + size
  · rw [if_pos hwhole]
    refine iff_of_true (Nat.mod_lt b (by decide)) (.inr ?_)
    simp only [granule] at *
    omega
  rw [if_neg hwhole]
  by_cases hlast : b / granule = (addr + size) / granule ∧ (addr + size) % granule ≠ 0
  · rw [if_pos hlast, lt_widen (Nat.pos_of_ne_zero hlast.2) (Nat.mod_lt _ (by decide))]
    refine or_congr_right ?_
    simp only [granule] at *
    omega
  · rw [if_neg hlast]
    simp only [granule] at *
    omega

/-- Making accessible undoes the poisoning of bytes that could be accessed. -/
theorem ofGranule_userUnpoisoned_userPoisoned (hsize : 0 < size)
    (hclear : ∀ b, addr ≤ b → b < addr + size → s.Addressable b) (hg : g < RangeMap.span) :
    ((s.userPoisoned addr size).userUnpoisoned addr size).ofGranule g = s.ofGranule g := by
  rw [ofGranule_userUnpoisoned _ addr size hg]
  by_cases hwhole : addr / granule ≤ g ∧ (g + 1) * granule ≤ addr + size
  · -- The last byte of the granule is in the range.
    rw [if_pos hwhole]
    by_contra hne
    refine not_addressable_last (Ne.symm hne) (hclear _ ?_ ?_)
    all_goals
      simp only [granule] at *
      omega
  have hpart : ¬ (addr ≤ g * granule ∧ (g + 1) * granule ≤ addr + size) := by
    simp only [granule] at *
    omega
  rw [if_neg hwhole, ofGranule_userPoisoned s addr hsize hg, if_neg hpart]
  by_cases hlast : g = (addr + size) / granule ∧ (addr + size) % granule ≠ 0
  · have hto : addr + size - g * granule = (addr + size) % granule := by
      simp only [granule] at *
      omega
    rw [if_pos hlast, if_pos (by simp only [granule] at *; omega), hto]
    -- The last byte of the range is in this granule.
    have hbyte : (addr + size - 1) % granule < addressableBytes (s.ofGranule ((addr + size - 1) / granule)) :=
      hclear (addr + size - 1) (by omega) (by omega)
    have hplace : (addr + size - 1) / granule = g
        ∧ (addr + size - 1) % granule + 1 = (addr + size) % granule := by
      simp only [granule] at *
      omega
    rw [hplace.1] at hbyte
    refine widen_cut ?_ (Nat.mod_lt _ (by decide)) (hplace.2 ▸ hbyte)
    simp only [granule] at *
    omega
  · rw [if_neg hlast, if_neg (by simp only [granule] at *; omega)]

end Bytes

/-! ## Requests -/

section Requests

variable {s : Shadow} {addr size : Nat}

theorem markUser_eq (mark : Shadow → Nat → Nat → Shadow) (hsize : 0 < size) :
    markUser mark addr size s = if s.appBegin ≤ addr ∧ addr + size ≤ s.appEnd then .ok () (mark s addr size)
      else .error (.refused (.invalidRange addr size s.appBegin s.appEnd)) s := by
  unfold markUser
  rw [if_neg (Nat.ne_of_gt hsize)]
  show (if (!s.covers addr size) = true then _ else _ : Act ShadowError Shadow Unit) s = _
  by_cases hin : s.appBegin ≤ addr ∧ addr + size ≤ s.appEnd
  · rw [if_pos hin, if_neg (by rw [covers_iff.mpr hin]; decide)]
    rfl
  · rw [if_neg hin, if_pos (by rw [Bool.eq_false_iff.mpr (mt covers_iff.mp hin)]; rfl)]
    rfl

/-- Poisoning a tracked range for a user takes exactly the bytes of the range, but for those in a granule
    inside of which the range ends and which has an accessible byte behind it; it changes no other
    granule and makes no byte accessible.  A range that leaves the tracked one is refused, and nothing
    changes. -/
theorem poisonUser_exact (hsize : 0 < size) :
    (s.appBegin ≤ addr ∧ addr + size ≤ s.appEnd →
      ∃ t, poisonUser addr size s = .ok () t ∧ SameRange s t
        ∧ (∀ b < Word.limit, t.Addressable b ↔
          s.Addressable b ∧ (addr ≤ b ∧ b < addr + size → s.Spares (addr + size) b))
        ∧ (∀ b < Word.limit, ¬ s.Addressable b → ¬ t.Addressable b)
        ∧ ∀ g < RangeMap.span, (∀ b, addr ≤ b → b < addr + size → b / granule ≠ g) →
          t.ofGranule g = s.ofGranule g)
    ∧ (¬ (s.appBegin ≤ addr ∧ addr + size ≤ s.appEnd) →
      poisonUser addr size s = .error (.refused (.invalidRange addr size s.appBegin s.appEnd)) s) := by
  unfold poisonUser
  rw [markUser_eq userPoisoned hsize]
  refine ⟨fun hin => ⟨_, if_pos hin, userPoisoned_sameRange s addr size, fun b hb => ?_, fun b hb => ?_,
    fun g hg hother => ?_⟩, fun hout => if_neg hout⟩
  · exact addressable_userPoisoned hsize hb
  · exact mt fun h => ((addressable_userPoisoned hsize hb).mp h).1
  · have hmeets := mt (meets_iff hsize).mpr fun ⟨b, hlo, hhi, hb⟩ => hother b hlo hhi hb
    rw [ofGranule_userPoisoned s addr hsize hg, if_neg ?_, if_neg hmeets]
    simp only [granule] at *
    omega

/-- A range from inside of a granule over a whole one into a third: the first granule keeps what is
    before the range, the second is taken, and the third is spared as all of its bytes can be accessed. -/
theorem poisonUser_exact_over_three :
    ∃ s t, Reached s ∧ poisonUser 4099 18 s = .ok () t
      ∧ t.Addressable 4098 ∧ ¬ t.Addressable 4099 ∧ ¬ t.Addressable 4111 ∧ t.Addressable 4112
      ∧ poisonUser 4159 2 s = .error (.refused (.invalidRange 4159 2 4096 4160)) s := by
  obtain ⟨s, hs, hcheck⟩ := Reached.of_marked
    (show (marked 4096 64 []).any
      (fun s => decide (s.appBegin = 4096 ∧ s.appEnd = 4160
        ∧ s.ofGranule 512 = 0 ∧ s.ofGranule 513 = 0 ∧ s.ofGranule 514 = 0)) = true by decide +kernel)
  obtain ⟨hbegin, hend, hfirst, hsecond, hthird⟩ := of_decide_eq_true hcheck
  obtain ⟨t, ht, -, hbytes, -⟩ := (poisonUser_exact (show 0 < 18 by decide)).1
    (show s.appBegin ≤ 4099 ∧ 4099 + 18 ≤ s.appEnd by rw [hbegin, hend]; decide)
  have hrefused := (poisonUser_exact (show 0 < 2 by decide)).2
    (show ¬ (s.appBegin ≤ 4159 ∧ 4159 + 2 ≤ s.appEnd) by rw [hbegin, hend]; decide)
  rw [hbegin, hend] at hrefused
  have hspares : s.Spares 4117 4112 := ⟨by decide, by decide, by
    show 4117 % granule < addressableBytes (s.ofGranule 514)
    rw [hthird]
    decide⟩
  refine ⟨s, t, hs, ht, ?_, ?_, ?_, ?_, hrefused⟩
  · exact (hbytes 4098 (by decide)).mpr ⟨addressable_of_zero hfirst, fun h => absurd h.1 (by decide)⟩
  · exact fun h => absurd (((hbytes 4099 (by decide)).mp h).2 (by decide)).2.1 (by decide)
  · exact fun h => absurd (((hbytes 4111 (by decide)).mp h).2 (by decide)).2.1 (by decide)
  · exact (hbytes 4112 (by decide)).mpr ⟨addressable_of_zero hthird, fun _ => hspares⟩

/-- Making a tracked range accessible for a user adds exactly its bytes and those before it in its first
    granule, and changes no other granule; after the range was poisoned, with all of its bytes accessible
    before, it gives the shadow bytes of all granules back. -/
theorem unpoisonUser_exact (hsize : 0 < size) (hin : s.appBegin ≤ addr ∧ addr + size ≤ s.appEnd) :
    (∃ t, unpoisonUser addr size s = .ok () t ∧ SameRange s t
      ∧ (∀ b < Word.limit, t.Addressable b ↔
        s.Addressable b ∨ Word.roundDown addr granule ≤ b ∧ b < addr + size)
      ∧ ∀ g < RangeMap.span, (∀ b, addr ≤ b → b < addr + size → b / granule ≠ g) →
        t.ofGranule g = s.ofGranule g)
    ∧ ((∀ b, addr ≤ b → b < addr + size → s.Addressable b) →
      ∃ t u, poisonUser addr size s = .ok () t ∧ unpoisonUser addr size t = .ok () u ∧ SameRange s u
        ∧ ∀ g < RangeMap.span, u.ofGranule g = s.ofGranule g) := by
  unfold poisonUser unpoisonUser
  simp only [markUser_eq _ hsize]
  refine ⟨⟨_, if_pos hin, userUnpoisoned_sameRange s addr size, fun b hb => ?_, fun g hg hother => ?_⟩,
    fun hclear => ?_⟩
  · exact addressable_userUnpoisoned hb
  · have hmeets := mt (meets_iff hsize).mpr fun ⟨b, hlo, hhi, hb⟩ => hother b hlo hhi hb
    rw [ofGranule_userUnpoisoned s addr size hg, if_neg ?_, if_neg ?_]
    all_goals
      simp only [granule] at *
      omega
  · have hrange := userPoisoned_sameRange s addr size
    refine ⟨_, _, if_pos hin, if_pos ?_, hrange.trans (userUnpoisoned_sameRange _ addr size), fun g hg => ?_⟩
    · rwa [hrange.appBegin, hrange.appEnd]
    · exact ofGranule_userUnpoisoned_userPoisoned hsize hclear hg

/-- Twenty bytes can be accessed.  The last nine of them, which begin inside of a granule and end inside of
    another, are poisoned and given back; making the second byte behind them accessible widens the last
    granule up to it. -/
theorem unpoisonUser_exact_in_twenty :
    ∃ s t u v, Reached s ∧ poisonUser 4107 9 s = .ok () t ∧ unpoisonUser 4107 9 t = .ok () u
      ∧ u.ofGranule 513 = 0 ∧ u.ofGranule 514 = 4
      ∧ unpoisonUser 4117 1 s = .ok () v ∧ v.Addressable 4116 ∧ ¬ v.Addressable 4118 := by
  obtain ⟨s, hs, hcheck⟩ := Reached.of_marked
    (show (marked 4096 64 [.unpoison 4096 20]).any
      (fun s => decide (s.appBegin = 4096 ∧ s.appEnd = 4160
        ∧ s.ofGranule 513 = 0 ∧ s.ofGranule 514 = 4)) = true by decide +kernel)
  obtain ⟨hbegin, hend, hfull, hpartial⟩ := of_decide_eq_true hcheck
  have hclear : ∀ b, 4107 ≤ b → b < 4107 + 9 → s.Addressable b := by
    intro b hlo hhi
    by_cases hfirst : b < 4112
    · refine addressable_of_zero ?_
      rw [show b / granule = 513 by simp only [granule]; omega, hfull]
    · unfold Addressable
      rw [show b / granule = 514 by simp only [granule]; omega, hpartial]
      show b % 8 < 4
      omega
  obtain ⟨t, u, ht, hu, -, hback⟩ := (unpoisonUser_exact (show 0 < 9 by decide)
    (show s.appBegin ≤ 4107 ∧ 4107 + 9 ≤ s.appEnd by rw [hbegin, hend]; decide)).2 hclear
  obtain ⟨v, hv, -, hbytes, -⟩ := (unpoisonUser_exact (show 0 < 1 by decide)
    (show s.appBegin ≤ 4117 ∧ 4117 + 1 ≤ s.appEnd by rw [hbegin, hend]; decide)).1
  refine ⟨s, t, u, v, hs, ht, hu, (hback 513 (by decide)).trans hfull, (hback 514 (by decide)).trans hpartial,
    hv, (hbytes 4116 (by decide)).mpr (.inr (by decide)), fun h => ?_⟩
  rcases (hbytes 4118 (by decide)).mp h with hbefore | hrange
  · revert hbefore
    show ¬ 6 < addressableBytes (s.ofGranule 514)
    rw [hpartial]
    decide
  · exact absurd hrange.2 (by decide)

end Requests

end GuardedHeap.Shadow
