import GuardedHeap.Pages
import GuardedHeap.Proofs.Act
import GuardedHeap.Proofs.RangeMap
import GuardedHeap.Proofs.Rounding

/-! # Pages — what the memory calls do to single addresses

    The calls work on ranges of pages.  Here they are told address by
    address: which addresses can be written, and what their bytes are.  A
    call on a page boundary is refused only if a failure was set up. -/

namespace GuardedHeap.Pages

/-- The address can be read and written. -/
def Writable (p : Pages) (a : Nat) : Prop :=
  p.access.get (a / pageSize) = .writable

/-- The byte at an address. -/
def byte (p : Pages) (a : Nat) : UInt8 :=
  p.bytes.get a

/-- The same memory; what is set up to fail may have been met or come closer, but nothing new
    was set up. -/
structure Alike (p q : Pages) : Prop where
  placed : q.placed = p.placed
  access : q.access = p.access
  bytes : q.bytes = p.bytes
  calm : p.armed = none → q.armed = none

theorem takeFailure_alike (call : MemoryCall) (p : Pages) : Alike p (takeFailure call p).2 := by
  unfold takeFailure
  cases harmed : p.armed with
  | none => exact ⟨rfl, rfl, rfl, id⟩
  | some f =>
      dsimp only
      by_cases hcall : f.call ≠ call
      · rw [if_pos hcall]
        exact ⟨rfl, rfl, rfl, id⟩
      · rw [if_neg hcall]
        by_cases hdue : f.after = 0
        · rw [if_pos hdue]
          exact ⟨rfl, rfl, rfl, fun h => by rw [harmed] at h; exact nomatch h⟩
        · rw [if_neg hdue]
          exact ⟨rfl, rfl, rfl, fun h => by rw [harmed] at h; exact nomatch h⟩

/-- A call fails only if a failure was set up. -/
theorem takeFailure_eq_none {call : MemoryCall} {p : Pages} (h : p.armed = none) :
    (takeFailure call p).1 = none := by
  unfold takeFailure
  rw [h]

/-- A call has its effect on the same memory, or is refused there. -/
theorem ends_call {kind : MemoryCall} {addr size : Nat} {refusal : Pages → Option Int}
    {effect : Pages → Pages} {p : Pages} {ok : Unit → Pages → Prop} {no : MapError → Pages → Prop}
    (hok : ∀ q, Alike p q → refusal q = none → ok () (effect q))
    (hno : ∀ q e, Alike p q → (p.armed ≠ none ∨ refusal q ≠ none) → no e q) :
    Act.Ends (call kind addr size refusal effect) p ok no := by
  have halike := takeFailure_alike kind p
  unfold call
  simp only [Act.ends_bind, Act.ends_get, Act.ends_set]
  cases hfailure : (takeFailure kind p).1 with
  | some errno =>
      rw [Option.some_or]
      refine Act.ends_refuse.mpr (hno _ _ halike (.inl fun hnone => ?_))
      rw [takeFailure_eq_none hnone] at hfailure
      exact nomatch hfailure
  | none =>
      rw [Option.none_or]
      cases hrefusal : refusal (takeFailure kind p).2 with
      | some errno =>
          exact Act.ends_refuse.mpr (hno _ _ halike (.inr (by rw [hrefusal]; exact nofun)))
      | none => exact Act.ends_set.mpr (hok _ halike hrefusal)

theorem unlessAligned_eq_none {addr : Nat} (h : pageSize ∣ addr) (p : Pages) :
    unlessAligned addr p = none := by
  unfold unlessAligned
  rw [if_pos (Nat.mod_eq_zero_of_dvd h)]

/-! ## Ranges of pages -/

/-- The page of an address of a range is a page of the range. -/
theorem page_in_range {addr size a : Nat} (h : addr ≤ a ∧ a < addr + size) :
    (pageRange addr size).1 ≤ a / pageSize ∧ a / pageSize < (pageRange addr size).2 := by
  simp only [pageRange, pageSize]
  omega

/-- A range of whole pages has no pages but those of its addresses. -/
theorem page_out_of_range {addr size a : Nat} (haddr : pageSize ∣ addr) (hsize : pageSize ∣ size)
    (h : ¬ (addr ≤ a ∧ a < addr + size)) :
    ¬ ((pageRange addr size).1 ≤ a / pageSize ∧ a / pageSize < (pageRange addr size).2) := by
  obtain ⟨m, rfl⟩ := haddr
  obtain ⟨n, rfl⟩ := hsize
  simp only [pageRange, pageSize] at *
  omega

theorem writable_setAccess {p : Pages} {addr size a : Nat} {access : Access}
    (ha : a < Word.limit) :
    (setAccess addr size access p).Writable a ↔
      if (pageRange addr size).1 ≤ a / pageSize ∧ a / pageSize < (pageRange addr size).2
      then access = .writable else p.Writable a := by
  have hpage : a / pageSize < RangeMap.span := by
    simp only [pageSize, RangeMap.span, Word.limit] at *
    omega
  show (p.access.fill (pageRange addr size).1 (pageRange addr size).2 access).get
    (a / pageSize) = .writable ↔ _
  rw [RangeMap.get_fill _ _ _ _ _ hpage]
  by_cases hin : (pageRange addr size).1 ≤ a / pageSize ∧ a / pageSize < (pageRange addr size).2
  · rw [if_pos hin, if_pos hin]
  · rw [if_neg hin, if_neg hin]
    exact Iff.rfl

/-! ## Committing and releasing -/

/-- Committing makes a range writable and takes nothing away. -/
theorem ends_commit {p : Pages} {addr size : Nat} (haddr : pageSize ∣ addr) :
    Act.Ends (commit addr size) p
      (fun _ q =>
        (∀ a, a < Word.limit → (p.Writable a ∨ addr ≤ a ∧ a < addr + size) → q.Writable a)
        ∧ q.bytes = p.bytes ∧ (p.armed = none → q.armed = none))
      (fun _ q => (∀ a, p.Writable a → q.Writable a) ∧ q.bytes = p.bytes ∧ p.armed ≠ none) := by
  unfold commit
  by_cases hsize : size = 0
  · rw [if_pos hsize]
    refine Act.ends_pure.mpr ⟨fun a _ h => ?_, rfl, id⟩
    rcases h with h | h
    · exact h
    · omega
  · rw [if_neg hsize]
    refine ends_call (fun q hq _ => ⟨fun a ha h => ?_, hq.bytes, hq.calm⟩) fun q e hq hwhy => ?_
    · rw [writable_setAccess ha]
      split
      · rfl
      · rename_i hout
        rcases h with h | h
        · show q.access.get _ = _
          rw [hq.access]
          exact h
        · exact absurd (page_in_range h) hout
    · refine ⟨fun a h => ?_, hq.bytes, ?_⟩
      · show q.access.get _ = _
        rw [hq.access]
        exact h
      · rcases hwhy with harmed | hrefusal
        · exact harmed
        · exact absurd (unlessAligned_eq_none haddr q) hrefusal

/-- The same memory but for the addresses of a range. -/
structure SameOutside (lo n : Nat) (p q : Pages) : Prop where
  writable : ∀ a, a < Word.limit → ¬ (lo ≤ a ∧ a < lo + n) → p.Writable a → q.Writable a
  byte : ∀ a, a < Word.limit → ¬ (lo ≤ a ∧ a < lo + n) → q.byte a = p.byte a
  calm : p.armed = none → q.armed = none

theorem Alike.sameOutside {p q : Pages} (h : Alike p q) (lo n : Nat) : SameOutside lo n p q where
  writable a _ _ hw := by unfold Writable; rw [h.access]; exact hw
  byte a _ _ := by unfold Pages.byte; rw [h.bytes]
  calm := h.calm

theorem SameOutside.trans {lo n : Nat} {p q r : Pages} (h : SameOutside lo n p q)
    (h' : SameOutside lo n q r) : SameOutside lo n p r where
  writable a ha hout hw := h'.writable a ha hout (h.writable a ha hout hw)
  byte a ha hout := (h'.byte a ha hout).trans (h.byte a ha hout)
  calm harmed := h'.calm (h.calm harmed)

theorem zero_sameOutside {p : Pages} {addr size : Nat} (haddr : pageSize ∣ addr)
    (hsize : pageSize ∣ size) : SameOutside addr size p (zero addr size p) where
  writable _ _ _ hw := hw
  byte a ha hout := by
    show (p.bytes.fill _ _ 0).get a = p.bytes.get a
    rw [RangeMap.get_fill _ _ _ _ _ ha, if_neg]
    obtain ⟨m, rfl⟩ := haddr
    obtain ⟨n, rfl⟩ := hsize
    simp only [pageSize] at *
    omega
  calm := id

theorem setAccess_sameOutside {p : Pages} {addr size : Nat} {access : Access}
    (haddr : pageSize ∣ addr) (hsize : pageSize ∣ size) :
    SameOutside addr size p (setAccess addr size access p) where
  writable a ha hout hw := by
    rw [writable_setAccess ha, if_neg (page_out_of_range haddr hsize hout)]
    exact hw
  byte _ _ _ := rfl
  calm := id

/-- Releasing whole pages leaves all other addresses alone, even if it is refused. -/
theorem ends_release {p : Pages} {addr size : Nat} (haddr : pageSize ∣ addr)
    (hsize : pageSize ∣ size) :
    Act.Ends (release addr size) p (fun _ q => SameOutside addr size p q)
      (fun _ q => SameOutside addr size p q ∧ p.armed ≠ none) := by
  have hrefused : ∀ q : Pages, p.armed ≠ none ∨ unlessAligned addr q ≠ none → p.armed ≠ none := by
    rintro q (harmed | hrefusal)
    · exact harmed
    · exact absurd (unlessAligned_eq_none haddr q) hrefusal
  unfold release
  by_cases hzero : size = 0
  · rw [if_pos hzero]
    exact (Alike.mk rfl rfl rfl id).sameOutside addr size
  · rw [if_neg hzero]
    simp only [Act.ends_bind]
    refine ends_call (fun q hq _ => ?_) fun q e hq hwhy => ?_
    · have hzeroed := (hq.sameOutside addr size).trans (zero_sameOutside haddr hsize)
      refine ends_call (fun r hr _ => ?_) fun r e hr hwhy => ?_
      · exact (hzeroed.trans (hr.sameOutside addr size)).trans
          (setAccess_sameOutside haddr hsize)
      · refine ⟨hzeroed.trans (hr.sameOutside addr size), fun hnone => ?_⟩
        rcases hwhy with harmed | hrefusal
        · exact harmed (hzeroed.calm hnone)
        · exact absurd (unlessAligned_eq_none haddr r) hrefusal
    · exact ⟨hq.sameOutside addr size, hrefused q hwhy⟩

/-! ## Mapping -/

/-- A call sets no failure up. -/
def Calms (p q : Pages) : Prop :=
  p.armed = none → q.armed = none

/-- A place for a mapping begins with a page, not at zero, and ends in the lower half of the address space. -/
theorem place?_eq_some {p : Pages} {size : Nat} {a : Access} {addr : Nat} (h : p.place? size a = some addr) :
    pageSize ∣ addr ∧ 0 < addr ∧ addr + size < Word.signLimit := by
  obtain ⟨hplace, hroom⟩ := Option.filter_eq_some_iff.mp h
  obtain ⟨page, -, rfl⟩ := Option.map_eq_some_iff.mp hplace
  simp only [hasRoom, Bool.and_eq_true, decide_eq_true_eq] at hroom
  exact ⟨Nat.dvd_mul_left .., hroom.1.1, hroom.1.2⟩

/-- A mapping begins where there is a place for it. -/
theorem ends_map_place {p : Pages} (size : Nat) (a : Access) :
    Act.Ends (map size a) p (fun addr q => Calms p q ∧ ∃ r : Pages, r.place? size a = some addr)
      fun _ q => Calms p q := by
  unfold map
  rw [Act.ends_bind]
  refine ends_call (fun q hq hfits => ?_) fun q _ hq _ => hq.calm
  rw [Act.ends_bind, Act.ends_get, Act.ends_bind, Act.ends_orRefuse]
  refine ⟨fun addr haddr => ?_, fun hnone => ?_⟩
  · rw [Act.ends_bind, Act.ends_set]
    exact ⟨hq.calm, q, haddr⟩
  · exact hq.calm

/-- A mapping does not begin at zero. -/
theorem ends_map {p : Pages} (size : Nat) (a : Access) :
    Act.Ends (map size a) p (fun addr q => 0 < addr ∧ addr + size < Word.signLimit ∧ Calms p q)
      fun _ q => Calms p q := by
  refine (ends_map_place size a).imp ?_ fun _ _ => id
  rintro addr q ⟨hcalm, r, haddr⟩
  obtain ⟨-, hpos, hend⟩ := place?_eq_some haddr
  exact ⟨hpos, hend, hcalm⟩

/-- A mapping begins with a page. -/
theorem ends_map_dvd {p : Pages} (size : Nat) (a : Access) :
    Act.Ends (map size a) p (fun addr _ => pageSize ∣ addr) fun _ _ => True :=
  (ends_map_place size a).imp (fun _ _ ⟨_, _, haddr⟩ => (place?_eq_some haddr).1) fun _ _ _ => trivial

theorem ends_unmap {p : Pages} (addr size : Nat) :
    Act.Ends (unmap addr size) p (fun _ q => Calms p q) fun _ q => Calms p q :=
  ends_call (fun _ hq _ => hq.calm) fun _ _ hq _ => hq.calm

/-- What is mapped too much is unmapped, which keeps what unmapping keeps. -/
theorem ends_trim {β : Type} {q : Pages} {cond : Prop} [Decidable cond] {next : Act MapError Pages β}
    {inv : Pages → Prop} {ok : β → Pages → Prop} {no : MapError → Pages → Prop} {addr size : Nat} (hq : inv q)
    (hunmap : Act.Ends (unmap addr size) q (fun _ r => inv r) no)
    (hnext : ∀ r, inv r → Act.Ends next r ok no) :
    Act.Ends (do
      if cond then
        unmap addr size
      next) q ok no := by
  by_cases hcond : cond
  · rw [if_pos hcond, Act.ends_bind]
    exact hunmap.imp (fun _ r hr => hnext r hr) fun _ _ => id
  · rw [if_neg hcond]
    exact hnext q hq

/-- A reservation is aligned, ends in the lower half of the address space, and keeps what its calls keep,
    all of which begin with a page if it is aligned to pages. -/
theorem ends_reserve_of {p : Pages} {size align : Nat} {inv : Pages → Prop} {no : MapError → Pages → Prop}
    (hwide : Word.limit ≤ Word.roundUp size pageSize + max align pageSize → ∀ e, no e p)
    (hmap : Act.Ends (map (Word.roundUp size pageSize + max align pageSize) .reserved) p
      (fun raw q => pageSize ∣ raw ∧ 0 < raw
        ∧ raw + (Word.roundUp size pageSize + max align pageSize) < Word.signLimit ∧ inv q) no)
    (hunmap : ∀ addr n q, (pageSize ∣ max align pageSize → pageSize ∣ addr) → inv q →
      Act.Ends (unmap addr n) q (fun _ r => inv r) no) :
    Act.Ends (reserve size align) p
      (fun m q => 0 < m.begin ∧ max align pageSize ∣ m.begin ∧ m.size = Word.roundUp size pageSize
        ∧ m.endAddr < Word.signLimit ∧ inv q) no := by
  have halign : 0 < max align pageSize := Nat.lt_of_lt_of_le (by decide) (Nat.le_max_right _ _)
  unfold reserve
  dsimp only
  rw [show Nat.max align pageSize = max align pageSize from rfl, Act.ends_bind]
  refine Act.ends_orRefuse.mpr ⟨fun size' hsize => ?_, fun hnone => hwide ?_ _⟩
  case refine_2 =>
    by_contra hlt
    rw [Word.nextMultiple?_eq_some.mpr ⟨by decide, by omega, rfl⟩] at hnone
    exact nomatch hnone
  obtain ⟨-, -, rfl⟩ := Word.nextMultiple?_eq_some.mp hsize
  rw [Act.ends_bind]
  refine Act.ends_orRefuse.mpr ⟨fun total htotal => ?_, fun hnone => hwide ?_ _⟩
  case refine_2 =>
    by_contra hlt
    rw [Word.add?_eq_some.mpr ⟨by omega, rfl⟩] at hnone
    exact nomatch hnone
  obtain ⟨-, rfl⟩ := Word.add?_eq_some.mp htotal
  rw [Act.ends_bind]
  refine hmap.imp ?_ fun _ _ => id
  rintro raw q ⟨hdvd, hraw, hroom, hq⟩
  have hsign : Word.signLimit < Word.limit := by decide
  have hbegin := Word.roundUp_lt (n := raw) halign
  have hlimit : Word.roundUp raw (max align pageSize) < Word.limit := by omega
  rw [Act.ends_bind, Act.ends_liftM]
  refine ⟨_, Word.nextMultiple_eq_ok.mpr ⟨halign, hlimit, rfl⟩, ?_⟩
  have hpos : 0 < Word.roundUp raw (max align pageSize) := Nat.lt_of_lt_of_le hraw Word.le_roundUp
  -- From here on nothing overruns; what lies before the aligned range is unmapped, and then what lies
  -- behind it.
  refine ends_trim hq (hunmap _ _ _ (fun _ => hdvd) hq) fun r hr => ?_
  rw [Act.ends_bind, Act.ends_liftM]
  refine ⟨_, Word.add_eq_ok.mpr ⟨by omega, rfl⟩, ?_⟩
  rw [Act.ends_bind, Act.ends_liftM]
  refine ⟨_, Word.add_eq_ok.mpr ⟨by omega, rfl⟩, ?_⟩
  rw [Act.ends_bind, Act.ends_liftM]
  refine ⟨_, Word.sub_eq_ok.mpr ⟨by omega, rfl⟩, ?_⟩
  have hused : pageSize ∣ max align pageSize →
      pageSize ∣ Word.roundUp raw (max align pageSize) + Word.roundUp size pageSize := fun hpage =>
    Nat.dvd_add (Nat.dvd_trans hpage (Word.dvd_roundUp halign)) (Word.dvd_roundUp (by decide))
  refine ends_trim hr (hunmap _ _ _ hused hr) fun r hr => ?_
  refine ⟨hpos, Word.dvd_roundUp halign, rfl, ?_, hr⟩
  show Word.roundUp raw (max align pageSize) + Word.roundUp size pageSize < Word.signLimit
  omega

/-- A reservation sets no failure up. -/
theorem ends_reserve {p : Pages} (size align : Nat) :
    Act.Ends (reserve size align) p
      (fun m q => 0 < m.begin ∧ max align pageSize ∣ m.begin ∧ m.size = Word.roundUp size pageSize
        ∧ m.endAddr < Word.signLimit ∧ Calms p q)
      fun _ q => Calms p q := by
  refine ends_reserve_of (fun _ _ => id) ((ends_map_place _ _).imp ?_ fun _ _ => id) fun addr n q _ hcalm => ?_
  · rintro raw q ⟨hcalm, r, hplace⟩
    obtain ⟨hdvd, hpos, hend⟩ := place?_eq_some hplace
    exact ⟨hdvd, hpos, hend, hcalm⟩
  · exact (ends_unmap addr n).imp (fun _ _ hr h => hr (hcalm h)) fun _ _ hr h => hr (hcalm h)

end GuardedHeap.Pages
