import GuardedHeap.Proofs.Run.Basic
import GuardedHeap.Proofs.Sanitizer.Beginning

/-! # Room — memories with room for every heap

    The slots that a memory has unless told otherwise have no room for the
    largest heaps that may be asked for.  Slots of 2^46 bytes have
    (`Pages.wide`): with no failure set up, each call finds the next slot
    free (`Pages.Roomy`), so a heap of any classes and logarithms in range
    is made there (`Heap.ends_create_wide`), and every valid configuration
    has runs (`Run.begins_wide`). -/

namespace GuardedHeap

namespace Pages

/-- The number of pages of a slot that has room for a region of the largest size for each of the most
    classes. -/
abbrev wideSlot : Nat := 0x400000000

/-- A memory with such slots, in which nothing is mapped. -/
def wide : Pages where
  policy := slots wideSlot

/-- No failure is set up, and nothing is mapped in the slots that come next. -/
structure Roomy (p : Pages) : Prop where
  policy : p.policy = wide.policy
  calm : p.armed = none
  free : ∀ page < RangeMap.span, firstSlot + p.placed * wideSlot ≤ page + 1 →
    p.access.get page = .unmapped

/-- The most bytes that fit in a slot. -/
def slotRoom : Nat := (wideSlot - 1) * pageSize

theorem roomy_wide : wide.Roomy where
  policy := rfl
  calm := rfl
  free _ _ _ := rfl

variable {p q : Pages} {addr size : Nat} {a : Access}

/-- A call has its effect if no failure is set up. -/
theorem call_of_calm {kind : MemoryCall} {refusal : Pages → Option Int} {effect : Pages → Pages}
    (hcalm : p.armed = none) (hrefusal : refusal p = none) :
    call kind addr size refusal effect p = .ok () (effect p) := by
  have htake : takeFailure kind p = (none, p) := by
    unfold takeFailure
    rw [hcalm]
  have hnone : (none : Option Int).or (refusal p) = none := by
    rw [hrefusal]
    rfl
  unfold call
  rw [Act.get_bind, htake]
  dsimp only
  rw [hnone]
  rfl

theorem unmap_of_calm (hcalm : p.armed = none) (hdvd : pageSize ∣ addr) :
    unmap addr size p = .ok () (setAccess addr size .unmapped p) :=
  call_of_calm hcalm (unlessAligned_eq_none hdvd p)

theorem map_of_calm (hcalm : p.armed = none) (hplace : p.place? size a = some addr) :
    map size a p = .ok addr (setAccess addr size a { p with placed := p.placed + 1 }) := by
  unfold map
  rw [Act.bind_of_ok (call_of_calm hcalm (by rw [hplace]; rfl)), Act.get_bind]
  show (Act.orRefuse _ (p.place? size a) >>= _) p = _
  rw [Act.orRefuse_bind hplace]
  rfl

/-- There is room where nothing is mapped from the first page on. -/
theorem hasRoom_of_unmapped (hpos : 0 < addr) (hend : addr + size < Word.signLimit)
    (hfree : ∀ page < RangeMap.span, addr / pageSize ≤ page → p.access.get page = .unmapped) :
    p.hasRoom addr size = true := by
  unfold hasRoom pageRange
  cases hmapped : p.access.find? (addr / pageSize) ((addr + size + (pageSize - 1)) / pageSize) (· != .unmapped) with
  | none =>
      dsimp only
      rw [decide_eq_true hpos, decide_eq_true hend, hmapped]
      rfl
  | some page =>
      obtain ⟨hge, -, hspan, hother⟩ := RangeMap.find?_eq_some hmapped
      rw [hfree page hspan hge] at hother
      exact absurd hother (by decide)

/-- The next slot has room for a mapping. -/
theorem Roomy.place? (h : p.Roomy) (hplaced : p.placed < slotCount) (hsize : size ≤ slotRoom) (a : Access) :
    ∃ page, p.place? size a = some (page * pageSize) ∧ page ≤ firstSlot + p.placed * wideSlot
      ∧ firstSlot + p.placed * wideSlot ≤ page + 1 := by
  have hfits : ¬ (size > slotRoom ∨ p.placed ≥ slotCount) := by omega
  have hpolicy : ∃ page, p.policy p.placed size a = some page
      ∧ page ≤ firstSlot + p.placed * wideSlot ∧ firstSlot + p.placed * wideSlot ≤ page + 1 := by
    rw [h.policy]
    refine ⟨_, if_neg hfits, ?_⟩
    split <;> omega
  obtain ⟨page, hpage, hlo, hhi⟩ := hpolicy
  refine ⟨page, ?_, hlo, hhi⟩
  have hroom : p.hasRoom (page * pageSize) size = true := by
    have hcount : p.placed < 16 := hplaced
    have hbytes : size ≤ (wideSlot - 1) * pageSize := hsize
    have hfirst : firstSlot = 0x100000000 := rfl
    simp only [wideSlot, pageSize] at *
    refine hasRoom_of_unmapped (by omega) (by simp only [Word.signLimit]; omega) fun i hi hge => ?_
    rw [Nat.mul_div_cancel _ (by decide)] at hge
    exact h.free i hi (Nat.le_trans hhi (Nat.succ_le_succ hge))
  unfold Pages.place?
  rw [hpage, Option.map_some, Option.filter_some, if_pos hroom]

/-- A mapping takes the next slot. -/
theorem Roomy.ends_map (h : p.Roomy) (hplaced : p.placed < slotCount) (hsize : size ≤ slotRoom) (a : Access) :
    Act.Ends (map size a) p
      (fun raw q => pageSize ∣ raw ∧ 0 < raw ∧ raw + size < Word.signLimit
        ∧ q.Roomy ∧ q.placed = p.placed + 1) fun _ _ => False := by
  obtain ⟨page, hplace, hlo, hhi⟩ := h.place? hplaced hsize a
  obtain ⟨hdvd, hpos, hend⟩ := place?_eq_some hplace
  unfold Act.Ends
  rw [map_of_calm h.calm hplace]
  refine ⟨hdvd, hpos, hend, ⟨h.policy, h.calm, fun i hi hnext => ?_⟩, rfl⟩
  change firstSlot + (p.placed + 1) * wideSlot ≤ i + 1 at hnext
  have hslot : firstSlot + p.placed * wideSlot ≤ i + 1 :=
    Nat.le_trans (Nat.add_le_add_left (Nat.mul_le_mul_right _ (Nat.le_succ _)) _) hnext
  show (p.access.fill _ _ a).get i = .unmapped
  rw [RangeMap.get_fill _ _ _ _ _ hi, if_neg]
  · exact h.free i hi hslot
  · simp only [slotRoom, wideSlot, pageSize] at *
    omega

/-- What is unmapped makes no less room. -/
theorem Roomy.ends_unmap (h : p.Roomy) (hdvd : pageSize ∣ addr) :
    Act.Ends (unmap addr size) p (fun _ q => q.Roomy ∧ q.placed = p.placed) fun _ _ => False := by
  unfold Act.Ends
  rw [unmap_of_calm h.calm hdvd]
  refine ⟨⟨h.policy, h.calm, fun i hi hnext => ?_⟩, rfl⟩
  show (p.access.fill _ _ .unmapped).get i = .unmapped
  rw [RangeMap.get_fill _ _ _ _ _ hi]
  split
  · rfl
  · exact h.free i hi hnext

/-- A reservation that fits in a slot is made. -/
theorem Roomy.ends_reserve (h : p.Roomy) (hplaced : p.placed < slotCount) {align : Nat}
    (hpage : pageSize ∣ max align pageSize)
    (hsize : Word.roundUp size pageSize + max align pageSize ≤ slotRoom) :
    Act.Ends (reserve size align) p
      (fun m q => max align pageSize ∣ m.begin ∧ m.size = Word.roundUp size pageSize
        ∧ m.endAddr < Word.signLimit ∧ q.Roomy ∧ q.placed = p.placed + 1) fun _ _ => False := by
  have hlimit : slotRoom < Word.limit := by decide
  refine (ends_reserve_of (by omega) (h.ends_map hplaced hsize .reserved) fun addr n q hdvd hq => ?_).imp ?_
    fun _ _ => id
  · exact (hq.1.ends_unmap (hdvd hpage)).imp (fun _ _ hr => ⟨hr.1, hr.2.trans hq.2⟩) fun _ _ => id
  · exact fun _ _ hm => hm.2

end Pages

open Pages (pageSize slotCount slotRoom)

/-- A shadow that fits in a slot is made. -/
theorem Shadow.ends_create_roomy {p : Pages} (h : p.Roomy) (hplaced : p.placed < slotCount) {appBegin appSize : Nat}
    (hbegin : granule ∣ appBegin) (hend : appBegin + appSize < Word.signLimit) (hsize : appSize ≤ slotRoom) :
    Act.Ends (create appBegin appSize) p (fun _ _ => True) fun _ _ => False := by
  have hround := Word.roundUp_lt (n := Nat.max ((appSize + (granule - 1)) / granule) 1) (m := pageSize) (by decide)
  have hmax : Nat.max ((appSize + (granule - 1)) / granule) 1 ≤ (appSize + (granule - 1)) / granule + 1 :=
    Nat.max_le.mpr ⟨Nat.le_succ _, Nat.le_add_left 1 _⟩
  have hfits : Word.roundUp (Nat.max ((appSize + (granule - 1)) / granule) 1) pageSize ≤ slotRoom := by
    simp only [slotRoom, Pages.wideSlot, granule, pageSize] at *
    omega
  have hlimit : slotRoom < Word.limit := by decide
  have hsign : Word.signLimit < Word.limit := by decide
  unfold create
  rw [if_neg (not_not.mpr (Nat.mod_eq_zero_of_dvd hbegin)), Act.ends_bind]
  refine Act.ends_orRefuse.mpr ⟨fun past _ => ?_, fun hnone => ?_⟩
  · unfold Pages.anonymous
    rw [Act.ends_bind, Act.ends_mapError, Act.ends_bind, Act.ends_liftM]
    refine ⟨_, Word.nextMultiple_eq_ok.mpr ⟨by decide, by omega, rfl⟩, ?_⟩
    rw [Act.ends_bind]
    exact (h.ends_map hplaced hfits .writable).imp (fun _ _ _ => trivial) fun _ _ => id
  · rw [Word.add?_eq_some.mpr ⟨by omega, rfl⟩] at hnone
    exact nomatch hnone

/-- There is room for a heap of any classes whose regions are not larger than the largest. -/
theorem Heap.ends_create_wide {classes : SizeClasses} (hclasses : classes.count ≤ SizeClass.maxClasses)
    {regionLog secondaryLog : Nat} (hge : 12 ≤ regionLog) (hle : regionLog ≤ 36) (hsecondary : secondaryLog ≤ 40) :
    Act.Ends (create classes regionLog secondaryLog) Pages.wide (fun _ _ => True) fun _ _ => False := by
  have hregion := Word.powerOfTwo_le hle
  have hpage : pageSize ∣ Word.powerOfTwo regionLog := Word.powerOfTwo_dvd (j := 12) hge
  have hprimary := Nat.mul_le_mul hclasses hregion
  have hsecond := Word.powerOfTwo_le hsecondary
  have hmost : SizeClass.maxClasses * Word.powerOfTwo 36 + Word.powerOfTwo 40 + Word.powerOfTwo 36 + 2 * pageSize
      ≤ slotRoom := by decide
  have hlimit : slotRoom < Word.limit := by decide
  have hround := Word.roundUp_lt
    (n := classes.count * Word.powerOfTwo regionLog + Word.powerOfTwo secondaryLog) (m := pageSize) (by decide)
  unfold create
  rw [Act.ends_bind, Act.ends_liftM]
  refine ⟨_, (Word.shiftLeft_eq_ok (by omega)).mpr ⟨by omega, rfl⟩, ?_⟩
  rw [Act.ends_bind, Act.ends_liftM]
  refine ⟨_, Word.shiftLeft_one_eq_ok.mpr ⟨by omega, rfl⟩, ?_⟩
  rw [Act.ends_bind, Act.ends_liftM]
  refine ⟨_, Word.add_eq_ok.mpr ⟨by omega, rfl⟩, ?_⟩
  rw [Act.ends_bind, Act.ends_liftM]
  refine ⟨_, Word.shiftLeft_one_eq_ok.mpr ⟨by omega, rfl⟩, ?_⟩
  rw [Act.ends_bind, Act.ends_mapError]
  refine (Pages.roomy_wide.ends_reserve (by decide) (dvd_max hpage (Nat.dvd_refl _)) (by omega)).imp ?_
    fun _ _ => id
  rintro space q ⟨hdvd, hsize, hend, hroomy, hplaced⟩
  have hbegin : Shadow.granule ∣ space.begin :=
    Nat.dvd_trans (Nat.dvd_trans (by decide) (dvd_max hpage (Nat.dvd_refl _))) hdvd
  have hnext : q.placed < slotCount := by
    rw [hplaced]
    decide
  rw [Act.ends_bind, Act.ends_attempt]
  exact (Shadow.ends_create_roomy hroomy hnext hbegin hend (by omega)).imp (fun _ _ _ => trivial) fun _ _ => id

/-- Every valid configuration has runs. -/
theorem Run.begins_wide {failing marked : Prop} {config : Config} (hvalid : config.validate = .ok ())
    (log : EventLog) (capture : StackCapture) (now : Calendar.Moment) :
    ∃ s, Run failing marked [] s ∧ s.config = config := by
  obtain ⟨hregion, hsecondary⟩ := Config.ranges_of_valid hvalid
  have hends : Act.Ends (Sanitizer.init config log capture now) Pages.wide (fun _ _ => True) fun _ _ => False := by
    unfold Sanitizer.init
    rw [hvalid, Act.ends_bind, Act.ends_mapError]
    exact (Heap.ends_create_wide (Config.valid_sizeClasses config).count_le (by omega) hregion.2
      hsecondary.2).imp (fun _ _ _ => trivial) fun _ _ => id
  obtain ⟨s, q, hinit, -⟩ | ⟨_, _, -, hnever⟩ := Act.ends_iff.mp hends
  · have hbegun : Act.EndsOrStops (Sanitizer.init config log capture now) Pages.wide
        (fun s _ => s.Fit failing s.threads ∧ s.Fresh ∧ s.config = config) fun _ _ => True :=
      Sanitizer.endsOrStops_init fun _ => rfl
    obtain ⟨-, -, hconfig⟩ := hbegun.of_ok hinit
    exact ⟨s, .start hinit fun harmed => absurd rfl harmed, hconfig⟩
  · exact hnever.elim

end GuardedHeap
