import GuardedHeap.FakeStack
import GuardedHeap.Proofs.Heap.Large
import GuardedHeap.Proofs.Scene.Tally

/-! # Fake stacks — frames in a block

    The frames of a fake stack fill its block and lie apart in it
    (`frame_eq`), so a call on one frame leaves the others alone: claiming a
    frame or giving it back changes the claimed bytes by those of the frame
    (`claims_setClass`), and their number by one.  A fake stack is made with
    all of its frames free and poisoned (`ends_create`). -/

namespace GuardedHeap

/-- The claimed frames of a class. -/
def FrameClass.claimedSlots (c : FrameClass) : Finset Nat :=
  (Finset.range c.frames).filter (c.claimed.get · = true)

namespace FakeStack

/-- The classes of a fake stack have the frames that fill their ranges. -/
structure WF (f : FakeStack) : Prop where
  min_le : minSizeLog ≤ f.sizeLog
  le_max : f.sizeLog ≤ maxSizeLog
  size : f.classes.size = classCount
  frames : ∀ classId c, f.classes[classId]? = some c →
    c.frames = Word.powerOfTwo (f.sizeLog - minFrameSizeLog - classId)

/-- The bytes of a frame. -/
def frame (f : FakeStack) (classId slot : Nat) : Set Nat :=
  Set.Ico (f.frameAddr classId slot) (f.frameAddr classId slot + frameSize classId)

/-- The bytes of all claimed frames. -/
def claims (f : FakeStack) : Set Nat :=
  {a | ∃ classId c slot, f.classes[classId]? = some c ∧ slot < c.frames
    ∧ c.claimed.get slot = true ∧ a ∈ f.frame classId slot}

/-- Where the claimed frames of a class begin. -/
def claimedAt (f : FakeStack) (classId : Nat) : Set Nat :=
  {a | ∃ c slot, f.classes[classId]? = some c ∧ slot < c.frames ∧ c.claimed.get slot = true
    ∧ a = f.frameAddr classId slot}

/-- The bytes of all frames. -/
def range (f : FakeStack) : Set Nat :=
  Set.Ico f.begin f.past

/-- The block of a fake stack, in which no user has anything. -/
def block (f : FakeStack) : Block :=
  .blank f.begin (Word.roundUp (totalSize f.sizeLog) Pages.pageSize) .large

variable {f : FakeStack} {classId slot a : Nat} {c : FrameClass}

/-- The classes fill whole pages. -/
theorem roundUp_totalSize {log : Nat} (hlog : minSizeLog ≤ log) :
    Word.roundUp (totalSize log) Pages.pageSize = totalSize log := by
  refine Word.roundUp_of_dvd (by decide) (Dvd.dvd.mul_left ?_ _)
  have hpage : Pages.pageSize = Word.powerOfTwo 12 := rfl
  rw [hpage]
  exact Word.powerOfTwo_dvd (by simp only [minSizeLog] at hlog; omega)

/-- The frames fill the block. -/
theorem extent_block (hf : f.WF) : f.block.extent = f.range := by
  unfold block Block.extent Block.past Block.blank range past
  rw [roundUp_totalSize hf.min_le]

/-! ## Frames -/

theorem lt_classCount (hf : f.WF) (hc : f.classes[classId]? = some c) : classId < classCount := by
  rw [← hf.size]
  exact (Array.getElem?_eq_some_iff.mp hc).1

/-- The frames of a class fill its range. -/
theorem frames_mul_frameSize (hf : f.WF) (hc : f.classes[classId]? = some c) :
    c.frames * frameSize classId = Word.powerOfTwo f.sizeLog := by
  have hlt := lt_classCount hf hc
  have hmin := hf.min_le
  rw [hf.frames classId c hc, frameSize, ← Word.powerOfTwo_add]
  simp only [minSizeLog, minFrameSizeLog, classCount] at *
  congr 1
  omega

theorem frameSize_pos : 0 < frameSize classId := Word.powerOfTwo_pos _

/-- A frame lies in the range of its class. -/
theorem frame_bounds (hf : f.WF) (hc : f.classes[classId]? = some c) (hslot : slot < c.frames) :
    f.classBegin classId ≤ f.frameAddr classId slot
      ∧ f.frameAddr classId slot + frameSize classId
        ≤ f.classBegin classId + Word.powerOfTwo f.sizeLog := by
  have hmul := Nat.mul_le_mul_right (frameSize classId) (Nat.succ_le_of_lt hslot)
  rw [frames_mul_frameSize hf hc, Nat.succ_mul] at hmul
  unfold frameAddr
  omega

/-- The range of a class lies in that of the fake stack. -/
theorem class_bounds (hclass : classId < classCount) :
    f.begin ≤ f.classBegin classId
      ∧ f.classBegin classId + Word.powerOfTwo f.sizeLog ≤ f.past := by
  have hmul := Nat.mul_le_mul_right (Word.powerOfTwo f.sizeLog) (Nat.succ_le_of_lt hclass)
  rw [Nat.succ_mul] at hmul
  unfold classBegin past totalSize
  omega

theorem frame_subset (hf : f.WF) (hc : f.classes[classId]? = some c) (hslot : slot < c.frames) :
    f.frame classId slot ⊆ f.range := by
  obtain ⟨hlo, hhi⟩ := frame_bounds hf hc hslot
  obtain ⟨hlo', hhi'⟩ := class_bounds (f := f) (lt_classCount hf hc)
  exact fun a ha => ⟨by have := ha.1; omega, by have := ha.2; omega⟩

/-- An address lies in one frame at most. -/
theorem frame_eq (hf : f.WF) {classId' slot' : Nat} {c' : FrameClass}
    (hc : f.classes[classId]? = some c) (hslot : slot < c.frames)
    (hc' : f.classes[classId']? = some c') (hslot' : slot' < c'.frames)
    (ha : a ∈ f.frame classId slot) (ha' : a ∈ f.frame classId' slot') :
    classId = classId' ∧ slot = slot' := by
  have hfind : ∀ {i s : Nat} {d : FrameClass}, f.classes[i]? = some d → s < d.frames →
      a ∈ f.frame i s → (a - f.begin) / Word.powerOfTwo f.sizeLog = i
        ∧ (a - f.classBegin i) / frameSize i = s := by
    intro i s d hd hs ⟨hlo, hhi⟩
    obtain ⟨hbegin, hpast⟩ := frame_bounds hf hd hs
    constructor
    · unfold classBegin at hbegin hpast
      refine Nat.div_eq_of_lt_le (by omega) ?_
      rw [Nat.succ_mul]
      omega
    · unfold frameAddr at hlo hhi
      refine Nat.div_eq_of_lt_le (by omega) ?_
      rw [Nat.succ_mul]
      omega
  obtain ⟨hclass, hat⟩ := hfind hc hslot ha
  obtain ⟨hclass', hat'⟩ := hfind hc' hslot' ha'
  obtain rfl := hclass.symm.trans hclass'
  exact ⟨rfl, hat.symm.trans hat'⟩

variable (classId slot) in
theorem granule_dvd_frame (hbegin : Shadow.granule ∣ f.begin) (hf : f.WF) :
    Shadow.granule ∣ f.frameAddr classId slot ∧ Shadow.granule ∣ frameSize classId := by
  have hpower : Shadow.granule = Word.powerOfTwo 3 := rfl
  have hmin := hf.min_le
  have hframe : Shadow.granule ∣ frameSize classId := by
    rw [hpower]
    exact Word.powerOfTwo_dvd (by simp only [minFrameSizeLog]; omega)
  refine ⟨Nat.dvd_add (Nat.dvd_add hbegin (Dvd.dvd.mul_left ?_ _)) (Dvd.dvd.mul_left hframe _),
    hframe⟩
  rw [hpower]
  exact Word.powerOfTwo_dvd (by simp only [minSizeLog] at hmin; omega)

/-! ## One slot -/

/-- The fake stack with another state for a class. -/
def setClass (f : FakeStack) (classId : Nat) (c : FrameClass) : FakeStack :=
  { f with classes := f.classes.setIfInBounds classId c }

theorem getElem?_setClass {classId' : Nat} {c' : FrameClass} (hc : f.classes[classId]? = some c) :
    (f.setClass classId c').classes[classId']? =
      if classId' = classId then some c' else f.classes[classId']? := by
  obtain ⟨hlt, -⟩ := Array.getElem?_eq_some_iff.mp hc
  show (f.classes.setIfInBounds classId c')[classId']? = _
  rw [Array.getElem?_setIfInBounds]
  by_cases heq : classId' = classId
  · subst heq
    rw [if_pos rfl, if_pos rfl, if_pos hlt]
  · rw [if_neg (Ne.symm heq), if_neg heq]

theorem WF.setClass (hf : f.WF) {c' : FrameClass} (hc : f.classes[classId]? = some c)
    (hframes : c'.frames = c.frames) : (f.setClass classId c').WF where
  min_le := hf.min_le
  le_max := hf.le_max
  size := Array.size_setIfInBounds.trans hf.size
  frames i d hd := by
    rw [getElem?_setClass hc] at hd
    by_cases heq : i = classId
    · subst heq
      rw [if_pos rfl] at hd
      obtain rfl := Option.some.inj hd
      exact hframes.trans (hf.frames i c hc)
    · rw [if_neg heq] at hd
      exact hf.frames i d hd

theorem frames_lt_span (hf : f.WF) (hc : f.classes[classId]? = some c) :
    c.frames < RangeMap.span := by
  have hmax := hf.le_max
  rw [hf.frames classId c hc]
  refine Nat.lt_of_le_of_lt (Word.powerOfTwo_le (k := maxSizeLog) (by omega)) ?_
  decide

/-- Claiming a frame or giving it back changes the claims by its bytes. -/
theorem claims_setClass (hf : f.WF) {c' : FrameClass} {flag : Bool}
    (hc : f.classes[classId]? = some c) (hslot : slot < c.frames) (hframes : c'.frames = c.frames)
    (hclaimed : c'.claimed = c.claimed.set slot flag) :
    (f.setClass classId c').claims =
      f.claims \ f.frame classId slot ∪ {a | flag = true ∧ a ∈ f.frame classId slot} := by
  -- Slots are claimed one by one, and frames of different slots have no address in common.
  have hget : ∀ s, s < c.frames → c'.claimed.get s = if s = slot then flag else c.claimed.get s :=
    fun s hs => by rw [hclaimed, RangeMap.get_set _ _ _ _ (Nat.lt_trans hs (frames_lt_span hf hc))]
  ext a
  constructor
  · rintro ⟨i, d, s, hd, hs, hflag, ha⟩
    change a ∈ f.frame i s at ha
    rw [getElem?_setClass hc] at hd
    by_cases hi : i = classId
    · subst hi
      rw [if_pos rfl] at hd
      obtain rfl := Option.some.inj hd
      rw [hframes] at hs
      rw [hget s hs] at hflag
      by_cases hss : s = slot
      · subst hss
        rw [if_pos rfl] at hflag
        exact .inr ⟨hflag, ha⟩
      · rw [if_neg hss] at hflag
        exact .inl ⟨⟨i, c, s, hc, hs, hflag, ha⟩, fun hin => hss (frame_eq hf hc hs hc hslot ha hin).2⟩
    · rw [if_neg hi] at hd
      exact .inl ⟨⟨i, d, s, hd, hs, hflag, ha⟩,
        fun hin => hi (frame_eq hf hd hs hc hslot ha hin).1⟩
  · rintro (⟨⟨i, d, s, hd, hs, hflag, ha⟩, hout⟩ | ⟨hflag, ha⟩)
    · by_cases hi : i = classId
      · subst hi
        obtain rfl := Option.some.inj (hc.symm.trans hd)
        refine ⟨i, c', s, by rw [getElem?_setClass hc, if_pos rfl], hframes ▸ hs, ?_, ha⟩
        rw [hget s hs, if_neg]
        · exact hflag
        · rintro rfl
          exact hout ha
      · exact ⟨i, d, s, by rw [getElem?_setClass hc, if_neg hi]; exact hd, hs, hflag, ha⟩
    · refine ⟨classId, c', slot, by rw [getElem?_setClass hc, if_pos rfl], hframes ▸ hslot, ?_, ha⟩
      rw [hget slot hslot, if_pos rfl]
      exact hflag

/-- What else is known of a class does not matter for the claims. -/
theorem claims_setClass_of_eq {c' : FrameClass} (hc : f.classes[classId]? = some c)
    (hframes : c'.frames = c.frames) (hclaimed : c'.claimed = c.claimed) :
    (f.setClass classId c').claims = f.claims := by
  ext a
  constructor
  · rintro ⟨i, d, s, hd, hs, hflag, ha⟩
    rw [getElem?_setClass hc] at hd
    by_cases hi : i = classId
    · subst hi
      rw [if_pos rfl] at hd
      obtain rfl := Option.some.inj hd
      exact ⟨i, c, s, hc, hframes ▸ hs, hclaimed ▸ hflag, ha⟩
    · rw [if_neg hi] at hd
      exact ⟨i, d, s, hd, hs, hflag, ha⟩
  · rintro ⟨i, d, s, hd, hs, hflag, ha⟩
    by_cases hi : i = classId
    · subst hi
      obtain rfl := Option.some.inj (hc.symm.trans hd)
      exact ⟨i, c', s, by rw [getElem?_setClass hc, if_pos rfl], hframes ▸ hs, hclaimed ▸ hflag, ha⟩
    · exact ⟨i, d, s, by rw [getElem?_setClass hc, if_neg hi]; exact hd, hs, hflag, ha⟩

/-! ## Counting -/

/-- The number of claimed frames of a fake stack. -/
def claimedCount (f : FakeStack) : Nat :=
  (f.classes.toList.map (·.claimedSlots.card)).sum

/-- Another state of a class counts for the one before. -/
theorem claimedCount_setClass (c' : FrameClass) (hc : f.classes[classId]? = some c) :
    (f.setClass classId c').claimedCount + c.claimedSlots.card =
      f.claimedCount + c'.claimedSlots.card := by
  unfold claimedCount setClass
  rw [Array.toList_setIfInBounds]
  refine sum_map_set (fun d => d.claimedSlots.card) c' ?_
  rw [← hc, Array.getElem?_toList]

/-- A class with a frame in another state has the others as before. -/
theorem claimedSlots_set (hf : f.WF) {c' : FrameClass} {flag : Bool}
    (hc : f.classes[classId]? = some c) (hframes : c'.frames = c.frames)
    (hclaimed : c'.claimed = c.claimed.set slot flag) {s : Nat} :
    s ∈ c'.claimedSlots ↔ s < c.frames ∧ (if s = slot then flag else c.claimed.get s) = true := by
  unfold FrameClass.claimedSlots
  rw [Finset.mem_filter, Finset.mem_range, hframes]
  refine and_congr_right fun hs => ?_
  rw [hclaimed, RangeMap.get_set _ _ _ _ (Nat.lt_trans hs (frames_lt_span hf hc))]

theorem mem_claimedSlots {s : Nat} :
    s ∈ c.claimedSlots ↔ s < c.frames ∧ c.claimed.get s = true := by
  unfold FrameClass.claimedSlots
  rw [Finset.mem_filter, Finset.mem_range]

/-- A frame that is claimed counts. -/
theorem claimedCount_claim (hf : f.WF) {c' : FrameClass} (hc : f.classes[classId]? = some c)
    (hslot : slot < c.frames) (hfree : c.claimed.get slot = false) (hframes : c'.frames = c.frames)
    (hclaimed : c'.claimed = c.claimed.set slot true) :
    (f.setClass classId c').claimedCount = f.claimedCount + 1 := by
  have hnew : slot ∉ c.claimedSlots := fun hin => by
    rw [(mem_claimedSlots.mp hin).2] at hfree
    exact nomatch hfree
  have hslots : c'.claimedSlots = insert slot c.claimedSlots := by
    ext s
    rw [claimedSlots_set hf hc hframes hclaimed, Finset.mem_insert, mem_claimedSlots]
    by_cases hs : s = slot
    · simp [hs, hslot]
    · simp [hs]
  have hcount := claimedCount_setClass c' hc
  rw [hslots, Finset.card_insert_of_notMem hnew] at hcount
  omega

/-- A claimed frame that is given back does not count any more. -/
theorem claimedCount_free (hf : f.WF) {c' : FrameClass} (hc : f.classes[classId]? = some c)
    (hslot : slot < c.frames) (htaken : c.claimed.get slot = true) (hframes : c'.frames = c.frames)
    (hclaimed : c'.claimed = c.claimed.set slot false) :
    (f.setClass classId c').claimedCount + 1 = f.claimedCount := by
  have hold : slot ∈ c.claimedSlots := mem_claimedSlots.mpr ⟨hslot, htaken⟩
  have hslots : c'.claimedSlots = c.claimedSlots.erase slot := by
    ext s
    rw [claimedSlots_set hf hc hframes hclaimed, Finset.mem_erase, mem_claimedSlots]
    by_cases hs : s = slot
    · simp [hs]
    · simp [hs]
  have hcount := claimedCount_setClass c' hc
  have hcard := Finset.card_erase_add_one hold
  rw [hslots] at hcount
  omega

/-- What else is known of a class does not matter for the count. -/
theorem claimedCount_setClass_of_eq {c' : FrameClass} (hc : f.classes[classId]? = some c)
    (hframes : c'.frames = c.frames) (hclaimed : c'.claimed = c.claimed) :
    (f.setClass classId c').claimedCount = f.claimedCount := by
  have hslots : c'.claimedSlots = c.claimedSlots := by
    unfold FrameClass.claimedSlots
    rw [hframes, hclaimed]
  have hcount := claimedCount_setClass c' hc
  rw [hslots] at hcount
  omega

/-! ## Making one -/

/-- A fake stack none of whose frames was ever claimed. -/
def fresh (begin sizeLog : Nat) : FakeStack where
  begin
  sizeLog
  classes := (Array.range classCount).map fun classId =>
    { frames := Word.powerOfTwo (sizeLog - minFrameSizeLog - classId) }

theorem getElem?_fresh {begin sizeLog : Nat} (hc : (fresh begin sizeLog).classes[classId]? = some c) :
    c = { frames := Word.powerOfTwo (sizeLog - minFrameSizeLog - classId) } := by
  unfold fresh at hc
  rw [Array.getElem?_map, Array.getElem?_range] at hc
  by_cases hlt : classId < classCount
  · rw [if_pos hlt] at hc
    exact (Option.some.inj hc).symm
  · rw [if_neg hlt] at hc
    exact nomatch hc

/-- The classes of a fresh fake stack have all their frames, none of them claimed. -/
theorem fresh_spec (begin : Nat) {sizeLog : Nat} (hmin : minSizeLog ≤ sizeLog) (hmax : sizeLog ≤ maxSizeLog) :
    (fresh begin sizeLog).WF ∧ (fresh begin sizeLog).claims = ∅
      ∧ (fresh begin sizeLog).claimedCount = 0 := by
  refine ⟨⟨hmin, hmax, ?_, fun i c hc => ?_⟩, Set.eq_empty_iff_forall_notMem.mpr ?_,
    List.sum_eq_zero_iff.mpr ?_⟩
  · show ((Array.range classCount).map _).size = classCount
    rw [Array.size_map, Array.size_range]
  · rw [getElem?_fresh hc]
    rfl
  · rintro a ⟨i, c, slot, hc, -, hclaimed, -⟩
    rw [getElem?_fresh hc, RangeMap.get_const] at hclaimed
    exact nomatch hclaimed
  · intro n hn
    obtain ⟨c, hc, rfl⟩ := List.mem_map.mp hn
    obtain ⟨i, hi⟩ := List.mem_iff_getElem?.mp hc
    rw [Array.getElem?_toList] at hi
    refine Finset.card_eq_zero.mpr (Finset.filter_eq_empty_iff.mpr fun slot _ hclaimed => ?_)
    rw [getElem?_fresh hi, RangeMap.get_const] at hclaimed
    exact nomatch hclaimed

/-- A fake stack is made in a fresh block, all of which is poisoned. -/
theorem ends_create_of {h : Heap} (hwf : h.WF) {sizeLog : Nat} {ok : FakeStack → Heap → Prop}
    {no : FakeStackError → Heap → Prop}
    (hlog : sizeLog < minSizeLog ∨ maxSizeLog < sizeLog → no (.invalidSizeLog sizeLog) h)
    (hno : minSizeLog ≤ sizeLog → sizeLog ≤ maxSizeLog → ∀ a t,
      Heap.Declines (Heap.allocateLarge (totalSize sizeLog) Pages.pageSize) h a t → no (.alloc a) t)
    (hok : minSizeLog ≤ sizeLog → sizeLog ≤ maxSizeLog → ∀ begin t, (∀ b ∈ h.blocks, b.begin ≠ begin) →
      Heap.Becomes h t (h.outline.grow .large (totalSize sizeLog) [begin]) →
      Shadow.granule ∣ begin → t.space.begin ≤ begin → begin + totalSize sizeLog ≤ t.space.endAddr →
      ok (fresh begin sizeLog)
        { t with
          shadow := t.shadow.poisoned begin (totalSize sizeLog) Shadow.Magic.stackAfterReturn.byte }) :
    Act.Ends (create sizeLog) h ok no := by
  unfold create
  by_cases hrange : sizeLog < minSizeLog ∨ maxSizeLog < sizeLog
  · simp only [hrange, if_true]
    exact hlog hrange
  simp only [hrange, if_false]
  rw [not_or, Nat.not_lt, Nat.not_lt] at hrange
  obtain ⟨hmin, hmax⟩ := hrange
  have hsize : 0 < totalSize sizeLog :=
    Nat.mul_pos (by decide) (Word.powerOfTwo_pos _)
  rw [Act.ends_bind, Act.ends_mapError]
  refine (Heap.ends_allocateLarge hwf hsize (by decide)).imp ?_ (hno hmin hmax)
  rintro begin t ⟨hoff, -, hgrown⟩
  rw [roundUp_totalSize hmin] at hgrown
  have hin : Block.blank begin (totalSize sizeLog) .large ∈ t.blocks := by
    rw [hgrown.blocks]
    exact .inr ⟨begin, List.mem_singleton.mpr rfl, rfl⟩
  have hbegin := (hgrown.wf.granule_dvd hin).1
  obtain ⟨hlo, hhi⟩ := hgrown.wf.past_le hin
  rw [Act.ends_bind]
  exact Heap.ends_onShadow hgrown.wf.layout hbegin ⟨hlo, hhi⟩ (hok hmin hmax begin t hoff hgrown hbegin hlo hhi)

variable (sizeLog : Nat) in
theorem granule_dvd_totalSize (hmin : minSizeLog ≤ sizeLog) : Shadow.granule ∣ totalSize sizeLog := by
  rw [← roundUp_totalSize hmin]
  exact Heap.granule_dvd_pageSize.trans (Word.dvd_roundUp (by decide))

/-- Making a fake stack maps a block of which nothing is open, or does nothing: then the number of
    frames is out of range, or the heap has declined the block. -/
theorem ends_create {h : Heap} (hwf : h.WF) (sizeLog : Nat) :
    Act.Ends (create sizeLog) h
      (fun f t => f.WF ∧ f.claims = ∅ ∧ f.claimedCount = 0 ∧ (∀ b ∈ h.blocks, b.begin ≠ f.begin)
        ∧ Heap.Becomes h t ((h.outline.grow .large f.block.size [f.begin]).close f.block.extent))
      fun e t => h.Repaged t ∧ (minSizeLog ≤ sizeLog ∧ sizeLog ≤ maxSizeLog →
        ∃ a, e = .alloc a ∧ Heap.Declines (Heap.allocateLarge (totalSize sizeLog) Pages.pageSize) h a t) := by
  refine ends_create_of hwf (fun hout => ⟨Heap.Repaged.refl h, fun hrange => by omega⟩)
    (fun _ _ a t hno => ⟨hno.repaged, fun _ => ⟨a, rfl, hno⟩⟩) fun hmin hmax begin t hoff hgrown hbegin _ _ => ?_
  obtain ⟨hf, hclaims, hcount⟩ := fresh_spec begin hmin hmax
  have hclosed := hgrown.wf.withPoisoned Shadow.Magic.stackAfterReturn.byte hbegin
    (granule_dvd_totalSize sizeLog hmin) (Shadow.addressableBytes_magic _)
  have hsize : (fresh begin sizeLog).block.size = totalSize sizeLog := roundUp_totalSize hmin
  refine ⟨hf, hclaims, hcount, hoff, ?_⟩
  rw [extent_block hf, hsize]
  exact hgrown.trans (f := fun o => o.close _) hclosed

/-- Releasing a fake stack unmaps its block. -/
theorem ends_release {h : Heap} (hwf : h.WF) (hblock : f.block ∈ h.blocks) :
    ∃ gone, f.block.extent ⊆ gone ∧ (∀ c ∈ h.blocks, c ≠ f.block → Disjoint c.extent gone)
      ∧ Act.Ends f.release h
        (fun _ t => h.Becomes t (h.outline.unmap f.block gone t.contents)
          ∧ ∀ a, a ∉ gone → t.contents a = h.contents a)
        fun _ t => h.Becomes t (h.outline.unmap f.block gone t.contents)
          ∧ (∀ a, a ∉ gone → t.contents a = h.contents a) ∧ h.pages.armed ≠ none := by
  obtain ⟨gone, hall, hgone, hends⟩ := Heap.ends_freeLarge hwf hblock rfl
  refine ⟨gone, hall, hgone, ?_⟩
  unfold release
  rw [Act.ends_mapError]
  exact hends

end FakeStack

end GuardedHeap
