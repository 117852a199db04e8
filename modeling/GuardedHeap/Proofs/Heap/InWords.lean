import GuardedHeap.Proofs.Heap.Gaps
import GuardedHeap.Proofs.Heap.Routes

/-! # In words — no sum on the way to a block leaves the word

    Sizes and addresses are natural numbers, and most steps of an allocation
    add and subtract them without a check.  Here the same steps are written
    with all their sums, differences and products checked: what an overrun
    would stop is stopped.  On a heap in order nothing is, and the two are
    the same, step by step up to the whole of it
    (`Session.Stands.allocateInWords_eq`).

    The blocks in the lists of a cache are counted in memory that they take,
    so that counting one batch more is left as it is. -/

namespace GuardedHeap

/-! ## Spans -/

namespace Spans

variable {s : Spans} {l before after : List Span} {x : Span} {lo size : Nat}

/-- `takeFirst?` in words. -/
def takeFirstInWords (size : Nat) : List Span → Checked (Option (Nat × List Span))
  | [] => return none
  | s :: rest =>
    if size ≤ s.size then
      if size < s.size then do
        return some (s.begin, ⟨← Word.add s.begin size, ← Word.sub s.size size⟩ :: rest)
      else return some (s.begin, rest)
    else do
      return (← takeFirstInWords size rest).map fun (begin, rest) => (begin, s :: rest)

/-- `alloc` in words. -/
def allocInWords (s : Spans) (size : Nat) : Checked (Option (Nat × Spans)) := do
  match ← takeFirstInWords size s.free with
  | some (begin, free) => return some (begin, { s with free })
  | none =>
    if (← Word.sub s.past s.bump) < size then return none
    else return some (s.bump, { s with bump := ← Word.add s.bump size })

/-- `mergeBefore` in words. -/
def mergeBeforeInWords (before : List Span) (s : Span) : Checked (List Span × Span) :=
  match before.getLast? with
  | some p => do
    if (← Word.add p.begin p.size) = s.begin then
      return (before.dropLast, ⟨p.begin, ← Word.add p.size s.size⟩)
    else return (before, s)
  | none => return (before, s)

/-- `mergeAfter` in words. -/
def mergeAfterInWords (s : Span) (after : List Span) : Checked (Span × List Span) := do
  let past ← Word.add s.begin s.size
  match after with
  | [] => return (s, [])
  | n :: rest =>
    if n.begin = past then return (⟨s.begin, ← Word.add s.size n.size⟩, rest)
    else return (s, n :: rest)

/-- `release` in words. -/
def releaseInWords (s : Spans) (span : Span) : Checked Spans := do
  let (before, grown) ← mergeBeforeInWords (s.free.takeWhile (·.begin < span.begin)) span
  let (grown, after) ← mergeAfterInWords grown (s.free.dropWhile (·.begin < span.begin))
  if (← Word.add grown.begin grown.size) = s.bump then
    return { s with free := before ++ after, bump := grown.begin }
  else return { s with free := before ++ grown :: after }

/-- The search for a span in words finds the same span. -/
theorem takeFirstInWords_eq (hlt : ∀ x ∈ l, x.past < Word.limit) :
    takeFirstInWords size l = .ok (takeFirst? size l) := by
  induction l with
  | nil => rfl
  | cons s rest ih =>
      obtain ⟨hs, hrest⟩ := List.forall_mem_cons.mp hlt
      unfold takeFirstInWords takeFirst?
      unfold Span.past at hs
      by_cases hfits : size ≤ s.size
      · rw [if_pos hfits, if_pos hfits]
        by_cases hcut : size < s.size
        · have hadd : Word.add s.begin size = .ok (s.begin + size) := Word.add_eq_ok.mpr ⟨by omega, rfl⟩
          have hsub : Word.sub s.size size = .ok (s.size - size) := Word.sub_eq_ok.mpr ⟨hfits, rfl⟩
          rw [if_pos hcut, if_pos hcut, hadd, hsub]
          rfl
        · rw [if_neg hcut, if_neg hcut]
          rfl
      · rw [if_neg hfits, if_neg hfits, ih hrest]
        rfl

/-- Taking a span from a range of words does not overrun. -/
theorem allocInWords_eq (h : WF lo s) (hlt : s.past < Word.limit) : s.allocInWords size = .ok (s.alloc size) := by
  have hle := h.bump_le
  unfold allocInWords alloc
  rw [takeFirstInWords_eq fun x hx => Nat.lt_trans (h.apart.bump x hx) (by omega)]
  cases takeFirst? size s.free with
  | some found => rfl
  | none =>
      have hsub : Word.sub s.past s.bump = .ok (s.past - s.bump) := Word.sub_eq_ok.mpr ⟨hle, rfl⟩
      show (Word.sub s.past s.bump >>= _) = _
      rw [hsub]
      show (if s.past - s.bump < size then _ else _) = _
      by_cases hnone : s.past - s.bump < size
      · rw [if_pos hnone, if_pos hnone]
        rfl
      · have hadd : Word.add s.bump size = .ok (s.bump + size) := Word.add_eq_ok.mpr ⟨by omega, rfl⟩
        rw [if_neg hnone, if_neg hnone, hadd]
        rfl

/-- What has grown at its beginning ends where it ended. -/
theorem past_mergeBefore (before : List Span) (x : Span) : (mergeBefore before x).2.past = x.past := by
  unfold mergeBefore
  cases before.getLast? with
  | none => rfl
  | some p =>
      by_cases htouch : p.past = x.begin
      · simp only [if_pos htouch]
        unfold Span.past at *
        show p.begin + (p.size + x.size) = x.begin + x.size
        omega
      · simp only [if_neg htouch]

/-- Merging with the spans before overruns no word. -/
theorem mergeBeforeInWords_eq (hbefore : ∀ p ∈ before, p.past < Word.limit) (hx : x.past < Word.limit) :
    mergeBeforeInWords before x = .ok (mergeBefore before x) := by
  unfold mergeBeforeInWords mergeBefore
  cases hlast : before.getLast? with
  | none => rfl
  | some p =>
      have hp := hbefore p (List.mem_of_getLast? hlast)
      have hadd : Word.add p.begin p.size = .ok p.past := Word.add_eq_ok.mpr ⟨hp, rfl⟩
      dsimp only
      rw [hadd]
      show (if p.past = x.begin then _ else _) = _
      by_cases htouch : p.past = x.begin
      · have hsum : Word.add p.size x.size = .ok (p.size + x.size) := by
          unfold Span.past at *
          exact Word.add_eq_ok.mpr ⟨by omega, rfl⟩
        rw [if_pos htouch, if_pos htouch, hsum]
        rfl
      · rw [if_neg htouch, if_neg htouch]
        rfl

/-- Merging with the spans behind overruns no word. -/
theorem mergeAfterInWords_eq (hx : x.past < Word.limit) (hafter : ∀ n ∈ after, n.past < Word.limit) :
    mergeAfterInWords x after = .ok (mergeAfter x after) ∧ (mergeAfter x after).1.past < Word.limit := by
  have hadd : Word.add x.begin x.size = .ok x.past := Word.add_eq_ok.mpr ⟨hx, rfl⟩
  unfold mergeAfterInWords
  rw [hadd]
  cases after with
  | nil => exact ⟨rfl, hx⟩
  | cons n rest =>
      have hn := hafter n List.mem_cons_self
      have hmerge : mergeAfter x (n :: rest)
          = if n.begin = x.past then (⟨x.begin, x.size + n.size⟩, rest) else (x, n :: rest) := rfl
      rw [hmerge]
      show (if n.begin = x.past then _ else _) = _ ∧ _
      by_cases htouch : n.begin = x.past
      · unfold Span.past at *
        have hsum : Word.add x.size n.size = .ok (x.size + n.size) := Word.add_eq_ok.mpr ⟨by omega, rfl⟩
        rw [if_pos htouch, if_pos htouch, hsum]
        refine ⟨rfl, ?_⟩
        show x.begin + (x.size + n.size) < Word.limit
        omega
      · rw [if_neg htouch, if_neg htouch]
        exact ⟨rfl, hx⟩

/-- Giving a span back to a range of words does not overrun. -/
theorem releaseInWords_eq (h : WF lo s) (hlt : s.past < Word.limit) (hx : x.past ≤ s.past) :
    s.releaseInWords x = .ok (s.release x) := by
  have hfree : ∀ y ∈ s.free, y.past < Word.limit := fun y hy =>
    Nat.lt_trans (h.apart.bump y hy) (Nat.lt_of_le_of_lt h.bump_le hlt)
  have hxlt : x.past < Word.limit := Nat.lt_of_le_of_lt hx hlt
  unfold releaseInWords release
  rw [mergeBeforeInWords_eq (fun p hp => hfree p (List.takeWhile_subset _ hp)) hxlt]
  have hgrown := past_mergeBefore (s.free.takeWhile (·.begin < x.begin)) x
  generalize mergeBefore (s.free.takeWhile (·.begin < x.begin)) x = merged at hgrown ⊢
  obtain ⟨before, grown⟩ := merged
  dsimp only at hgrown ⊢
  have hgrownlt : grown.past < Word.limit := hgrown ▸ hxlt
  have hafter : ∀ n ∈ s.free.dropWhile (·.begin < x.begin), n.past < Word.limit := fun n hn =>
    hfree n (List.dropWhile_subset _ hn)
  obtain ⟨hmerge, hend⟩ := mergeAfterInWords_eq hgrownlt hafter
  show (mergeAfterInWords grown _ >>= _) = _
  rw [hmerge]
  generalize mergeAfter grown (s.free.dropWhile (·.begin < x.begin)) = merged at hend ⊢
  obtain ⟨whole, after⟩ := merged
  have hadd : Word.add whole.begin whole.size = .ok whole.past := Word.add_eq_ok.mpr ⟨hend, rfl⟩
  show (Word.add whole.begin whole.size >>= _) = _
  rw [hadd]
  show (if whole.past = s.bump then _ else _) = _
  dsimp only
  split <;> rfl

end Spans

/-! ## Regions -/

namespace Heap

open Act

/-- `regionBegin` in words. -/
def regionBeginInWords (h : Heap) (classId : Nat) : Checked Nat := do
  Word.add h.space.begin (← Word.mul classId h.regionSize)

/-- `Region.nextReach` in words. -/
def Region.nextReachInWords (r : Region) (size : Nat) : Checked Reach := do
  let bytes ← Word.add size recordSize
  let count := max (carveBytes / bytes) 1
  return {
    user := ← Word.add r.allocatedUser (← Word.mul count size)
    records := ← Word.add r.allocatedMeta (← Word.mul count recordSize)
  }

/-- The blocks of a class from the first one on, in words. -/
def freshInWords (first size : Nat) : Checked (List Nat) :=
  (List.range (carveCount size)).mapM fun i => do Word.add first (← Word.mul i size)

/-- `commitRegion` in words. -/
def commitRegionInWords (classId : Nat) (reach : Reach) : Act AllocError Heap Unit := do
  let h ← get
  let r ← region classId
  let begin ← h.regionBeginInWords classId
  let past ← Word.add begin h.regionSize
  let userTarget := max (min (← Word.nextMultiple reach.user commitBytes) h.regionSize) r.mappedUser
  let recordTarget :=
    max (min (← Word.nextMultiple reach.records recordCommitBytes) h.regionSize) r.mappedMeta
  let userBegin ← Word.add begin r.mappedUser
  let userSize ← Word.sub userTarget r.mappedUser
  let recordBegin ← Word.sub past recordTarget
  let recordSize ← Word.sub recordTarget r.mappedMeta
  onPages (Pages.commit userBegin userSize)
  onPages (Pages.commit recordBegin recordSize)
  if userTarget > r.mappedUser then
    poison userBegin userSize .heapLeftRedzone
  putRegion classId { r with mappedUser := userTarget, mappedMeta := recordTarget }

/-- `populate` in words. -/
def populateInWords (classId : Nat) : Act AllocError Heap Unit := do
  let h ← get
  let r ← region classId
  let size := h.classes.size classId
  let begin ← h.regionBeginInWords classId
  let reach ← Region.nextReachInWords r size
  let userPages ← Word.nextMultiple reach.user Pages.pageSize
  let recordPages ← Word.nextMultiple reach.records Pages.pageSize
  if (← Word.add userPages recordPages) > h.regionSize then
    Act.refuse (.regionExhausted classId h.regionSize)
  if Region.needsPages r reach then
    commitRegionInWords classId reach
  let r ← region classId
  let first ← Word.add begin r.allocatedUser
  let fresh ← freshInWords first size
  putRegion classId { r with
    freeList := fresh ++ r.freeList
    allocatedUser := reach.user
    allocatedMeta := reach.records }

/-- `stockedRegion` in words. -/
def stockedRegionInWords (classId : Nat) : Act AllocError Heap Region := do
  let r ← region classId
  if r.freeList.isEmpty then
    populateInWords classId
    region classId
  else
    return r

/-- `takeBatch` in words. -/
def takeBatchInWords (classId : Nat) : Act AllocError Heap (List Nat) := do
  let r ← stockedRegionInWords classId
  let count := (← get).classes.maxCached classId
  putRegion classId { r with freeList := r.freeList.drop count }
  return r.freeList.take count

/-- The slots that are carved have addresses that are words. -/
theorem freshInWords_eq {first size : Nat} (hlt : first + carveCount size * size < Word.limit) :
    freshInWords first size = .ok ((List.range (carveCount size)).map fun i => first + i * size) := by
  have hall : ∀ l : List Nat, (∀ i ∈ l, i < carveCount size) →
      (l.mapM fun i => do Word.add first (← Word.mul i size)) = (.ok (l.map fun i => first + i * size) : Checked (List Nat)) := by
    intro l hl
    induction l with
    | nil => rfl
    | cons i rest ih =>
        obtain ⟨hi, hrest⟩ := List.forall_mem_cons.mp hl
        have hle : i * size ≤ carveCount size * size := Nat.mul_le_mul_right size (Nat.le_of_lt hi)
        have hmul : Word.mul i size = .ok (i * size) := Word.mul_eq_ok.mpr ⟨by omega, rfl⟩
        have hadd : Word.add first (i * size) = .ok (first + i * size) := Word.add_eq_ok.mpr ⟨by omega, rfl⟩
        rw [List.mapM_cons, ih hrest, hmul]
        show (Word.add first (i * size) >>= _) = _
        rw [hadd]
        rfl
  exact hall _ fun i hi => List.mem_range.mp hi

namespace Sited

variable {h : Heap} {c : Nat} {r : Region} (hs : h.Sited)

include hs

theorem regionSize_le : h.regionSize ≤ Word.powerOfTwo 36 := by
  obtain ⟨log, -, hle, hsize⟩ := hs.regionSize
  rw [hsize]
  exact Nat.pow_le_pow_right (by decide) hle

/-- The beginning of a region is a word. -/
theorem regionBeginInWords_eq (hc : c < h.regions.size) : h.regionBeginInWords c = .ok (h.regionBegin c) := by
  have hlt := hs.tracts.region_lt_limit hc
  unfold regionBegin at hlt
  have hmul : Word.mul c h.regionSize = .ok (c * h.regionSize) := Word.mul_eq_ok.mpr ⟨by omega, rfl⟩
  unfold regionBeginInWords
  rw [hmul]
  exact Word.add_eq_ok.mpr ⟨by omega, rfl⟩

/-- What a region reaches next is a word. -/
theorem nextReachInWords_eq (hr : h.regions[c]? = some r) :
    Region.nextReachInWords r (h.classes.size c) = .ok (Region.nextReach r (h.classes.size c)) := by
  have hlawful := hs.classes.lawful
  have hreach := nextReach_lt hs.tracts hlawful hs.regionSize_le hr
  have hsize := hlawful.size_le_signLimit (hs.tracts.regions ▸ lt_size_of_region hr)
  have huser := Word.le_roundUp (n := (Region.nextReach r (h.classes.size c)).user) (m := Pages.pageSize)
  have hrecords := Word.le_roundUp (n := (Region.nextReach r (h.classes.size c)).records) (m := Pages.pageSize)
  unfold Region.nextReach at hreach huser hrecords ⊢
  unfold Region.nextReachInWords
  generalize h.classes.size c = size at *
  have hbytes : Word.add size recordSize = .ok (size + recordSize) :=
    Word.add_eq_ok.mpr ⟨by simp only [Word.signLimit, Word.limit, recordSize] at *; omega, rfl⟩
  rw [hbytes]
  show (Word.mul (carveCount size) size >>= _) = _
  dsimp only at hreach huser hrecords
  have hmul : Word.mul (carveCount size) size = .ok (carveCount size * size) := Word.mul_eq_ok.mpr ⟨by omega, rfl⟩
  have hmul' : Word.mul (carveCount size) recordSize = .ok (carveCount size * recordSize) :=
    Word.mul_eq_ok.mpr ⟨by omega, rfl⟩
  have hadd : Word.add r.allocatedUser (carveCount size * size) = .ok (r.allocatedUser + carveCount size * size) :=
    Word.add_eq_ok.mpr ⟨by omega, rfl⟩
  have hadd' : Word.add r.allocatedMeta (carveCount size * recordSize)
      = .ok (r.allocatedMeta + carveCount size * recordSize) := Word.add_eq_ok.mpr ⟨by omega, rfl⟩
  rw [hmul]
  show (Word.add r.allocatedUser (carveCount size * size) >>= _) = _
  rw [hadd]
  show (Word.mul (carveCount size) recordSize >>= _) = _
  rw [hmul']
  show (Word.add r.allocatedMeta (carveCount size * recordSize) >>= _) = _
  rw [hadd']
  rfl

/-- Committing up to a reach in the region does not overrun. -/
theorem commitRegionInWords_eq (hr : h.regions[c]? = some r) {reach : Reach} (huser : reach.user ≤ h.regionSize)
    (hrecords : reach.records ≤ h.regionSize) : commitRegionInWords c reach h = commitRegion c reach h := by
  have hregion := hs.tracts.region c r hr
  have hlt := hs.tracts.region_lt_limit (lt_size_of_region hr)
  have hsize := hs.regionSize_le
  have hbegin := hs.regionBeginInWords_eq (lt_size_of_region hr)
  have hpast : Word.add (h.regionBegin c) h.regionSize = .ok (h.regionBegin c + h.regionSize) :=
    Word.add_eq_ok.mpr ⟨hlt, rfl⟩
  have hmappedUser := hregion.mappedUser_le
  have hmappedMeta := hregion.mappedMeta_le
  have hup := Word.roundUp_lt (n := reach.user) (m := commitBytes) (by decide)
  have hup' := Word.roundUp_lt (n := reach.records) (m := recordCommitBytes) (by decide)
  rw [show Word.powerOfTwo 36 = 68719476736 by decide] at hsize
  have hround : Word.nextMultiple reach.user commitBytes = .ok (Word.roundUp reach.user commitBytes) :=
    Word.nextMultiple_eq_ok.mpr ⟨by decide, by simp only [commitBytes, Word.limit] at *; omega, rfl⟩
  have hround' : Word.nextMultiple reach.records recordCommitBytes
      = .ok (Word.roundUp reach.records recordCommitBytes) :=
    Word.nextMultiple_eq_ok.mpr ⟨by decide, by simp only [recordCommitBytes, Word.limit] at *; omega, rfl⟩
  unfold commitRegionInWords commitRegion
  rw [get_bind, get_bind]
  refine bind_congr_ok rfl fun q t hq => ?_
  rw [region_eq hr] at hq
  cases hq
  -- The first four checked operations are sums that the region bounds, the roundings included.
  rw [checked_bind hbegin, checked_bind hpast, checked_bind hround, checked_bind hround']
  dsimp only
  have huserTarget : r.mappedUser ≤ max (min (Word.roundUp reach.user commitBytes) h.regionSize) r.mappedUser :=
    Nat.le_max_right _ _
  have hrecordTarget : r.mappedMeta
        ≤ max (min (Word.roundUp reach.records recordCommitBytes) h.regionSize) r.mappedMeta
      ∧ max (min (Word.roundUp reach.records recordCommitBytes) h.regionSize) r.mappedMeta ≤ h.regionSize :=
    ⟨Nat.le_max_right _ _, Nat.max_le.mpr ⟨Nat.min_le_right _ _, hmappedMeta⟩⟩
  generalize max (min (Word.roundUp reach.user commitBytes) h.regionSize) r.mappedUser = userTarget at *
  generalize max (min (Word.roundUp reach.records recordCommitBytes) h.regionSize) r.mappedMeta = recordTarget at *
  -- The other four measure the pieces to commit, which begin where the old ones end.
  have huserBegin : Word.add (h.regionBegin c) r.mappedUser = .ok (h.regionBegin c + r.mappedUser) :=
    Word.add_eq_ok.mpr ⟨by omega, rfl⟩
  have huserSize : Word.sub userTarget r.mappedUser = .ok (userTarget - r.mappedUser) :=
    Word.sub_eq_ok.mpr ⟨huserTarget, rfl⟩
  have hrecordBegin : Word.sub (h.regionBegin c + h.regionSize) recordTarget
      = .ok (h.regionBegin c + h.regionSize - recordTarget) := Word.sub_eq_ok.mpr ⟨by omega, rfl⟩
  have hrecordSize : Word.sub recordTarget r.mappedMeta = .ok (recordTarget - r.mappedMeta) :=
    Word.sub_eq_ok.mpr ⟨hrecordTarget.1, rfl⟩
  rw [checked_bind huserBegin, checked_bind huserSize, checked_bind hrecordBegin, checked_bind hrecordSize]

/-- What is carved begins where the region had carved up to, and ends in the region. -/
theorem carveInWords_eq {t : Heap} {q : Region} {reach : Reach} (hr : h.regions[c]? = some r)
    (hq : t.regions[c]? = some q) (huser : q.allocatedUser = r.allocatedUser)
    (hreach : Region.nextReach r (h.classes.size c) = reach) (hfits : reach.user ≤ h.regionSize) :
    (do
      let q ← region c
      let first ← Word.add (h.regionBegin c) q.allocatedUser
      let fresh ← freshInWords first (h.classes.size c)
      putRegion c { q with
        freeList := fresh ++ q.freeList
        allocatedUser := reach.user
        allocatedMeta := reach.records }) t
    = (region c >>= fun q => putRegion c (Region.carve q (h.regionBegin c) (h.classes.size c) reach)) t := by
  have hlt := hs.tracts.region_lt_limit (lt_size_of_region hr)
  refine bind_congr_ok rfl fun q' t' hact => ?_
  rw [region_eq hq] at hact
  cases hact
  have hroom : h.regionBegin c + q.allocatedUser + carveCount (h.classes.size c) * h.classes.size c < Word.limit := by
    rw [huser]
    rw [← hreach] at hfits
    unfold Region.nextReach at hfits
    dsimp only at hfits
    omega
  have hfirst : Word.add (h.regionBegin c) q.allocatedUser = .ok (h.regionBegin c + q.allocatedUser) :=
    Word.add_eq_ok.mpr ⟨by omega, rfl⟩
  rw [checked_bind hfirst, checked_bind (freshInWords_eq hroom)]
  rfl

/-- Populating a region does not overrun. -/
theorem populateInWords_eq (hr : h.regions[c]? = some r) : populateInWords c h = populate c h := by
  have hlt := hs.tracts.region_lt_limit (lt_size_of_region hr)
  have hreach := nextReach_lt hs.tracts hs.classes.lawful hs.regionSize_le hr
  have huser := Word.le_roundUp (n := (Region.nextReach r (h.classes.size c)).user) (m := Pages.pageSize)
  have hrecords := Word.le_roundUp (n := (Region.nextReach r (h.classes.size c)).records) (m := Pages.pageSize)
  have huserPages : Word.nextMultiple (Region.nextReach r (h.classes.size c)).user Pages.pageSize = .ok _ :=
    Word.nextMultiple_eq_ok.mpr ⟨by decide, by omega, rfl⟩
  have hrecordPages : Word.nextMultiple (Region.nextReach r (h.classes.size c)).records Pages.pageSize = .ok _ :=
    Word.nextMultiple_eq_ok.mpr ⟨by decide, by omega, rfl⟩
  unfold populateInWords populate
  rw [get_bind, get_bind]
  refine bind_congr_ok rfl fun q t hq => ?_
  rw [region_eq hr] at hq
  cases hq
  rw [checked_bind (hs.regionBeginInWords_eq (lt_size_of_region hr)), checked_bind (hs.nextReachInWords_eq hr),
    checked_bind huserPages, checked_bind hrecordPages, checked_bind (Word.add_eq_ok.mpr ⟨hreach, rfl⟩)]
  dsimp only
  generalize hnext : Region.nextReach r (h.classes.size c) = reach at *
  by_cases hfull : Word.roundUp reach.user Pages.pageSize + Word.roundUp reach.records Pages.pageSize > h.regionSize
  · rw [if_pos hfull, if_pos hfull]
    rfl
  rw [if_neg hfull, if_neg hfull]
  by_cases hneeds : Region.needsPages r reach = true
  · rw [if_pos hneeds, if_pos hneeds]
    have hcommit : commitRegionInWords c reach h = commitRegion c reach h :=
      hs.commitRegionInWords_eq hr (by omega) (by omega)
    refine bind_congr_ok hcommit fun _ t hact => ?_
    obtain ⟨-, user, records, -, -, hregions⟩ :=
      (hs.tracts.ends_commitRegion hr reach (by omega) (by omega)).of_ok hact
    refine hs.carveInWords_eq (q := { r with mappedUser := user, mappedMeta := records }) hr ?_ rfl hnext (by omega)
    rw [hregions, regions_setRegion (lt_size_of_region hr), if_pos rfl]
  · rw [if_neg hneeds, if_neg hneeds]
    exact hs.carveInWords_eq hr hr rfl hnext (by omega)

/-- A region is stocked in words. -/
theorem stockedRegionInWords_eq (hc : c < h.classes.count) : stockedRegionInWords c h = stockedRegion c h := by
  obtain ⟨r, hr⟩ := hs.tracts.exists_region hc
  unfold stockedRegionInWords stockedRegion
  refine bind_congr_ok rfl fun q t hq => ?_
  rw [region_eq hr] at hq
  cases hq
  split
  · exact bind_congr_ok (hs.populateInWords_eq hr) fun _ _ _ => rfl
  · rfl

/-- Taking a batch does not overrun. -/
theorem takeBatchInWords_eq (hc : c < h.classes.count) : takeBatchInWords c h = takeBatch c h :=
  bind_congr_ok (hs.stockedRegionInWords_eq hc) fun _ _ _ => rfl

end Sited

end Heap

/-! ## Large blocks -/

namespace Large

variable {l : Large}

/-- The mappings of the live blocks have no more bytes than the range. -/
theorem WF.sum_mapSize_le (hl : l.WF) : (l.bodies.map (·.mapSize)).sum ≤ l.past - l.begin := by
  have hnodup : l.bodies.Nodup := hl.users_nodup.of_map
  rw [← List.sum_toFinset _ hnodup, ← Nat.card_Ico]
  refine sum_size_le_card (·.mapBegin) (fun b hb c hc a hab hac => ?_) fun b hb a hab => ?_
  · exact hl.eq_of_mem (List.mem_toFinset.mp hb) (List.mem_toFinset.mp hc) hab hac
  · have hplaced := hl.placed b (List.mem_toFinset.mp hb)
    exact Finset.mem_Ico.mpr ⟨Nat.le_trans hplaced.lo_le hab.1, Nat.lt_of_lt_of_le hab.2 hplaced.le_hi⟩

/-- There are no more live blocks than bytes in their mappings. -/
theorem WF.length_le_sum (hl : l.WF) : l.bodies.length ≤ (l.bodies.map (·.mapSize)).sum := by
  have hle := List.length_le_sum_of_one_le (l.bodies.map (·.mapSize)) fun n hn => by
    obtain ⟨b, hb, rfl⟩ := List.mem_map.mp hn
    exact (span_solid (hl.placed b hb)).size_pos
  rwa [List.length_map] at hle

end Large

namespace Heap

open Act

/-- `takeSpan` in words. -/
def takeSpanInWords (size mapSize : Nat) : Act AllocError Heap Nat := do
  let h ← get
  let (begin, spans) ← Act.orRefuse (.secondaryExhausted size) (← h.large.spans.allocInWords mapSize)
  modifyLarge fun l => { l with spans }
  return begin

/-- `returnSpan` in words. -/
def returnSpanInWords (span : Span) : Act AllocError Heap Unit := do
  let spans ← (← get).large.spans.releaseInWords span
  modifyLarge fun l => { l with spans }

/-- `Large.link` in words. -/
def linkInWords (b : LargeBlock) : Act AllocError Heap Unit := do
  let l := (← get).large
  let _ ← Word.sub b.user Pages.pageSize
  let count ← Word.add l.count 1
  let totalMapped ← Word.add l.totalMapped b.mapSize
  modifyLarge fun l => { l.link b with count, totalMapped }

/-- `allocateLarge` in words. -/
def allocateLargeInWords (size alignment : Nat) : Act AllocError Heap Nat := do
  let mapSize ← Act.orRefuse (.overflow size alignment) (mapSizeFor? size alignment)
  let mapBegin ← takeSpanInWords size mapSize
  match ← Act.attempt (onPages (Pages.commit mapBegin mapSize)) with
  | .error e =>
    returnSpanInWords ⟨mapBegin, mapSize⟩
    Act.refuse e
  | .ok () =>
    poison mapBegin mapSize .heapLeftRedzone
    let user ← Word.nextMultiple (← Word.add mapBegin Pages.pageSize) (max alignment Pages.pageSize)
    linkInWords { user, size, mapBegin, mapSize, prev := 0, next := 0, record := {} }
    return user

theorem takeSpan_eq_ok {h t : Heap} {size mapSize begin : Nat} (hact : takeSpan size mapSize h = .ok begin t) :
    ∃ spans, h.large.spans.alloc mapSize = some (begin, spans) ∧ t = { h with large := { h.large with spans } } := by
  unfold takeSpan at hact
  rw [get_bind] at hact
  obtain ⟨⟨begin', spans⟩, _, hfound, hact⟩ := bind_eq_ok.mp hact
  obtain ⟨halloc, rfl⟩ := orRefuse_eq_ok.mp hfound
  obtain ⟨_, _, hmodify, hact⟩ := bind_eq_ok.mp hact
  obtain rfl := modify_eq_ok.mp hmodify
  obtain ⟨rfl, rfl⟩ := pure_eq_ok.mp hact
  exact ⟨spans, halloc, rfl⟩

/-- A span is given back in words. -/
theorem returnSpanInWords_eq {h : Heap} {span : Span} (hl : h.large.WF) (hlimit : h.large.past < Word.limit)
    (hspan : span.past ≤ h.large.past) : returnSpanInWords span h = returnSpan span h := by
  have hrelease : h.large.spans.releaseInWords span = .ok (h.large.spans.release span) := by
    refine Spans.releaseInWords_eq hl.spans ?_ ?_
    · rw [hl.spans_past]
      exact hlimit
    · rw [hl.spans_past]
      exact hspan
  unfold returnSpanInWords returnSpan
  rw [get_bind, checked_bind hrelease]
  rfl

/-- A block is counted with the others, whose mappings have room in the range. -/
theorem linkInWords_eq {h : Heap} {b : LargeBlock} (hlinked : (h.large.link b).WF) (hcounted : h.large.Counted)
    (hlimit : h.large.past < Word.limit) (huser : Pages.pageSize ≤ b.user) :
    linkInWords b h = (modifyLarge fun l => l.link b : Act AllocError Heap Unit) h := by
  have hbodies := hlinked.sum_mapSize_le
  have hlength := hlinked.length_le_sum
  rw [Large.bodies_link, List.map_cons, List.sum_cons] at hbodies hlength
  rw [List.length_cons] at hlength
  change b.mapSize + (h.large.bodies.map (·.mapSize)).sum ≤ h.large.past - h.large.begin at hbodies
  change h.large.bodies.length + 1 ≤ b.mapSize + (h.large.bodies.map (·.mapSize)).sum at hlength
  have hcount : h.large.count + 1 < Word.limit := by
    rw [hcounted.count]
    omega
  have htotal : h.large.totalMapped + b.mapSize < Word.limit := by
    rw [hcounted.totalMapped]
    omega
  unfold linkInWords
  rw [get_bind, checked_bind (Word.sub_eq_ok.mpr ⟨huser, rfl⟩),
    checked_bind (Word.add_eq_ok.mpr ⟨hcount, rfl⟩), checked_bind (Word.add_eq_ok.mpr ⟨htotal, rfl⟩)]
  rfl

namespace Sited

variable {h : Heap} {size alignment : Nat} (hs : h.Sited)

include hs

/-- Mapping a large block does not overrun. -/
theorem allocateLargeInWords_eq (hsize : 0 < size) (halign : Word.isPowerOfTwo alignment = true) :
    allocateLargeInWords size alignment h = allocateLarge size alignment h := by
  have hpast : h.large.spans.past < Word.limit := by
    rw [hs.large.spans_past]
    exact hs.large_lt
  unfold allocateLargeInWords allocateLarge
  refine bind_congr_ok rfl fun mapSize t hmap => ?_
  obtain ⟨hmapSize, rfl⟩ := orRefuse_eq_ok.mp hmap
  refine bind_congr_ok ?_ fun mapBegin t htake => ?_
  · unfold takeSpanInWords takeSpan
    rw [get_bind, get_bind, checked_bind (Spans.allocInWords_eq hs.large.spans hpast)]
  obtain ⟨spans, halloc, rfl⟩ := takeSpan_eq_ok htake
  obtain ⟨htaken, hplaced, hlinked⟩ := hs.large.alloc hsize halign hmapSize halloc
  have hlimit := hs.large_lt
  have hheader := hplaced.header_le
  have hend := hplaced.past_le
  have hhi := hplaced.le_hi
  have hround := Word.le_roundUp (n := size) (m := Pages.pageSize)
  simp only [Large.mapped, LargeBlock.past] at hheader hend hhi
  refine bind_congr_ok rfl fun answer t hcommit => ?_
  have hlarge : t.large = { h.large with spans } := (Fixes.attempt fixes_large_onPages).of_ok hcommit
  cases answer with
  | error e =>
      refine bind_congr_ok (returnSpanInWords_eq ?_ ?_ ?_) fun _ _ _ => rfl
      · exact hlarge ▸ htaken
      · exact hlarge ▸ hs.large_lt
      · exact hlarge ▸ hhi
  | ok done =>
      refine bind_congr_ok rfl fun _ u hpoison => ?_
      have hlarge' : u.large = { h.large with spans } := (fixes_large_onShadow.of_ok hpoison).trans hlarge
      rw [checked_bind (Word.add_eq_ok.mpr ⟨by omega, rfl⟩)]
      refine bind_congr_ok rfl fun user v huser => ?_
      obtain ⟨hnext, rfl⟩ := liftM_eq_ok.mp huser
      obtain ⟨-, -, rfl⟩ := Word.nextMultiple_eq_ok.mp hnext
      refine bind_congr_ok (linkInWords_eq ?_ ?_ ?_ ?_) fun _ _ _ => rfl
      · exact hlarge' ▸ hlinked
      · exact hlarge' ▸ ⟨hs.counted.count, hs.counted.totalMapped⟩
      · exact hlarge' ▸ hs.large_lt
      · show Pages.pageSize ≤ Word.roundUp (mapBegin + Pages.pageSize) (max alignment Pages.pageSize)
        omega

end Sited

/-! ## Blocks -/

namespace Session

/-- `refill` in words. -/
def refillInWords (classId : Nat) : Act AllocError Session Unit := do
  let batch ← onHeap (takeBatchInWords classId)
  putList classId batch ((← get).cache.total + batch.length)

/-- `takeCached` in words. -/
def takeCachedInWords (classId : Nat) : Act AllocError Session Nat := do
  if (← list classId).isEmpty then
    refillInWords classId
  match ← list classId with
  | [] => Act.refuse (.regionExhausted classId (← get).heap.regionSize)
  | p :: rest =>
    putList classId rest (← Word.sub (← get).cache.total 1)
    return p

/-- `allocateRounded` in words. -/
def allocateRoundedInWords (size alignment : Nat) : Act AllocError Session Nat := do
  let h := (← get).heap
  if h.canAllocateSmall size alignment then
    match ← h.classes.alignedClassOf? size alignment with
    | some classId => takeCachedInWords classId
    | none => Act.refuse (.noSizeClass size)
  else
    onHeap (allocateLargeInWords size alignment)

/-- `allocate` in words. -/
def allocateInWords (size alignment : Nat) : Act AllocError Session Nat := do
  if !Word.isPowerOfTwo alignment then
    Act.refuse (.invalidAlignment alignment)
  let size := max size 1
  if (Word.add? size alignment).isNone then
    Act.refuse (.overflow size alignment)
  let size ← if alignment > Shadow.granule then Word.nextMultiple size alignment else pure size
  allocateRoundedInWords size alignment

theorem onHeap_congr {ε α : Type} {act act' : Act ε Heap α} {s : Session} (h : act' s.heap = act s.heap) :
    onHeap act' s = onHeap act s := by
  unfold onHeap Act.onPart
  rw [h]

namespace Stands

variable {s : Session} {c : Nat} (hs : s.Stands)

include hs

/-- Taking a block of a class does not overrun. -/
theorem takeCachedInWords_eq (hc : c < s.heap.classes.count) : takeCachedInWords c s = takeCached c s := by
  obtain ⟨l, hl⟩ := hs.balanced.exists_list hc
  have hlist : ∀ {t : Session} {l : List Nat}, t.cache.lists[c]? = some l → list c t = .ok l t := by
    intro t l hl
    show (orStop t.cache.lists[c]? : Act AllocError Session (List Nat)) t = _
    rw [hl]
    rfl
  -- A block that is taken was counted.
  have htake : ∀ {t : Session}, Balanced t →
      (do
        match ← list c with
        | [] => Act.refuse (.regionExhausted c (← get).heap.regionSize)
        | p :: rest =>
          putList c rest (← Word.sub (← get).cache.total 1)
          return p) t = takeListed c t := by
    intro t hbalanced
    refine bind_congr_ok rfl fun l u hact => ?_
    cases l with
    | nil => rfl
    | cons p rest =>
        obtain ⟨_, _, hget, hact⟩ := bind_eq_ok.mp hact
        obtain ⟨rfl, rfl⟩ := get_eq_ok.mp hget
        obtain ⟨hl, rfl⟩ := orStop_eq_ok.mp hact
        have htotal := hbalanced.total_eq ▸ Cache.length_le_stock hl
        rw [List.length_cons] at htotal
        have hsub : Word.sub t.cache.total 1 = .ok (t.cache.total - 1) := Word.sub_eq_ok.mpr ⟨by omega, rfl⟩
        exact checked_bind hsub (fun total => putList c rest total >>= fun _ => pure p) t
  unfold takeCachedInWords takeCached
  refine bind_congr_ok rfl fun l' t hact => ?_
  rw [hlist hl] at hact
  cases hact
  by_cases hempty : l.isEmpty = true
  · rw [if_pos hempty, if_pos hempty]
    have hnil : s.cache.lists[c]? = some [] := List.isEmpty_iff.mp hempty ▸ hl
    refine bind_congr_ok ?_ fun _ t hrefill => ?_
    · exact bind_congr_ok (onHeap_congr (hs.sited.takeBatchInWords_eq hc)) fun _ _ _ => rfl
    · exact htake ((hs.balanced.ends_refill hc hnil).of_ok hrefill).1
  · rw [if_neg hempty, if_neg hempty]
    exact htake hs.balanced

/-- A block of a positive size is allocated in words. -/
theorem allocateRoundedInWords_eq {size alignment : Nat} (hsize : 0 < size)
    (halign : Word.isPowerOfTwo alignment = true) :
    allocateRoundedInWords size alignment s = allocateRounded size alignment s := by
  unfold allocateRoundedInWords allocateRounded
  rw [get_bind, get_bind]
  by_cases hsmall : s.heap.canAllocateSmall size alignment = true
  · rw [if_pos hsmall, if_pos hsmall]
    refine bind_congr_ok rfl fun found t hfound => ?_
    obtain ⟨hclass, rfl⟩ := liftM_eq_ok.mp hfound
    cases found with
    | none => rfl
    | some c =>
        obtain ⟨-, -, -, hc, -⟩ := SizeClasses.of_alignedClassOf? hclass
        exact hs.takeCachedInWords_eq hc
  · rw [if_neg hsmall, if_neg hsmall]
    exact onHeap_congr (hs.sited.allocateLargeInWords_eq hsize halign)

/-- Allocating does not overrun. -/
theorem allocateInWords_eq (size alignment : Nat) : allocateInWords size alignment s = allocate size alignment s := by
  unfold allocateInWords allocate
  by_cases halign : Word.isPowerOfTwo alignment = true
  case neg =>
    have hnot : (!Word.isPowerOfTwo alignment) = true := by
      rw [Bool.not_eq_true']
      exact Bool.eq_false_iff.mpr halign
    rw [if_pos hnot, if_pos hnot]
    exact (bind_of_error rfl).trans (bind_of_error rfl).symm
  simp only [halign, Bool.not_true, Bool.false_eq_true, if_false]
  by_cases hover : (Word.add? (max size 1) alignment).isNone = true
  · rw [if_pos hover, if_pos hover]
    exact (bind_of_error rfl).trans (bind_of_error rfl).symm
  rw [if_neg hover, if_neg hover]
  have hone : 1 ≤ max size 1 := Nat.le_max_right size 1
  by_cases hgranule : alignment > Shadow.granule
  · rw [if_pos hgranule, if_pos hgranule]
    refine bind_congr_ok rfl fun n t hact => ?_
    obtain ⟨hround, rfl⟩ := liftM_eq_ok.mp hact
    obtain ⟨-, -, rfl⟩ := Word.nextMultiple_eq_ok.mp hround
    exact hs.allocateRoundedInWords_eq (Nat.lt_of_lt_of_le hone Word.le_roundUp) halign
  · rw [if_neg hgranule, if_neg hgranule]
    exact hs.allocateRoundedInWords_eq hone halign

end Stands

end Session

/-! ## Any time -/

namespace Reaches

variable {h : Heap} {caches : List Cache} {i : Nat} {cache : Cache}

/-- A heap and caches after calls for blocks, each by the thread of a cache. -/
def visited (classes : SizeClasses) (log secondaryLog threads : Nat) (calls : List (Nat × Session.Call)) :
    Option (Heap × List Cache) :=
  (returned? (create classes log secondaryLog) {}).bind fun made =>
    calls.foldlM (fun at' (call : Nat × Session.Call) => at'.2[call.1]?.bind fun cache =>
      (left? (Request.block call.2).perform ⟨at'.1, cache⟩).map fun t => (t.heap, at'.2.set call.1 t.cache))
      (made.1, List.replicate threads (Cache.new made.1.classes.count))

/-- Calls of any caches lead from a state that is reached to one. -/
theorem calls {calls : List (Nat × Session.Call)} {t : Heap × List Cache} (hrun : Reaches h caches)
    (hcalls : calls.foldlM (fun at' (call : Nat × Session.Call) => at'.2[call.1]?.bind fun cache =>
      (left? (Request.block call.2).perform ⟨at'.1, cache⟩).map fun t => (t.heap, at'.2.set call.1 t.cache))
      (h, caches) = some t) : Reaches t.1 t.2 := by
  induction calls generalizing h caches with
  | nil => exact Option.some.inj hcalls ▸ hrun
  | cons call rest ih =>
      rw [List.foldlM_cons] at hcalls
      obtain ⟨u, hnext, hrest⟩ := Option.bind_eq_some_iff.mp hcalls
      obtain ⟨cache, hcache, hnext⟩ := Option.bind_eq_some_iff.mp hnext
      obtain ⟨s, hleft, rfl⟩ := Option.map_eq_some_iff.mp hnext
      exact ih (hrun.request hcache (show Request.Fits h (.block call.2) from trivial) hleft) hrest

/-- What passes a check can be found by running. -/
theorem of_visited {classes : SizeClasses} {log secondaryLog threads : Nat} {calls : List (Nat × Session.Call)}
    {check : Heap × List Cache → Bool} (hclasses : classes.Accepted) (hge : 20 ≤ log) (hle : log ≤ 36)
    (hcheck : (visited classes log secondaryLog threads calls).any check = true) :
    ∃ h caches, Reaches h caches ∧ check (h, caches) = true := by
  obtain ⟨t, ht, hcheck⟩ := (Option.any_eq_true _ _).mp hcheck
  obtain ⟨⟨h, q⟩, hcreate, hcalls⟩ := Option.bind_eq_some_iff.mp ht
  have hcaches : ∀ n, Reaches h (List.replicate n (Cache.new h.classes.count)) := by
    intro n
    induction n with
    | zero => exact .created hclasses hge hle (of_returned? hcreate)
    | succ n ih =>
        rw [List.replicate_succ']
        exact ih.cache
  exact ⟨t.1, t.2, (hcaches threads).calls hcalls, hcheck⟩

/-- After any calls a request is not stopped, and no sum on its way leaves the word.  It is refused for its
    alignment if and only if that is no power of two, and never because no class would do.  A block that it
    gets is at a multiple of the alignment, has the bytes asked for, and is of the least class that serves
    the rounded size at the alignment if it is a small one. -/
theorem allocate_serves (hrun : Reaches h caches) (hcache : caches[i]? = some cache) (size alignment : Nat) :
    Ends (Session.allocate size alignment) ⟨h, cache⟩
      (fun p t => Word.isPowerOfTwo alignment = true ∧ t.heap.Serves size alignment p)
      (fun e _ => (∀ n, e ≠ .noSizeClass n)
        ∧ ((∃ a, e = .invalidAlignment a) ↔ ¬ Word.isPowerOfTwo alignment = true))
    ∧ Session.allocateInWords size alignment ⟨h, cache⟩ = Session.allocate size alignment ⟨h, cache⟩ := by
  have hs := hrun.stands.2 cache (List.mem_of_getElem? hcache)
  exact ⟨(hs.ends_allocate size alignment).imp (fun _ _ hok => hok.2) fun _ _ hno => hno.2,
    hs.allocateInWords_eq size alignment⟩

/-- After two threads have taken blocks and one was given back, pages and a large block at a large alignment
    are served. -/
theorem allocate_serves_page :
    ∃ h caches cache, Reaches h caches ∧ caches[1]? = some cache
      ∧ (∃ p t, Session.allocateInWords 5000 4096 ⟨h, cache⟩ = .ok p t ∧ t.heap.isPrimary p = true
        ∧ t.heap.Serves 5000 4096 p)
      ∧ ∃ p t, Session.allocateInWords 10 8192 ⟨h, cache⟩ = .ok p t ∧ t.heap.isPrimary p = false
        ∧ t.heap.Serves 10 8192 p := by
  obtain ⟨h, caches, hrun, hcheck⟩ := of_visited SizeClasses.accepted_compact
    (show 20 ≤ 20 by decide) (by decide)
    (show (visited .compact 20 24 2
      [(0, .allocate 100 8), (1, .allocate 700 512), (0, .reallocate 17592193384448 5000 4096)]).any
      (fun at' => (at'.2[1]?).any fun cache =>
        ((returned? (Session.allocate 5000 4096) ⟨at'.1, cache⟩).any fun r => r.2.heap.isPrimary r.1)
        && (returned? (Session.allocate 10 8192) ⟨at'.1, cache⟩).any fun r => !r.2.heap.isPrimary r.1)
      = true by decide +kernel)
  obtain ⟨cache, hcache, hcheck⟩ := (Option.any_eq_true _ _).mp hcheck
  obtain ⟨hsmall, hlarge⟩ := (Bool.and_eq_true _ _).mp hcheck
  obtain ⟨⟨p, t⟩, hact, hprimary⟩ := (Option.any_eq_true _ _).mp hsmall
  obtain ⟨⟨q, u⟩, hact', hprimary'⟩ := (Option.any_eq_true _ _).mp hlarge
  obtain ⟨hends, hwords⟩ := hrun.allocate_serves hcache 5000 4096
  obtain ⟨hends', hwords'⟩ := hrun.allocate_serves hcache 10 8192
  refine ⟨h, caches, cache, hrun, hcache, ⟨p, t, ?_, hprimary, (hends.of_ok (of_returned? hact)).2⟩,
    q, u, ?_, (Bool.not_eq_true' _).mp hprimary', (hends'.of_ok (of_returned? hact')).2⟩
  · rw [hwords]
    exact of_returned? hact
  · rw [hwords']
    exact of_returned? hact'

end Reaches

end Heap

end GuardedHeap
