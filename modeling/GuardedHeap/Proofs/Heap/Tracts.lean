import GuardedHeap.Proofs.Heap.Small
import GuardedHeap.Proofs.Shadow.RangeMarks

/-! # Tracts — regions grow from both ends and do not meet

    What a region carves for blocks grows up from its beginning, and what it
    carves for records grows down from its end.  Pages are committed for
    both in steps that may be larger than what is left, so that the two
    committed ranges can overlap; the carved ones cannot, as their pages are
    counted together before anything is committed.  That is `Tracts`, and
    here it is kept by all that a region does, for regions of any table and
    with nothing known of the shadow or of large blocks.

    Populating is written as a loop that commits pages and tries again.
    `populateTurn` is one pass of it, and `Tracts.populateTurns_eq` says
    that the second pass is always the last one. -/

namespace GuardedHeap.Heap

variable {h t u : Heap} {c d : Nat} {r : Region}

/-! ## The ground -/

/-- The same regions at the same place, for the same classes. -/
structure SameGround (h t : Heap) : Prop where
  space : t.space = h.space
  regionSize : t.regionSize = h.regionSize
  classes : t.classes = h.classes

theorem SameGround.refl (h : Heap) : SameGround h h :=
  ⟨rfl, rfl, rfl⟩

theorem SameGround.trans (h' : SameGround h t) (h'' : SameGround t u) : SameGround h u :=
  ⟨h''.space.trans h'.space, h''.regionSize.trans h'.regionSize, h''.classes.trans h'.classes⟩

theorem SameGround.regionBegin (h' : SameGround h t) (c : Nat) : t.regionBegin c = h.regionBegin c := by
  unfold Heap.regionBegin
  rw [h'.space, h'.regionSize]

/-- What a small block's allocator may come to: the same ground, and still in order. -/
def Tilled (h t : Heap) : Prop :=
  t.Tracts ∧ SameGround h t

theorem Tilled.trans (h' : Tilled h t) (h'' : Tilled t u) : Tilled h u :=
  ⟨h''.1, h'.2.trans h''.2⟩

namespace Tracts

theorem tilled (ht : h.Tracts) : Tilled h h :=
  ⟨ht, .refl h⟩

theorem region_lt_limit (ht : h.Tracts) (hc : c < h.regions.size) :
    h.regionBegin c + h.regionSize < Word.limit :=
  Nat.lt_of_le_of_lt (region_le_primaryEnd hc) ht.end_lt

/-- Writable pages may become more, and the shadow does not matter. -/
theorem withPages (ht : h.Tracts) {pages : Pages} (shadow : Shadow)
    (hwritable : ∀ a, a < Word.limit → h.pages.Writable a → pages.Writable a) :
    ({ h with pages, shadow } : Heap).Tracts :=
  { ht with
    user := fun c r hr a hlo hhi => by
      have hlimit := ht.region_lt_limit (lt_size_of_region (h := h) hr)
      have hmapped := (ht.region c r hr).mappedUser_le
      change a < h.regionBegin c + r.mappedUser at hhi
      exact hwritable a (by omega) (ht.user c r hr a hlo hhi)
    records := fun c r hr a hlo hhi => by
      have hlimit := ht.region_lt_limit (lt_size_of_region (h := h) hr)
      exact hwritable a (Nat.lt_trans hhi hlimit) (ht.records c r hr a hlo hhi) }

/-- A region may be replaced by one that is in order and committed. -/
theorem setRegion (ht : h.Tracts) (hc : c < h.regions.size)
    (hr : Region.WF r h.regionSize (h.classes.size c))
    (huser : ∀ a, h.regionBegin c ≤ a → a < h.regionBegin c + r.mappedUser → h.pages.Writable a)
    (hrecords : ∀ a, h.regionBegin c + h.regionSize - r.mappedMeta ≤ a →
      a < h.regionBegin c + h.regionSize → h.pages.Writable a) : Tilled h (h.setRegion c r) := by
  -- Each field is about one region, which is the new one or an old one.
  have hcases : ∀ {P : Nat → Region → Prop}, P c r → (∀ d q, h.regions[d]? = some q → P d q) →
      ∀ d q, (h.setRegion c r).regions[d]? = some q → P d q := by
    intro P hnew hold d q hq
    rw [regions_setRegion hc] at hq
    by_cases hdc : d = c
    · rw [if_pos hdc] at hq
      obtain rfl := Option.some.inj hq
      exact hdc ▸ hnew
    · rw [if_neg hdc] at hq
      exact hold d q hq
  have hsize := size_setRegion (h := h) (c := c) (r := r)
  refine ⟨{ regions := hsize.trans ht.regions, size_pos := ?_, region_dvd := ht.region_dvd,
            begin_dvd := ht.begin_dvd, end_lt := ?_, region := ?_, user := ?_, records := ?_ }, rfl, rfl, rfl⟩
  · rw [hsize]
    exact ht.size_pos
  · unfold primaryEnd
    rw [hsize]
    exact ht.end_lt
  · exact hcases hr ht.region
  · exact hcases huser ht.user
  · exact hcases hrecords ht.records

/-- The free list of a region may be any. -/
theorem setFreeList (ht : h.Tracts) (hr : h.regions[c]? = some r) (freeList : List Nat) :
    Tilled h (h.setRegion c { r with freeList }) :=
  ht.setRegion (lt_size_of_region hr) { ht.region c r hr with } (ht.user c r hr) (ht.records c r hr)

/-- What was committed of a region stays so when more is committed behind both of its ends. -/
theorem withMapped (ht : h.Tracts) (hr : h.regions[c]? = some r) {user records : Nat} {pages : Pages}
    (shadow : Shadow)
    (hr' : Region.WF { r with mappedUser := user, mappedMeta := records } h.regionSize (h.classes.size c))
    (hkept : ∀ a, a < Word.limit → h.pages.Writable a → pages.Writable a)
    (huser : ∀ a, h.regionBegin c + r.mappedUser ≤ a → a < h.regionBegin c + user → pages.Writable a)
    (hrecords : ∀ a, h.regionBegin c + h.regionSize - records ≤ a →
      a < h.regionBegin c + h.regionSize - r.mappedMeta → pages.Writable a) :
    Tilled h (({ h with pages, shadow } : Heap).setRegion c
      { r with mappedUser := user, mappedMeta := records }) := by
  have hc := lt_size_of_region hr
  have hlimit := ht.region_lt_limit hc
  have hpages := ht.withPages shadow hkept
  refine Tilled.trans ⟨hpages, rfl, rfl, rfl⟩ (hpages.setRegion hc hr' (fun a hlo hhi => ?_)
    fun a hlo hhi => ?_)
  · rcases Nat.lt_or_ge a (h.regionBegin c + r.mappedUser) with hlt | hge
    · have hmapped := (ht.region c r hr).mappedUser_le
      exact hkept a (by omega) (ht.user c r hr a hlo hlt)
    · exact huser a hge hhi
  · rcases Nat.lt_or_ge a (h.regionBegin c + h.regionSize - r.mappedMeta) with hlt | hge
    · exact hrecords a hlo hlt
    · exact hkept a (Nat.lt_trans hhi hlimit) (ht.records c r hr a hge hhi)

theorem exists_region (ht : h.Tracts) (hc : c < h.classes.count) : ∃ r, h.regions[c]? = some r :=
  ⟨_, Array.getElem?_eq_getElem (ht.regions ▸ hc)⟩

end Tracts

/-! ## Committing -/

/-- A mark in the shadow is made or refused, and nothing else changes. -/
theorem ends_poison {addr size : Nat} {why : Shadow.Magic} :
    Act.Ends (poison addr size why) h (fun _ t => ∃ shadow, t = { h with shadow })
      fun e t => t = h ∧ ∃ f, e = .shadow f := by
  unfold poison onShadow
  rw [Act.ends_mapError, Act.ends_onPart]
  unfold Act.Ends
  rw [Shadow.poison_eq]
  split_ifs
  · exact ⟨_, rfl⟩
  · exact ⟨_, rfl⟩
  · exact ⟨rfl, _, rfl⟩
  · exact ⟨rfl, _, rfl⟩

/-- The error tells of the operating system or of the shadow. -/
def Hinders (e : AllocError) : Prop :=
  (∃ m, e = .map m) ∨ ∃ f, e = .shadow f

/-- Committing pages up to a reach that has room in the region: the region gets as far, or stays. -/
theorem Tracts.ends_commitRegion (ht : h.Tracts) (hr : h.regions[c]? = some r) (reach : Reach)
    (huser : reach.user ≤ h.regionSize) (hrecords : reach.records ≤ h.regionSize) :
    Act.Ends (commitRegion c reach) h
      (fun _ t => Tilled h t ∧ ∃ user records, reach.user ≤ user ∧ reach.records ≤ records
        ∧ t.regions = (h.setRegion c { r with mappedUser := user, mappedMeta := records }).regions)
      fun e t => Tilled h t ∧ t.regions = h.regions ∧ Hinders e := by
  have hregion := ht.region c r hr
  have hc := lt_size_of_region hr
  have hlimit := ht.region_lt_limit hc
  have hbegin : Pages.pageSize ∣ h.regionBegin c :=
    Nat.dvd_add ht.begin_dvd (Nat.dvd_mul_left_of_dvd ht.region_dvd _)
  unfold commitRegion
  simp only [Act.ends_bind, Act.ends_get]
  refine ends_region hr ?_
  generalize hu : max (min (Word.roundUp reach.user commitBytes) h.regionSize) r.mappedUser = user
  generalize hm : max (min (Word.roundUp reach.records recordCommitBytes) h.regionSize) r.mappedMeta = records
  obtain ⟨hr', hureach, hmreach, -, -⟩ := target_wf hregion ht.region_dvd huser hrecords hu hm
  have hule : user ≤ h.regionSize := hr'.mappedUser_le
  have hmdvd : Pages.pageSize ∣ records := hr'.mappedMeta_dvd
  rw [ends_onPages]
  refine (Pages.ends_commit (Nat.dvd_add hbegin hregion.mappedUser_dvd)).imp ?_ ?_
  · rintro - pages ⟨hw1, -, -⟩
    rw [ends_onPages]
    refine (Pages.ends_commit (Nat.dvd_sub (Nat.dvd_add hbegin ht.region_dvd) hmdvd)).imp ?_ ?_
    · rintro - pages' ⟨hw2, -, -⟩
      -- Both commits keep what was writable.
      have hkept : ∀ a, a < Word.limit → h.pages.Writable a → pages'.Writable a := fun a ha hw =>
        hw2 a ha (.inl (hw1 a ha (.inl hw)))
      have hdone : ∀ shadow, Tilled h (({ h with pages := pages', shadow } : Heap).setRegion c
          { r with mappedUser := user, mappedMeta := records }) := fun shadow =>
        ht.withMapped hr shadow hr' hkept
          (fun a hlo hhi => hw2 a (by omega) (.inl (hw1 a (by omega) (.inr ⟨hlo, by omega⟩))))
          fun a hlo hhi => hw2 a (by omega) (.inr ⟨hlo, by omega⟩)
      by_cases hmore : user > r.mappedUser
      · rw [if_pos hmore, Act.ends_bind]
        refine ends_poison.imp ?_ ?_
        · rintro - _ ⟨shadow, rfl⟩
          exact Act.ends_modify.mpr ⟨hdone shadow, user, records, hureach, hmreach, rfl⟩
        · rintro e _ ⟨rfl, hshadow⟩
          exact ⟨⟨ht.withPages h.shadow hkept, rfl, rfl, rfl⟩, rfl, .inr hshadow⟩
      · rw [if_neg hmore]
        exact Act.ends_modify.mpr ⟨hdone h.shadow, user, records, hureach, hmreach, rfl⟩
    · rintro e pages' ⟨hw2, -, -⟩
      refine ⟨⟨ht.withPages h.shadow fun a ha hw => hw2 a (hw1 a ha (.inl hw)), rfl, rfl, rfl⟩, rfl, .inl ⟨e, rfl⟩⟩
  · rintro e pages ⟨hw1, -, -⟩
    exact ⟨⟨ht.withPages h.shadow fun a _ hw => hw1 a hw, rfl, rfl, rfl⟩, rfl, .inl ⟨e, rfl⟩⟩

/-! ## Populating -/

/-- The class has carved its next slots behind those that it had, and they are the first to be used. -/
structure Carves (h t : Heap) (c : Nat) (r : Region) : Prop where
  others : ∀ d, d ≠ c → t.regions[d]? = h.regions[d]?
  region : ∃ q, t.regions[c]? = some q
    ∧ q.freeList = h.freshSlots c r ++ r.freeList
    ∧ q.allocatedUser = r.allocatedUser + carveCount (h.classes.size c) * h.classes.size c
    ∧ q.allocatedMeta = r.allocatedMeta + carveCount (h.classes.size c) * recordSize

/-- Carving what there is room for, once it is committed. -/
theorem Tracts.carve (ht : h.Tracts) (hr : h.regions[c]? = some r)
    (huser : (Region.nextReach r (h.classes.size c)).user ≤ r.mappedUser)
    (hrecords : (Region.nextReach r (h.classes.size c)).records ≤ r.mappedMeta)
    (hroom : Word.roundUp (Region.nextReach r (h.classes.size c)).user Pages.pageSize
      + Word.roundUp (Region.nextReach r (h.classes.size c)).records Pages.pageSize ≤ h.regionSize) :
    Tilled h (h.setRegion c (Region.carve r (h.regionBegin c) (h.classes.size c)
        (Region.nextReach r (h.classes.size c))))
      ∧ Carves h (h.setRegion c (Region.carve r (h.regionBegin c) (h.classes.size c)
        (Region.nextReach r (h.classes.size c)))) c r := by
  have hc := lt_size_of_region hr
  refine ⟨ht.setRegion hc (carve_wf (ht.region c r hr) _ huser hrecords hroom) (ht.user c r hr)
    (ht.records c r hr), fun d hdc => ?_, ?_⟩
  · rw [regions_setRegion hc, if_neg hdc]
  · exact ⟨_, by rw [regions_setRegion hc, if_pos rfl], rfl, rfl, rfl⟩

theorem Tracts.ends_populate (ht : h.Tracts) (hr : h.regions[c]? = some r) :
    Act.Ends (populate c) h (fun _ t => Tilled h t ∧ Carves h t c r)
      fun e t => Tilled h t ∧ t.regions = h.regions
        ∧ (e = .regionExhausted c h.regionSize ∨ Hinders e) := by
  have hc := lt_size_of_region hr
  unfold populate
  simp only [Act.ends_bind, Act.ends_get]
  refine ends_region hr ?_
  have huser := Word.le_roundUp (n := (Region.nextReach r (h.classes.size c)).user) (m := Pages.pageSize)
  have hrecords := Word.le_roundUp (n := (Region.nextReach r (h.classes.size c)).records)
    (m := Pages.pageSize)
  by_cases hroom : Word.roundUp (Region.nextReach r (h.classes.size c)).user Pages.pageSize
      + Word.roundUp (Region.nextReach r (h.classes.size c)).records Pages.pageSize > h.regionSize
  · rw [if_pos hroom, Act.ends_bind]
    exact ⟨ht.tilled, rfl, .inl rfl⟩
  rw [if_neg hroom]
  by_cases hneeds : Region.needsPages r (Region.nextReach r (h.classes.size c)) = true
  · rw [if_pos hneeds, Act.ends_bind]
    refine (ht.ends_commitRegion hr _ (by omega) (by omega)).imp ?_ fun _ _ hno =>
      ⟨hno.1, hno.2.1, .inr hno.2.2⟩
    -- Committing leaves the lists of slots alone, so the slots that are carved afterwards are those of
    -- the old state.
    rintro - t ⟨htilled, user, records, hureach, hmreach, hregions⟩
    have hr' : t.regions[c]? = some { r with mappedUser := user, mappedMeta := records } := by
      rw [hregions, regions_setRegion hc, if_pos rfl]
    rw [Act.ends_bind]
    refine ends_region hr' ?_
    obtain ⟨hcarved, hcarves⟩ := htilled.1.carve hr'
      (by rw [htilled.2.classes]; exact hureach) (by rw [htilled.2.classes]; exact hmreach)
      (by rw [htilled.2.classes, htilled.2.regionSize]; exact Nat.le_of_not_lt hroom)
    rw [← htilled.2.regionBegin, ← htilled.2.classes]
    refine Act.ends_modify.mpr ⟨htilled.trans hcarved, fun d hdc => (hcarves.others d hdc).trans ?_, ?_⟩
    · rw [hregions, regions_setRegion hc, if_neg hdc]
    · obtain ⟨q, hq, hlist, hquser, hqmeta⟩ := hcarves.region
      have hfresh : t.freshSlots c { r with mappedUser := user, mappedMeta := records } =
          h.freshSlots c r := by
        unfold freshSlots
        rw [htilled.2.classes, htilled.2.regionBegin]
      rw [htilled.2.classes] at hquser hqmeta
      exact ⟨q, hq, hfresh ▸ hlist, hquser, hqmeta⟩
  · rw [if_neg hneeds, Act.ends_bind]
    refine ends_region hr ?_
    simp only [Region.needsPages, Bool.or_eq_true, decide_eq_true_eq, not_or] at hneeds
    exact Act.ends_modify.mpr (ht.carve hr (by omega) (by omega) (by omega))

/-- A region that has free blocks or gets some, or stays as it is. -/
theorem Tracts.ends_stockedRegion (ht : h.Tracts) (hr : h.regions[c]? = some r) :
    Act.Ends (stockedRegion c) h
      (fun q t => Tilled h t ∧ t.regions[c]? = some q ∧ q.freeList ≠ [])
      fun _ t => Tilled h t := by
  unfold stockedRegion
  rw [Act.ends_bind]
  refine ends_region hr ?_
  by_cases hempty : r.freeList.isEmpty = true
  · rw [if_pos hempty, Act.ends_bind]
    refine (ht.ends_populate hr).imp ?_ fun _ _ hno => hno.1
    rintro - t ⟨htilled, hcarves⟩
    obtain ⟨q, hq, hlist, -⟩ := hcarves.region
    refine ends_region hq ⟨htilled, hq, ?_⟩
    rw [hlist]
    exact List.append_ne_nil_of_left_ne_nil (freshSlots_ne_nil h c r) _
  · rw [if_neg hempty]
    exact Act.ends_pure.mpr ⟨ht.tilled, hr, fun hnil => hempty (List.isEmpty_iff.mpr hnil)⟩

/-! ## Turns of the loop -/

/-- One pass of the loop that carves blocks: false if it has committed pages and goes on, true if the
    loop is done. -/
def populateTurn (classId : Nat) : Act AllocError Heap Bool := do
  let h ← get
  let r ← region classId
  if !r.freeList.isEmpty then
    return true
  let size := h.classes.size classId
  let reach := Region.nextReach r size
  let userPages := Word.roundUp reach.user Pages.pageSize
  let recordPages := Word.roundUp reach.records Pages.pageSize
  if userPages + recordPages > h.regionSize then
    Act.refuse (.regionExhausted classId h.regionSize)
  if Region.needsPages r reach then
    commitRegion classId reach
    return false
  putRegion classId (Region.carve r (h.regionBegin classId) size reach)
  return true

/-- At most so many passes of the loop; true if it is done by then. -/
def populateTurns (classId : Nat) : Nat → Act AllocError Heap Bool
  | 0 => pure false
  | turns + 1 => do
    if ← populateTurn classId then
      return true
    else
      populateTurns classId turns

theorem region_eq (hr : h.regions[c]? = some r) : region c h = .ok r h := by
  show (Act.orStop h.regions[c]? : Act AllocError Heap Region) h = _
  rw [hr]
  rfl

/-- A pass over a region without free blocks. -/
theorem populateTurn_eq (hr : h.regions[c]? = some r) (hempty : r.freeList = []) :
    populateTurn c h =
      if Word.roundUp (Region.nextReach r (h.classes.size c)).user Pages.pageSize
          + Word.roundUp (Region.nextReach r (h.classes.size c)).records Pages.pageSize > h.regionSize then
        .error (.refused (.regionExhausted c h.regionSize)) h
      else if Region.needsPages r (Region.nextReach r (h.classes.size c)) = true then
        (commitRegion c (Region.nextReach r (h.classes.size c)) >>= fun _ => pure false) h
      else .ok true (h.setRegion c (Region.carve r (h.regionBegin c) (h.classes.size c)
        (Region.nextReach r (h.classes.size c)))) := by
  unfold populateTurn
  rw [Act.get_bind, Act.bind_of_ok (region_eq hr), if_neg (by rw [hempty]; decide)]
  dsimp only
  split
  · rfl
  split <;> rfl

/-- A region without free blocks is populated in two passes of the loop at most: the first one commits
    what the second one needs. -/
theorem Tracts.populateTurns_eq (ht : h.Tracts) (hr : h.regions[c]? = some r) (hempty : r.freeList = [])
    (turns : Nat) :
    populateTurns c (turns + 2) h = (populate c >>= fun _ => pure true) h := by
  have hc := lt_size_of_region hr
  have huser := Word.le_roundUp (n := (Region.nextReach r (h.classes.size c)).user) (m := Pages.pageSize)
  have hrecords := Word.le_roundUp (n := (Region.nextReach r (h.classes.size c)).records)
    (m := Pages.pageSize)
  have hturn := populateTurn_eq hr hempty
  unfold populateTurns populate
  simp only [bind_assoc]
  rw [Act.get_bind, Act.bind_of_ok (region_eq hr)]
  by_cases hroom : Word.roundUp (Region.nextReach r (h.classes.size c)).user Pages.pageSize
      + Word.roundUp (Region.nextReach r (h.classes.size c)).records Pages.pageSize > h.regionSize
  · rw [if_pos hroom] at hturn ⊢
    rw [Act.bind_of_error hturn]
    rfl
  rw [if_neg hroom] at hturn ⊢
  by_cases hneeds : Region.needsPages r (Region.nextReach r (h.classes.size c)) = true
  case neg =>
    rw [if_neg hneeds] at hturn ⊢
    rw [Act.bind_of_ok hturn]
    simp only [bind_assoc]
    rw [Act.bind_of_ok (region_eq hr)]
    rfl
  rw [if_pos hneeds] at hturn ⊢
  simp only [bind_assoc]
  rcases Act.ends_iff.mp (ht.ends_commitRegion hr (Region.nextReach r (h.classes.size c))
    (by omega) (by omega)) with ⟨⟨⟩, t, hcommit, htilled, user, records, hureach, hmreach, hregions⟩
      | ⟨e, t, hcommit, -⟩
  · -- The second pass finds the pages that it needs.
    have hr' : t.regions[c]? = some { r with mappedUser := user, mappedMeta := records } := by
      rw [hregions, regions_setRegion hc, if_pos rfl]
    have hnext : Region.nextReach { r with mappedUser := user, mappedMeta := records }
        (t.classes.size c) = Region.nextReach r (h.classes.size c) := by
      rw [htilled.2.classes]
      rfl
    have hturn' := populateTurn_eq hr' hempty
    rw [hnext, htilled.2.regionSize, if_neg hroom, if_neg, htilled.2.regionBegin, htilled.2.classes]
      at hturn'
    · rw [Act.bind_of_ok hcommit] at hturn
      rw [Act.bind_of_ok hturn, Act.bind_of_ok hcommit, Act.bind_of_ok (region_eq hr')]
      show (populateTurns c (turns + 1)) t = _
      unfold populateTurns
      rw [Act.bind_of_ok hturn']
      rfl
    · simp only [Region.needsPages, Bool.or_eq_true, decide_eq_true_eq, not_or, gt_iff_lt, not_lt]
      exact ⟨hureach, hmreach⟩
  · rw [Act.bind_of_error hcommit] at hturn
    rw [Act.bind_of_error hturn, Act.bind_of_error hcommit]

end GuardedHeap.Heap
