import GuardedHeap.Proofs.Heap.Small

/-! # Large blocks — mapping adds one, unmapping takes one away

    A span that is taken was free, so a fresh mapping meets no other one
    (`ends_allocateLarge`).  A freed block leaves the list first; whether
    or not its pages can then be released, nothing outside its mapping
    changes (`ends_freeLarge`). -/

namespace GuardedHeap

/-- The outline without a block, and with other bytes. -/
def Outline.unmap (o : Outline) (b : Block) (gone : Set Nat) (contents : Nat → UInt8) : Outline :=
  { o with
    blocks := o.blocks \ {b}
    opened := o.opened \ gone
    contents }

/-! ## The list -/

namespace Large

variable {l : Large} {b : LargeBlock}

/-- Links aside, a block that is linked is put at the front. -/
theorem bodies_link : (l.link b).bodies = b.body :: l.bodies := by
  unfold bodies link
  cases l.blocks with
  | nil => rfl
  | cons first others => simp only [List.map_cons, LargeBlock.body]

theorem body_bridge (b c : LargeBlock) : (bridge b c).body = c.body := by
  unfold bridge
  dsimp only
  split <;> split <;> rfl

theorem bodies_unlink : (l.unlink b).bodies = l.bodies.filter (·.user ≠ b.user) := by
  unfold bodies unlink
  rw [List.map_map, List.filter_map]
  exact List.map_congr_left fun c _ => body_bridge b c

/-- The span of a mapping. -/
theorem span_solid {lo hi : Nat} (h : b.Placed lo hi) :
    (⟨b.mapBegin, b.mapSize⟩ : Span).Solid where
  begin_dvd := h.mapBegin_dvd
  size_dvd := h.mapSize_dvd
  size_pos := by
    have h1 := h.header_le
    have h2 := h.past_le
    have h3 := h.lt_past
    show 0 < b.mapSize
    omega

/-- Putting another block at the front. -/
theorem WF.link (h : l.WF) (hplaced : b.Placed l.begin l.past)
    (hapart : ∀ c ∈ l.bodies, Disjoint b.mapping c.mapping)
    (htaken : ∀ a ∈ b.mapping, ¬ l.spans.Free a) : (l.link b).WF where
  spans := h.spans
  spans_past := h.spans_past
  placed c hc := by
    rw [bodies_link] at hc
    rcases List.mem_cons.mp hc with rfl | hc
    · exact { hplaced with }
    · exact h.placed c hc
  apart := by
    rw [bodies_link]
    exact List.pairwise_cons.mpr ⟨hapart, h.apart⟩
  taken c hc := by
    rw [bodies_link] at hc
    rcases List.mem_cons.mp hc with rfl | hc
    · exact htaken
    · exact h.taken c hc

/-- Taking a block out of the list. -/
theorem WF.unlink (h : l.WF) (b : LargeBlock) : (l.unlink b).WF where
  spans := h.spans
  spans_past := h.spans_past
  placed c hc := by
    rw [bodies_unlink] at hc
    exact h.placed c (List.mem_of_mem_filter hc)
  apart := by
    rw [bodies_unlink]
    exact h.apart.filter _
  taken c hc := by
    rw [bodies_unlink] at hc
    exact h.taken c (List.mem_of_mem_filter hc)

/-- A block is found by where it begins. -/
theorem WF.eq_of_user (h : l.WF) {c : LargeBlock} (hb : b ∈ l.bodies) (hc : c ∈ l.bodies)
    (huser : b.user = c.user) : b = c := by
  have hplaced := h.placed b hb
  have hplaced' := h.placed c hc
  refine h.eq_of_mem hb hc (hplaced.extent_subset ⟨Nat.le_refl _, hplaced.lt_past⟩) ?_
  rw [show b.block.begin = c.user from huser]
  exact hplaced'.extent_subset ⟨Nat.le_refl _, hplaced'.lt_past⟩

theorem WF.mem_unlink (h : l.WF) (hb : b.body ∈ l.bodies) {c : LargeBlock} :
    c ∈ (l.unlink b).bodies ↔ c ∈ l.bodies ∧ c ≠ b.body := by
  rw [bodies_unlink, List.mem_filter, decide_eq_true_eq]
  refine and_congr_right fun hc => ?_
  exact ⟨fun hne heq => hne (heq ▸ rfl), fun hne huser => hne (h.eq_of_user hc hb huser)⟩

end Large

namespace Heap

variable {h : Heap} {l : LargeBlock}

/-! ## Mapping -/

/-- A mapping has room for the block behind a page, wherever the block is aligned. -/
theorem mapSizeFor?_spec {size alignment mapSize : Nat}
    (halign : Word.isPowerOfTwo alignment = true)
    (hsome : mapSizeFor? size alignment = some mapSize) :
    Pages.pageSize ∣ mapSize ∧ 0 < mapSize
      ∧ ∀ begin, Pages.pageSize ∣ begin →
        Pages.pageSize ∣ Word.roundUp (begin + Pages.pageSize) (max alignment Pages.pageSize)
        ∧ begin + Pages.pageSize ≤
          Word.roundUp (begin + Pages.pageSize) (max alignment Pages.pageSize)
        ∧ Word.roundUp (begin + Pages.pageSize) (max alignment Pages.pageSize)
          + Word.roundUp size Pages.pageSize ≤ begin + mapSize := by
  have hpage : Word.isPowerOfTwo Pages.pageSize = true := by decide
  have hpos : 0 < Pages.pageSize := by decide
  have hdvd := Word.dvd_roundUp (n := size) hpos
  simp only [mapSizeFor?, Option.bind_eq_bind, Option.bind_eq_some_iff] at hsome
  obtain ⟨rounded, hrounded, mapped, hmapped, hsome⟩ := hsome
  obtain ⟨-, -, rfl⟩ := Word.nextMultiple?_eq_some.mp hrounded
  obtain ⟨-, rfl⟩ := Word.add?_eq_some.mp hmapped
  by_cases hlarge : alignment > Pages.pageSize
  · rw [if_pos hlarge] at hsome
    obtain ⟨-, rfl⟩ := Word.add?_eq_some.mp hsome
    have halign_dvd : Pages.pageSize ∣ alignment :=
      Word.dvd_of_powerOfTwo_le hpage halign (Nat.le_of_lt hlarge)
    refine ⟨Nat.dvd_add (Nat.dvd_add hdvd (Nat.dvd_refl _)) halign_dvd, by omega, ?_⟩
    intro begin hbegin
    rw [Nat.max_eq_left (Nat.le_of_lt hlarge)]
    have hle := Word.le_roundUp (n := begin + Pages.pageSize) (m := alignment)
    have hlt := Word.roundUp_lt (n := begin + Pages.pageSize) (m := alignment) (by omega)
    exact ⟨Nat.dvd_trans halign_dvd (Word.dvd_roundUp (by omega)), hle, by omega⟩
  · rw [if_neg hlarge] at hsome
    obtain rfl := Option.some.inj hsome
    refine ⟨Nat.dvd_add hdvd (Nat.dvd_refl _), by omega, ?_⟩
    intro begin hbegin
    rw [Nat.max_eq_right (Nat.le_of_not_lt hlarge),
      Word.roundUp_of_dvd hpos (Nat.dvd_add hbegin (Nat.dvd_refl _))]
    exact ⟨Nat.dvd_add hbegin (Nat.dvd_refl _), Nat.le_refl _, by omega⟩

/-- A mapping in a span that was free has no committed address. -/
theorem WF.free_not_committed (hwf : h.WF) {a : Nat} (hlo : h.large.begin ≤ a)
    (hfree : h.large.spans.Free a) : a ∉ h.committed := by
  rintro (⟨c, r, hr, hlo', hhi'⟩ | ⟨m, hm, ha⟩)
  · have hend := region_le_primaryEnd (lt_size_of_region hr)
    have hmapped := (hwf.region c r hr).mappedUser_le
    rw [hwf.layout.large_begin] at hlo
    omega
  · exact hwf.large.taken m hm a ha hfree

/-- Other free spans change nothing that can be seen. -/
theorem WF.withSpans (hwf : h.WF) {spans : Spans} (hspans : spans.WF h.large.begin)
    (hpast : spans.past = h.large.past)
    (htaken : ∀ m ∈ h.large.bodies, ∀ a ∈ m.mapping, ¬ spans.Free a) :
    Becomes h { h with large := { h.large with spans } } h.outline where
  wf := hwf.withLarge rfl rfl
    { spans := hspans
      spans_past := hpast
      placed := hwf.large.placed
      apart := hwf.large.apart
      taken := htaken }
    fun m hm a ha => hwf.backed a (.inr ⟨m, hm, ha⟩)
  classes := rfl
  outline := rfl
  calm := id

/-- A block that has never been handed out is linked, in pages that are poisoned. -/
theorem WF.withLinked (hwf : h.WF) (hplaced : l.Placed h.large.begin h.large.past)
    (hapart : ∀ c ∈ h.large.bodies, Disjoint l.mapping c.mapping)
    (htaken : ∀ a ∈ l.mapping, ¬ h.large.spans.Free a)
    (hwritable : ∀ a ∈ l.mapping, h.pages.Writable a)
    (hpoisoned : ∀ a ∈ l.mapping, ¬ h.shadow.Addressable a) (hrecord : l.record = {}) :
    Becomes h { h with large := h.large.link l }
      (h.outline.grow .large (Word.roundUp l.size Pages.pageSize) [l.user]) := by
  have hmem : ∀ m, m ∈ (h.large.link l).bodies ↔ m = l.body ∨ m ∈ h.large.bodies := fun m => by
    rw [Large.bodies_link, List.mem_cons]
  refine ⟨?_, rfl, ?_, id⟩
  · refine hwf.withLarge rfl rfl (hwf.large.link hplaced hapart htaken) fun m hm a ha => ?_
    rcases (hmem m).mp hm with rfl | hm
    · exact hwritable a ha
    · exact hwf.backed a (.inr ⟨m, hm, ha⟩)
  -- The mapping is poisoned, so it opens nothing.
  · have hopened : ({ h with large := h.large.link l } : Heap).opened = h.opened := by
      ext a
      constructor
      · rintro ⟨hregion | ⟨m, hm, ha⟩, haddressable⟩
        · exact ⟨.inl hregion, haddressable⟩
        · rcases (hmem m).mp hm with rfl | hm
          · exact absurd haddressable (hpoisoned a ha)
          · exact ⟨.inr ⟨m, hm, ha⟩, haddressable⟩
      · rintro ⟨hregion | ⟨m, hm, ha⟩, haddressable⟩
        · exact ⟨.inl hregion, haddressable⟩
        · exact ⟨.inr ⟨m, (hmem m).mpr (.inr hm), ha⟩, haddressable⟩
    have hblock : l.block = Block.blank l.user (Word.roundUp l.size Pages.pageSize) .large := by
      unfold LargeBlock.block Block.blank
      rw [hrecord]
    have hblocks : ({ h with large := h.large.link l } : Heap).blocks = h.blocks ∪
        {b | ∃ p ∈ [l.user], b = Block.blank p (Word.roundUp l.size Pages.pageSize) .large} := by
      ext b
      constructor
      · rintro (hsmall | ⟨m, hm, rfl⟩)
        · exact .inl (.inl hsmall)
        · rcases (hmem m).mp hm with rfl | hm
          · exact .inr ⟨l.user, List.mem_singleton_self _, hblock⟩
          · exact .inl (.inr ⟨m, hm, rfl⟩)
      · rintro ((hsmall | ⟨m, hm, rfl⟩) | ⟨p, hp, rfl⟩)
        · exact .inl hsmall
        · exact .inr ⟨m, (hmem m).mpr (.inr hm), rfl⟩
        · obtain rfl := List.mem_singleton.mp hp
          exact .inr ⟨l.body, (hmem _).mpr (.inl rfl), hblock.symm⟩
    unfold outline
    rw [hopened, hblocks]
    rfl

/-- Nothing in a free span can be accessed. -/
theorem WF.opened_sdiff_free (hwf : h.WF) {lo hi : Nat} (hlo : h.large.begin ≤ lo)
    (hfree : ∀ a, lo ≤ a → a < hi → h.large.spans.Free a) : h.opened \ Set.Ico lo hi = h.opened := by
  refine sdiff_eq_left.mpr (Set.disjoint_left.mpr fun a ha hin => ?_)
  exact hwf.free_not_committed (Nat.le_trans hlo hin.1) (hfree a hin.1 hin.2) ha.1

/-- A span that is taken, committed and poisoned gives one more block, where there was none. -/
theorem WF.withMapping (hwf : h.WF) (hplaced : l.Placed h.large.begin h.large.past) {spans : Spans}
    {pages : Pages} (halloc : h.large.spans.alloc l.mapSize = some (l.mapBegin, spans))
    (hwritable : ∀ a, a < Word.limit →
      h.pages.Writable a ∨ l.mapBegin ≤ a ∧ a < l.mapBegin + l.mapSize → pages.Writable a)
    (hbytes : pages.bytes = h.pages.bytes) (hcalm : h.pages.armed = none → pages.armed = none)
    (hrecord : l.record = {}) :
    (∀ b ∈ h.blocks, b.begin ≠ l.user)
      ∧ Becomes h
        { h with
          large := ({ h.large with spans } : Large).link l
          pages
          shadow := h.shadow.poisoned l.mapBegin l.mapSize Shadow.Magic.heapLeftRedzone.byte }
        (h.outline.grow .large (Word.roundUp l.size Pages.pageSize) [l.user]) := by
  obtain ⟨hspans, hpast, -, hlo, -, hfree, hfree'⟩ :=
    Spans.alloc_spec hwf.large.spans hplaced.mapSize_dvd halloc
  have hlimit : ∀ a ∈ l.mapping, a < Word.limit := by
    rintro a ⟨-, ha⟩
    have hle := hplaced.le_hi
    have hend := hwf.layout.end_lt
    rw [hwf.layout.large_past] at hle
    omega
  constructor
  · intro b hb heq
    have hin := Block.begin_mem_extent (hwf.tiled.solid b hb)
    rw [heq] at hin
    have hheader := hplaced.header_le
    have huser := hplaced.lt_past
    have hend := hplaced.past_le
    refine hwf.free_not_committed (a := l.user) (by omega) (hfree l.user (by omega) (by omega)) ?_
    exact hwf.extent_subset hb hin
  · -- The span met no mapping, and nothing in it was committed.
    have hstep1 := hwf.withSpans hspans (hpast.trans hwf.large.spans_past) fun m hm a ha hf =>
      hwf.large.taken m hm a ha ((hfree' a).mp hf).1
    have hstep2 := hstep1.wf.withPages (fun a ha hw => hwritable a ha (.inl hw)) hbytes hcalm
    have haddr : Shadow.granule ∣ l.mapBegin := Nat.dvd_trans (by decide) hplaced.mapBegin_dvd
    have hsize : Shadow.granule ∣ l.mapSize := Nat.dvd_trans (by decide) hplaced.mapSize_dvd
    have hmagic := Shadow.addressableBytes_magic .heapLeftRedzone
    have hstep3 := hstep2.wf.withPoisoned _ haddr hsize hmagic
    have houtline := hstep3.outline
    rw [hstep2.outline, hstep1.outline, Outline.close,
      show h.outline.opened \ _ = h.outline.opened from hwf.opened_sdiff_free hlo hfree] at houtline
    have hstep4 := hstep3.wf.withLinked hplaced
      (fun m hm => Set.disjoint_left.mpr fun a ha ham => hwf.large.taken m hm a ham (hfree a ha.1 ha.2))
      (fun a ha hf => ((hfree' a).mp hf).2 ha)
      (fun a ha => hwritable a (hlimit a ha) (.inr ha))
      (fun a ha haddressable => ((Shadow.addressable_poisoned h.shadow haddr hsize hmagic
        (hlimit a ha)).mp haddressable).2 ha) hrecord
    refine ⟨hstep4.wf, rfl, hstep4.outline.trans ?_, hcalm⟩
    rw [show (Heap.outline _) = h.outline from houtline]

/-- Mapping a large block adds one where there was none, or changes nothing but pages. -/
theorem ends_allocateLarge (hwf : h.WF) {size alignment : Nat} (hsize : 0 < size)
    (halign : Word.isPowerOfTwo alignment = true) :
    Act.Ends (allocateLarge size alignment) h
      (fun user t => (∀ b ∈ h.blocks, b.begin ≠ user) ∧ Pages.pageSize ∣ user
        ∧ Becomes h t (h.outline.grow .large (Word.roundUp size Pages.pageSize) [user]))
      (Declines (allocateLarge size alignment) h) := by
  unfold allocateLarge
  rw [Act.ends_bind, Act.ends_orRefuse]
  refine ⟨fun mapSize hmapSize => ?_, fun hnone => ⟨.refl h, .inr ⟨.inl trivial, fun q => ?_⟩⟩⟩
  case refine_2 =>
    rw [Act.ends_bind, hnone]
    exact ⟨rfl, rfl⟩
  obtain ⟨hmapdvd, -, hfits⟩ := mapSizeFor?_spec halign hmapSize
  unfold takeSpan
  simp only [Act.ends_bind, Act.ends_get, Act.ends_orRefuse]
  refine ⟨fun found halloc => ?_, fun hnone => ⟨.refl h, .inr ⟨.inr trivial, fun q => ?_⟩⟩⟩
  case refine_2 =>
    rw [Act.ends_bind, hmapSize]
    simp only [Act.ends_bind, Act.ends_get, Act.ends_orRefuse_some, hnone]
    exact ⟨rfl, rfl⟩
  obtain ⟨mapBegin, spans⟩ := found
  obtain ⟨-, -, hbegin, hlo, hhi, -, -⟩ := Spans.alloc_spec hwf.large.spans hmapdvd halloc
  rw [hwf.large.spans_past] at hhi
  obtain ⟨huserdvd, hheader, hend⟩ := hfits mapBegin hbegin
  have hl := hwf.layout
  refine Act.ends_modify.mpr ?_
  rw [Act.ends_pure, Act.ends_attempt, ends_onPages]
  refine (Pages.ends_commit hbegin).imp ?_ ?_
  · rintro - pages ⟨hwritable, hbytes, hcalm⟩
    simp only [Act.ends_bind]
    unfold poison
    have haddr : Shadow.granule ∣ mapBegin := Nat.dvd_trans (by decide) hbegin
    refine ends_onShadow (h := { h with large := { h.large with spans }, pages }) { hl with } haddr ?_ ?_
    · have h1 := hl.large_begin
      have h2 := hl.large_past
      have h3 : h.space.begin ≤ h.primaryEnd := Nat.le_add_right _ _
      exact ⟨by show h.space.begin ≤ mapBegin; omega,
        by show mapBegin + mapSize ≤ h.space.endAddr; omega⟩
    · refine Act.ends_check.mpr ⟨_, Word.nextMultiple_eq_ok.mpr ⟨?_, ?_, rfl⟩, ?_⟩
      · exact Nat.lt_of_lt_of_le (by decide : 0 < Pages.pageSize) (Nat.le_max_right _ _)
      · have hround := Word.le_roundUp (n := size) (m := Pages.pageSize)
        have hlimit := hl.end_lt
        have hpast := hl.large_past
        omega
      · generalize Word.roundUp (mapBegin + Pages.pageSize) (max alignment Pages.pageSize) = user at *
        obtain ⟨hoff, hbecomes⟩ := hwf.withMapping
          (l := { user, size, mapBegin, mapSize, prev := 0, next := 0, record := {} })
          ⟨hbegin, hmapdvd, huserdvd, hsize, hlo, hheader, hend, hhi⟩ halloc hwritable hbytes hcalm rfl
        exact Act.ends_modify.mpr (Act.ends_pure.mpr ⟨hoff, huserdvd, hbecomes⟩)
  · rintro e pages ⟨hwritable, hbytes, harmed⟩
    -- The span goes back where it was taken.
    have hback := Spans.release_alloc hwf.large.spans halloc
    rw [Act.ends_bind]
    refine Act.ends_modify.mpr (Act.ends_refuse.mpr ⟨⟨?_, hbytes, fun a _ hw => hwritable a hw,
      fun hcalm => absurd hcalm harmed⟩, .inl ⟨⟨e, rfl⟩, harmed⟩⟩)
    show ({ h with large := { h.large with spans := spans.release ⟨mapBegin, mapSize⟩ }, pages } :
      Heap) = { h with pages }
    rw [hback]

/-! ## Unmapping -/

/-- A block that has left the list is gone, and with it everything that was open in its
    mapping. -/
theorem WF.withUnlinked (hwf : h.WF) (hl : l.body ∈ h.large.bodies) :
    Becomes h { h with large := h.large.unlink l }
        (h.outline.unmap l.block l.mapping h.contents)
      ∧ ∀ a ∈ l.mapping, a ∉ ({ h with large := h.large.unlink l } : Heap).committed := by
  have hmem : ∀ m, m ∈ (h.large.unlink l).bodies ↔ m ∈ h.large.bodies ∧ m ≠ l.body :=
    fun m => hwf.large.mem_unlink hl
  -- Regions lie before the mapping, and other mappings elsewhere.
  have hout : ∀ a ∈ l.mapping,
      a ∉ ({ h with large := h.large.unlink l } : Heap).committed := by
    rintro a ha (⟨c, r, hr, hlo, hhi⟩ | ⟨m, hm, ham⟩)
    · have hend := region_le_primaryEnd (lt_size_of_region (h := h) hr)
      have hmapped := (hwf.region c r hr).mappedUser_le
      have hbegin := (hwf.mapping_bounds hl ha).1
      change a < h.regionBegin c + r.mappedUser at hhi
      omega
    · obtain ⟨hm, hne⟩ := (hmem m).mp hm
      exact hne (hwf.large.eq_of_mem hm hl ham ha)
  have hopened : ({ h with large := h.large.unlink l } : Heap).opened = h.opened \ l.mapping := by
    ext a
    constructor
    · rintro ⟨hcommitted, haddressable⟩
      refine ⟨⟨?_, haddressable⟩, fun ha => hout a ha hcommitted⟩
      rcases hcommitted with hregion | ⟨m, hm, ha⟩
      · exact .inl hregion
      · exact .inr ⟨m, ((hmem m).mp hm).1, ha⟩
    · rintro ⟨⟨hregion | ⟨m, hm, ha⟩, haddressable⟩, hnot⟩
      · exact ⟨.inl hregion, haddressable⟩
      · refine ⟨.inr ⟨m, (hmem m).mpr ⟨hm, ?_⟩, ha⟩, haddressable⟩
        rintro rfl
        exact hnot ha
  have hblocks : ({ h with large := h.large.unlink l } : Heap).blocks = h.blocks \ {l.block} := by
    ext b
    constructor
    · rintro (⟨s, hs, rfl⟩ | ⟨m, hm, rfl⟩)
      · exact ⟨.inl ⟨s, hs, rfl⟩, fun heq => nomatch congrArg Block.kind heq⟩
      · obtain ⟨hm, hne⟩ := (hmem m).mp hm
        refine ⟨.inr ⟨m, hm, rfl⟩, fun heq => hne (hwf.large.eq_of_user hm hl ?_)⟩
        exact congrArg Block.begin heq
    · rintro ⟨⟨s, hs, rfl⟩ | ⟨m, hm, rfl⟩, hne⟩
      · exact .inl ⟨s, hs, rfl⟩
      · exact .inr ⟨m, (hmem m).mpr ⟨hm, fun heq => hne (heq ▸ rfl)⟩, rfl⟩
  refine ⟨⟨?_, rfl, ?_, id⟩, hout⟩
  · refine hwf.withLarge rfl rfl (hwf.large.unlink l) fun m hm a ha => ?_
    exact hwf.backed a (.inr ⟨m, ((hmem m).mp hm).1, ha⟩)
  · unfold outline
    rw [hopened, hblocks]
    rfl

/-- Pages that were given back, outside of everything committed. -/
theorem WF.withReleased (hwf : h.WF) {lo n : Nat} {pages : Pages}
    (hsame : Pages.SameOutside lo n h.pages pages)
    (hout : ∀ a, lo ≤ a → a < lo + n → a ∉ h.committed) (hlo : h.primaryEnd ≤ lo) :
    Becomes h { h with pages } { h.outline with contents := ({ h with pages } : Heap).contents }
      ∧ ∀ a, ¬ (lo ≤ a ∧ a < lo + n) → ({ h with pages } : Heap).contents a = h.contents a := by
  refine ⟨⟨?_, rfl, rfl, hsame.calm⟩, fun a ha => ?_⟩
  · refine
      { layout := { hwf.layout with }
        region := hwf.region
        large := hwf.large
        backed := fun a ha => ?_
        records := fun c r hr a hlo' hhi => ?_ }
    · exact hsame.writable a (hwf.lt_limit ha) (fun hin => hout a hin.1 hin.2 ha) (hwf.backed a ha)
    · have hc := lt_size_of_region (h := h) hr
      have hend := region_le_primaryEnd hc
      have hlimit := hwf.layout.region_lt_limit hc
      change a < h.regionBegin c + h.regionSize at hhi
      exact hsame.writable a (by omega) (by omega) (hwf.records c r hr a hlo' hhi)
  · unfold contents
    by_cases hlt : a < Word.limit
    · rw [if_pos hlt, if_pos hlt]
      exact hsame.byte a hlt ha
    · rw [if_neg hlt, if_neg hlt]

/-- The mapping of a large block keeps clear of all other blocks. -/
theorem WF.disjoint_mapping (hwf : h.WF) {l : LargeBlock} (hl : l ∈ h.large.bodies) {c : Block}
    (hc : c ∈ h.blocks) (hne : c ≠ l.block) : Disjoint c.extent l.mapping := by
  refine Set.disjoint_left.mpr fun a hac ha => ?_
  rcases hc with ⟨s, hs, rfl⟩ | ⟨m, hm, rfl⟩
  · have hprimary := (hwf.locate?_eq hs hac).1
    rw [(hwf.mapping_bounds hl ha).2.2] at hprimary
    exact nomatch hprimary
  · have hmac := (hwf.large.placed m hm).extent_subset hac
    exact hne (congrArg LargeBlock.block (hwf.large.eq_of_mem hm hl hmac ha))

/-- Unmapping a large block removes it and leaves everything outside its mapping alone, whether
    or not its pages could be released. -/
theorem ends_freeLarge (hwf : h.WF) {b : Block} (hb : b ∈ h.blocks) (hkind : b.kind = .large) :
    ∃ gone, b.extent ⊆ gone ∧ (∀ c ∈ h.blocks, c ≠ b → Disjoint c.extent gone)
      ∧ Act.Ends (freeLarge b.begin) h
        (fun _ t => Becomes h t (h.outline.unmap b gone t.contents)
          ∧ ∀ a, a ∉ gone → t.contents a = h.contents a)
        fun _ t => Becomes h t (h.outline.unmap b gone t.contents)
          ∧ (∀ a, a ∉ gone → t.contents a = h.contents a) ∧ h.pages.armed ≠ none := by
  rcases hb with ⟨s, hs, rfl⟩ | ⟨l, hl, rfl⟩
  · exact nomatch hkind
  have hplaced := hwf.large.placed l hl
  refine ⟨l.mapping, hplaced.extent_subset, fun c hc hne => hwf.disjoint_mapping hl hc hne, ?_⟩
  -- What is found has the links of the block, too.
  obtain ⟨d, hat, rfl⟩ := hwf.large.blockAt?_eq hl
  obtain ⟨hstep1, hout⟩ := hwf.withUnlinked hl
  have hlo : h.primaryEnd ≤ d.mapBegin := by
    rw [← hwf.layout.large_begin]
    exact hplaced.lo_le
  have hjoin : ∀ {t u : Heap}, Becomes { h with large := h.large.unlink d } t
      { ({ h with large := h.large.unlink d } : Heap).outline with contents := t.contents } →
      Becomes t u t.outline →
      Becomes h u (h.outline.unmap d.block d.mapping u.contents) := by
    intro t u hstep2 hstep3
    refine ⟨hstep3.wf, hstep3.classes.trans (hstep2.classes.trans hstep1.classes), ?_,
      fun hcalm => hstep3.calm (hstep2.calm (hstep1.calm hcalm))⟩
    rw [hstep3.outline, hstep2.outline, hstep1.outline, hstep3.contents]
    rfl
  unfold freeLarge
  simp only [Act.ends_bind, Act.ends_get, Act.ends_orRefuse]
  refine ⟨fun e he => ?_, fun hnone => ?_⟩
  · rw [show h.large.blockAt? d.body.block.begin = some d from hat] at he
    obtain rfl := Option.some.inj he
    refine Act.ends_modify.mpr (ends_onPages.mpr ?_)
    refine (Pages.ends_release hplaced.mapBegin_dvd hplaced.mapSize_dvd).imp ?_ ?_
    · intro _ pages hsame
      obtain ⟨hstep2, hbytes⟩ := hstep1.wf.withReleased hsame
        (fun a hlo hhi => hout a ⟨hlo, hhi⟩) hlo
      have hsolid := Large.span_solid hplaced
      obtain ⟨hspans, hpast, hfree⟩ := Spans.release_spec hwf.large.spans hsolid hplaced.lo_le
        (by rw [hwf.large.spans_past]; exact hplaced.le_hi) (hwf.large.taken _ hl)
      have hstep3 := hstep2.wf.withSpans hspans (hpast.trans hwf.large.spans_past) (by
        intro m hm a ha hf
        obtain ⟨hm, hne⟩ := (hwf.large.mem_unlink hl).mp hm
        rcases (hfree a).mp hf with hf | hin
        · exact hwf.large.taken m hm a ha hf
        · exact hne (hwf.large.eq_of_mem hm hl ha hin))
      exact Act.ends_modify.mpr ⟨hjoin hstep2 hstep3, hbytes⟩
    · rintro e pages ⟨hsame, harmed⟩
      obtain ⟨hstep2, hbytes⟩ := hstep1.wf.withReleased hsame
        (fun a hlo hhi => hout a ⟨hlo, hhi⟩) hlo
      exact ⟨hjoin hstep2 (Becomes.refl hstep2.wf), hbytes, harmed⟩
  · rw [show h.large.blockAt? d.body.block.begin = some d from hat] at hnone
    exact nomatch hnone

end Heap

end GuardedHeap
