import GuardedHeap.Heap.Small
import GuardedHeap.Proofs.Heap.Outline

/-! # Small blocks — carving keeps what there was

    Committing pages for a region changes nothing that can be seen: the new
    pages are poisoned before they count as committed (`ends_commitRegion`).
    Carving then adds fresh blocks where there were none
    (`WF.becomes_carveRegion`), and a region is stocked if it has free blocks
    or can get some (`ends_stockedRegion`). -/

namespace GuardedHeap

/-! ## Errors -/

namespace AllocError

/-- The request asks for what no heap has. -/
def Undue : AllocError → Prop
  | overflow .. | invalidAlignment _ | callocOverflow .. | noSizeClass _ => True
  | _ => False

/-- The heap has no room left. -/
def Exhausts : AllocError → Prop
  | regionExhausted .. | secondaryExhausted _ => True
  | _ => False

/-- Neither comes from a call of the operating system. -/
theorem ne_map {e : AllocError} (h : e.Undue ∨ e.Exhausts) (m : MapError) : e ≠ .map m := by
  rintro rfl
  exact h.elim id id

end AllocError

namespace Heap

variable {h : Heap} {c : Nat} {r : Region}

/-! ## Committing -/

/-- A region ends at a word. -/
theorem Layout.region_lt_limit (hl : h.Layout) (hc : c < h.regions.size) :
    h.regionBegin c + h.regionSize < Word.limit := by
  have hend := region_le_primaryEnd hc
  have hle := hl.large_le
  rw [hl.large_begin, hl.large_past] at hle
  have := hl.end_lt
  omega

/-- More writable pages with the same bytes change nothing that can be seen. -/
theorem WF.withPages (hwf : h.WF) {pages : Pages}
    (hwritable : ∀ a, a < Word.limit → h.pages.Writable a → pages.Writable a)
    (hbytes : pages.bytes = h.pages.bytes)
    (hcalm : h.pages.armed = none → pages.armed = none) :
    Becomes h { h with pages } h.outline where
  wf :=
    { layout := { hwf.layout with }
      region := hwf.region
      large := hwf.large
      backed := fun a ha => hwritable a (hwf.lt_limit ha) (hwf.backed a ha)
      records := fun c r hr a hlo hhi => by
        have hlimit := hwf.layout.region_lt_limit (lt_size_of_region (h := h) hr)
        exact hwritable a (Nat.lt_trans hhi hlimit) (hwf.records c r hr a hlo hhi) }
  classes := rfl
  outline := by
    have hcontents : ({ h with pages } : Heap).contents = h.contents := by
      funext a
      unfold contents Pages.byte
      rw [hbytes]
    unfold outline
    rw [hcontents]
    rfl
  calm := hcalm

/-- The heap on other pages, with the same bytes and with all that could be written before. -/
structure Repaged (h t : Heap) : Prop where
  same : t = { h with pages := t.pages }
  bytes : t.pages.bytes = h.pages.bytes
  writable : ∀ a, a < Word.limit → h.pages.Writable a → t.pages.Writable a
  calm : h.pages.armed = none → t.pages.armed = none

namespace Repaged

variable {t u : Heap}

/-- Pages that stay are the same pages. -/
theorem refl (h : Heap) : Repaged h h :=
  ⟨rfl, rfl, fun _ _ hw => hw, id⟩

theorem trans (h' : Repaged h t) (h'' : Repaged t u) : Repaged h u := by
  refine ⟨?_, h''.bytes.trans h'.bytes, fun a ha hw => h''.writable a ha (h'.writable a ha hw),
    fun hcalm => h''.calm (h'.calm hcalm)⟩
  rw [h''.same, h'.same]

/-- Other pages leave the outline as it is. -/
theorem becomes (h' : Repaged h t) (hwf : h.WF) : Becomes h t h.outline := by
  rw [h'.same]
  exact hwf.withPages h'.writable h'.bytes h'.calm

end Repaged

/-- The heap on other pages. -/
abbrev on (h : Heap) (q : Pages) : Heap :=
  { h with pages := q }

/-- The error comes from a call of the operating system that was set up to fail.  Any other error
    tells of the request or of a lack of room; it is the answer on all pages, and comes before
    anything is done. -/
def Blames {σ α : Type} (act : Act AllocError σ α) (on : Pages → σ) (p : Pages) (e : AllocError) :
    Prop :=
  (∃ m, e = .map m) ∧ p.armed ≠ none
    ∨ (e.Undue ∨ e.Exhausts) ∧ ∀ q, Act.Ends act (on q) (fun _ _ => False) fun e' t => e' = e ∧ t = on q

/-- An action was refused: nothing has changed but pages, and the error says why. -/
structure Declines {α : Type} (act : Act AllocError Heap α) (h : Heap) (e : AllocError) (t : Heap) :
    Prop where
  repaged : Repaged h t
  blames : Blames act h.on h.pages e

/-- An action is to blame for what its parts are to blame for. -/
theorem Blames.imp {σ τ α β : Type} {act : Act AllocError σ α} {act' : Act AllocError τ β}
    {on : Pages → σ} {on' : Pages → τ} {p : Pages} {e : AllocError} (h : Blames act on p e)
    (himp : ∀ q, Act.Ends act (on q) (fun _ _ => False) (fun e' t => e' = e ∧ t = on q) →
      Act.Ends act' (on' q) (fun _ _ => False) fun e' t => e' = e ∧ t = on' q) :
    Blames act' on' p e :=
  Or.imp_right (And.imp_right fun hall q => himp q (hall q)) h

/-- An action declines for the reasons that its parts have. -/
theorem Declines.imp {α β : Type} {act : Act AllocError Heap α} {act' : Act AllocError Heap β}
    {e : AllocError} {t : Heap} (hdeclines : Declines act h e t)
    (himp : ∀ q, Act.Ends act (h.on q) (fun _ _ => False) (fun e' t => e' = e ∧ t = h.on q) →
      Act.Ends act' (h.on q) (fun _ _ => False) fun e' t => e' = e ∧ t = h.on q) :
    Declines act' h e t :=
  ⟨hdeclines.repaged, hdeclines.blames.imp himp⟩

/-- Nothing is committed between what a region has committed and its end. -/
theorem WF.not_committed (hwf : h.WF) (hr : h.regions[c]? = some r) {a : Nat}
    (hlo : h.regionBegin c + r.mappedUser ≤ a) (hhi : a < h.regionBegin c + h.regionSize) :
    a ∉ h.committed := by
  have hc := lt_size_of_region hr
  rintro (⟨c', r', hr', hlo', hhi'⟩ | ⟨l, hl, ha⟩)
  · have hmapped := (hwf.region c' r' hr').mappedUser_le
    have hclass := classOf_eq (h := h) (c := c) (a := a) (by omega) hhi
    have hclass' := classOf_eq (h := h) (c := c') (a := a) hlo' (by omega)
    rw [hclass] at hclass'
    subst hclass'
    rw [hr] at hr'
    obtain rfl := Option.some.inj hr'
    omega
  · have hprimary := isPrimary_of_region hc (h := h) (a := a) (by omega) hhi
    rw [(hwf.mapping_bounds hl ha).2.2] at hprimary
    exact nomatch hprimary

/-- A region that commits more has the addresses between committed in addition. -/
theorem committed_setRegion_grown (hr : h.regions[c]? = some r) {r' : Region} {a : Nat}
    (ha : a ∈ (h.setRegion c r').committed) :
    a ∈ h.committed ∨ h.regionBegin c + r.mappedUser ≤ a ∧ a < h.regionBegin c + r'.mappedUser := by
  have hc := lt_size_of_region hr
  rcases ha with ⟨c', q, hq, hlo, hhi⟩ | hlarge
  · rw [regions_setRegion hc] at hq
    by_cases hcc : c' = c
    · rw [if_pos hcc] at hq
      obtain rfl := Option.some.inj hq
      subst hcc
      rcases Nat.lt_or_ge a (h.regionBegin c' + r.mappedUser) with hlt | hge
      · exact .inl (.inl ⟨c', r, hr, hlo, hlt⟩)
      · exact .inr ⟨hge, hhi⟩
    · rw [if_neg hcc] at hq
      exact .inl (.inl ⟨c', q, hq, hlo, hhi⟩)
  · exact .inl (.inr hlarge)

/-- A region commits more pages, which are poisoned: nothing changes that can be seen. -/
theorem WF.setMapped (hwf : h.WF) (hr : h.regions[c]? = some r) {user records : Nat}
    (hr' : Region.WF { r with mappedUser := user, mappedMeta := records } h.regionSize
      (h.classes.size c))
    (hgrown : r.mappedUser ≤ user)
    (huser : ∀ a, h.regionBegin c + r.mappedUser ≤ a → a < h.regionBegin c + user →
      h.pages.Writable a)
    (hrecords : ∀ a, h.regionBegin c + h.regionSize - records ≤ a →
      a < h.regionBegin c + h.regionSize → h.pages.Writable a)
    (hpoisoned : ∀ a, h.regionBegin c + r.mappedUser ≤ a → a < h.regionBegin c + user →
      ¬ h.shadow.Addressable a) :
    Becomes h (h.setRegion c { r with mappedUser := user, mappedMeta := records }) h.outline := by
  have hc := lt_size_of_region hr
  refine ⟨hwf.setRegion hc hr' (fun a hlo hhi => ?_) hrecords, rfl, ?_, id⟩
  · rcases Nat.lt_or_ge a (h.regionBegin c + r.mappedUser) with hlt | hge
    · exact hwf.backed a (.inl ⟨c, r, hr, hlo, hlt⟩)
    · exact huser a hge hhi
  -- What the region grows by is poisoned, so it opens nothing.
  · have hopened : (h.setRegion c { r with mappedUser := user, mappedMeta := records }).opened =
        h.opened := by
      ext a
      constructor
      · rintro ⟨hcommitted, haddressable⟩
        rcases committed_setRegion_grown hr hcommitted with hold | ⟨hlo, hhi⟩
        · exact ⟨hold, haddressable⟩
        · exact absurd haddressable (hpoisoned a hlo hhi)
      · rintro ⟨hcommitted, haddressable⟩
        refine ⟨?_, haddressable⟩
        rcases hcommitted with ⟨c', q, hq, hlo, hhi⟩ | hlarge
        · by_cases hcc : c' = c
          · subst hcc
            rw [hr] at hq
            obtain rfl := Option.some.inj hq
            refine .inl ⟨c', _, by rw [regions_setRegion hc, if_pos rfl], hlo, ?_⟩
            exact Nat.lt_of_lt_of_le hhi (Nat.add_le_add_left hgrown _)
          · exact .inl ⟨c', q, by rw [regions_setRegion hc, if_neg hcc]; exact hq, hlo, hhi⟩
        · exact .inr hlarge
    have hblocks : (h.setRegion c { r with mappedUser := user, mappedMeta := records }).blocks =
        h.blocks := blocks_setRegion hr rfl rfl
    have hsame := update_free hr
    have hfree : (h.setRegion c { r with mappedUser := user, mappedMeta := records }).free = h.free :=
      (free_setRegion hc).trans hsame
    unfold outline
    rw [hopened, hblocks, hfree]
    rfl

/-- A region that is there is found. -/
theorem ends_region (hr : h.regions[c]? = some r) {ok : Region → Heap → Prop}
    {no : AllocError → Heap → Prop} (hok : ok r h) : Act.Ends (region c) h ok no := by
  unfold region
  simp only [Act.ends_bind, Act.ends_get, Act.ends_orStop]
  exact ⟨r, hr, hok⟩

/-- A memory call on the pages of a heap. -/
theorem ends_onPages {α : Type} {act : Act MapError Pages α} {ok : α → Heap → Prop}
    {no : AllocError → Heap → Prop} :
    Act.Ends (onPages act) h ok no ↔
      Act.Ends act h.pages (fun a pages => ok a { h with pages })
        fun e pages => no (.map e) { h with pages } := by
  unfold onPages
  rw [Act.ends_mapError, Act.ends_onPart]

/-- How far pages are committed: in steps, but not beyond the region, and never back. -/
theorem target_spec {reach size mapped : Nat} (step : Nat) (hstep : Pages.pageSize ∣ step) (hpos : 0 < step)
    (hsize : Pages.pageSize ∣ size) (hmapped : Pages.pageSize ∣ mapped) (hreach : reach ≤ size)
    (hle : mapped ≤ size) :
    Pages.pageSize ∣ max (min (Word.roundUp reach step) size) mapped
      ∧ reach ≤ max (min (Word.roundUp reach step) size) mapped
      ∧ mapped ≤ max (min (Word.roundUp reach step) size) mapped
      ∧ max (min (Word.roundUp reach step) size) mapped ≤ size := by
  have hround := Word.le_roundUp (n := reach) (m := step)
  refine ⟨dvd_max (dvd_min ?_ hsize) hmapped, ?_, ?_, ?_⟩
  · exact Nat.dvd_trans hstep (Word.dvd_roundUp hpos)
  · omega
  · omega
  · omega

/-- A region that is committed up to its targets: they are in it, and as far as the reach. -/
theorem target_wf {size user records : Nat} {reach : Reach} (hwf : r.WF h.regionSize size)
    (hdvd : Pages.pageSize ∣ h.regionSize) (huser : reach.user ≤ h.regionSize)
    (hrecords : reach.records ≤ h.regionSize)
    (hu : max (min (Word.roundUp reach.user commitBytes) h.regionSize) r.mappedUser = user)
    (hm : max (min (Word.roundUp reach.records recordCommitBytes) h.regionSize) r.mappedMeta = records) :
    Region.WF { r with mappedUser := user, mappedMeta := records } h.regionSize size
      ∧ reach.user ≤ user ∧ reach.records ≤ records ∧ r.mappedUser ≤ user ∧ r.mappedMeta ≤ records := by
  obtain ⟨hudvd, hureach, hugrown, hule⟩ := target_spec commitBytes (by decide)
    (by decide) hdvd hwf.mappedUser_dvd huser hwf.mappedUser_le
  obtain ⟨hmdvd, hmreach, hmgrown, hmle⟩ := target_spec recordCommitBytes (by decide)
    (by decide) hdvd hwf.mappedMeta_dvd hrecords hwf.mappedMeta_le
  rw [hu] at hudvd hureach hugrown hule
  rw [hm] at hmdvd hmreach hmgrown hmle
  refine ⟨?_, hureach, hmreach, hugrown, hmgrown⟩
  exact { hwf with
    user_le := Nat.le_trans hwf.user_le hugrown
    meta_le := Nat.le_trans hwf.meta_le hmgrown
    mappedUser_le := hule
    mappedMeta_le := hmle
    mappedUser_dvd := hudvd
    mappedMeta_dvd := hmdvd }

/-- The pages of a region after both of its ends were committed. -/
theorem WF.withMapped (hwf : h.WF) (hr : h.regions[c]? = some r) {user records : Nat}
    (hr' : Region.WF { r with mappedUser := user, mappedMeta := records } h.regionSize
      (h.classes.size c))
    (hgrown : r.mappedUser ≤ user) {pages : Pages} (shadow : Shadow)
    (hrange : Shadow.SameRange h.shadow shadow)
    (hshadow : ∀ a, a < Word.limit → (shadow.Addressable a ↔ h.shadow.Addressable a
      ∧ ¬ (h.regionBegin c + r.mappedUser ≤ a ∧ a < h.regionBegin c + user)))
    (hwritable : ∀ a, a < Word.limit →
      (h.pages.Writable a ∨ h.regionBegin c + r.mappedUser ≤ a ∧ a < h.regionBegin c + user
        ∨ h.regionBegin c + h.regionSize - records ≤ a
          ∧ a < h.regionBegin c + h.regionSize - r.mappedMeta) → pages.Writable a)
    (hbytes : pages.bytes = h.pages.bytes) (hcalm : h.pages.armed = none → pages.armed = none) :
    Becomes h (({ h with pages, shadow } : Heap).setRegion c
      { r with mappedUser := user, mappedMeta := records }) h.outline := by
  have hlimit := hwf.layout.region_lt_limit (lt_size_of_region hr)
  have huser := hr'.mappedUser_le
  change user ≤ h.regionSize at huser
  have hstep1 := hwf.withPages (fun a ha hw => hwritable a ha (.inl hw)) hbytes hcalm
  have hstep2 := hstep1.wf.withShadow hrange
  -- Nothing that was poisoned had been open: it was not committed.
  have hopened : {a | a ∈ h.committed ∧ shadow.Addressable a} = h.opened := by
    ext a
    constructor
    · rintro ⟨hcommitted, haddressable⟩
      exact ⟨hcommitted, ((hshadow a (hwf.lt_limit hcommitted)).mp haddressable).1⟩
    · rintro ⟨hcommitted, haddressable⟩
      refine ⟨hcommitted, (hshadow a (hwf.lt_limit hcommitted)).mpr ⟨haddressable, fun hin => ?_⟩⟩
      exact hwf.not_committed hr hin.1 (by omega) hcommitted
  have houtline : ({ h with pages, shadow } : Heap).outline = h.outline := by
    refine hstep2.outline.trans ?_
    rw [hstep1.outline]
    exact congrArg (fun opened => ({ h.outline with opened } : Outline)) hopened
  have hstep3 := hstep2.wf.setMapped (c := c) (r := r) hr hr' hgrown ?_ ?_ ?_
  · exact ⟨hstep3.wf, rfl, hstep3.outline.trans houtline, hcalm⟩
  · exact fun a hlo hhi => hwritable a (by
      change a < h.regionBegin c + user at hhi
      omega) (.inr (.inl ⟨hlo, hhi⟩))
  · intro a hlo hhi
    change h.regionBegin c + h.regionSize - records ≤ a at hlo
    change a < h.regionBegin c + h.regionSize at hhi
    show pages.Writable a
    rcases Nat.lt_or_ge a (h.regionBegin c + h.regionSize - r.mappedMeta) with hlt | hge
    · exact hwritable a (by omega) (.inr (.inr ⟨hlo, hlt⟩))
    · exact hwritable a (by omega) (.inl (hwf.records c r hr a hge hhi))
  · intro a hlo hhi haddressable
    change a < h.regionBegin c + user at hhi
    exact ((hshadow a (by omega)).mp haddressable).2 ⟨hlo, hhi⟩

/-- The bytes of new pages are closed. -/
theorem ends_markCommitted {β : Type} {next : Act AllocError Heap β} {ok : β → Heap → Prop}
    {no : AllocError → Heap → Prop} (hwf : h.WF) (hr : h.regions[c]? = some r) {user : Nat} (pages : Pages)
    (hudvd : Pages.pageSize ∣ user) (hule : user ≤ h.regionSize)
    (hnext : ∀ shadow, Shadow.SameRange h.shadow shadow →
      (∀ a, a < Word.limit → (shadow.Addressable a ↔ h.shadow.Addressable a
        ∧ ¬ (h.regionBegin c + r.mappedUser ≤ a ∧ a < h.regionBegin c + user))) →
      Act.Ends next { h with pages, shadow } ok no) :
    Act.Ends (do
      if user > r.mappedUser then
        poison (h.regionBegin c + r.mappedUser) (user - r.mappedUser) .heapLeftRedzone
      next) { h with pages } ok no := by
  have hregion := hwf.region c r hr
  have hl := hwf.layout
  have hbegin := hl.regionBegin_dvd c
  by_cases hmore : user > r.mappedUser
  · have haddr : Shadow.granule ∣ h.regionBegin c + r.mappedUser :=
      Nat.dvd_trans (by decide) (Nat.dvd_add hbegin hregion.mappedUser_dvd)
    have hsize : Shadow.granule ∣ user - r.mappedUser :=
      Nat.dvd_trans (by decide) (Nat.dvd_sub hudvd hregion.mappedUser_dvd)
    have hlayout : ({ h with pages } : Heap).Layout := { hl with }
    rw [if_pos hmore, Act.ends_bind]
    unfold poison
    refine ends_onShadow hlayout haddr ?_ (hnext _ (Shadow.poisoned_sameRange _ _ _ _) fun a ha => ?_)
    · have h1 := begin_le_regionBegin (h := h) (c := c)
      have h2 := region_le_primaryEnd (lt_size_of_region hr)
      have h3 := hl.large_le
      rw [hl.large_begin, hl.large_past] at h3
      exact ⟨by show h.space.begin ≤ _; omega, by show _ ≤ h.space.endAddr; omega⟩
    · have hmark := Shadow.addressable_poisoned h.shadow haddr hsize
        (Shadow.addressableBytes_magic .heapLeftRedzone) ha
      rwa [show h.regionBegin c + r.mappedUser + (user - r.mappedUser) =
        h.regionBegin c + user by omega] at hmark
  · rw [if_neg hmore]
    exact hnext h.shadow ⟨rfl, rfl, rfl⟩ fun a _ => ⟨fun hold => ⟨hold, by omega⟩, And.left⟩

/-- Committing pages for a region, up to a reach that has room in it. -/
theorem ends_commitRegion (hwf : h.WF) (hr : h.regions[c]? = some r) {reach : Reach}
    (huser : reach.user ≤ h.regionSize) (hrecords : reach.records ≤ h.regionSize) :
    Act.Ends (commitRegion c reach) h
      (fun _ t => Becomes h t h.outline ∧ t.regionSize = h.regionSize ∧ t.space = h.space
        ∧ ∃ user records, t.regions[c]? = some { r with mappedUser := user, mappedMeta := records }
          ∧ reach.user ≤ user ∧ reach.records ≤ records)
      fun e t => Repaged h t ∧ (∃ m, e = .map m) ∧ h.pages.armed ≠ none := by
  have hregion := hwf.region c r hr
  have hl := hwf.layout
  have hc := lt_size_of_region hr
  have hbegin := hl.regionBegin_dvd c
  unfold commitRegion
  simp only [Act.ends_bind, Act.ends_get]
  refine ends_region hr ?_
  generalize hu : max (min (Word.roundUp reach.user commitBytes) h.regionSize) r.mappedUser = user
  generalize hm : max (min (Word.roundUp reach.records recordCommitBytes) h.regionSize) r.mappedMeta = records
  obtain ⟨hr', hureach, hmreach, hugrown, hmgrown⟩ := target_wf hregion hl.region_dvd huser hrecords hu hm
  have hmdvd : Pages.pageSize ∣ records := hr'.mappedMeta_dvd
  have hregions : ∀ (pages : Pages) (shadow : Shadow),
      (({ h with pages, shadow } : Heap).setRegion c
        { r with mappedUser := user, mappedMeta := records }).regions[c]? =
          some { r with mappedUser := user, mappedMeta := records } := fun pages shadow =>
    (regions_setRegion (h := { h with pages, shadow }) hc).trans (if_pos rfl)
  rw [ends_onPages]
  refine (Pages.ends_commit (Nat.dvd_add hbegin hregion.mappedUser_dvd)).imp ?_ ?_
  -- Both ends of the region grow, so there are two commits, and the second may fail after the first.
  · rintro - pages ⟨hw1, hb1, hcalm1⟩
    rw [ends_onPages]
    refine (Pages.ends_commit (Nat.dvd_sub (Nat.dvd_add hbegin hl.region_dvd) hmdvd)).imp ?_ ?_
    · rintro - pages' ⟨hw2, hb2, hcalm2⟩
      have hwritable : ∀ a, a < Word.limit →
          (h.pages.Writable a ∨ h.regionBegin c + r.mappedUser ≤ a ∧ a < h.regionBegin c + user
            ∨ h.regionBegin c + h.regionSize - records ≤ a
              ∧ a < h.regionBegin c + h.regionSize - r.mappedMeta) → pages'.Writable a := by
        rintro a ha (hold | hnew | hnew)
        · exact hw2 a ha (.inl (hw1 a ha (.inl hold)))
        · exact hw2 a ha (.inl (hw1 a ha (.inr ⟨hnew.1, by omega⟩)))
        · have hmle : records ≤ h.regionSize := hr'.mappedMeta_le
          exact hw2 a ha (.inr ⟨hnew.1, by omega⟩)
      refine ends_markCommitted hwf hr pages' hr'.mappedUser_dvd hr'.mappedUser_le
        fun shadow hrange hshadow => Act.ends_modify.mpr ?_
      have hfinal := hwf.withMapped hr hr' hugrown shadow hrange hshadow hwritable (hb2.trans hb1)
        fun hcalm => hcalm2 (hcalm1 hcalm)
      exact ⟨hfinal, rfl, rfl, user, records, hregions _ _, hureach, hmreach⟩
    · rintro e pages' ⟨hw2, hb2, harmed⟩
      exact ⟨⟨rfl, hb2.trans hb1, fun a ha hw => hw2 a (hw1 a ha (.inl hw)),
        fun hcalm => absurd (hcalm1 hcalm) harmed⟩, ⟨e, rfl⟩, fun hcalm => harmed (hcalm1 hcalm)⟩
  · rintro e pages ⟨hw1, hb1, harmed⟩
    exact ⟨⟨rfl, hb1, fun a _ hw => hw1 a hw, fun hcalm => absurd hcalm harmed⟩, ⟨e, rfl⟩, harmed⟩

/-! ## Carving -/

/-- No block lies behind the carved part of a region. -/
theorem WF.not_in_block (hwf : h.WF) (hr : h.regions[c]? = some r) {a : Nat}
    (hlo : h.regionBegin c + r.allocatedUser ≤ a) (hhi : a < h.regionBegin c + h.regionSize)
    {b : Block} (hb : b ∈ h.blocks) : a ∉ b.extent := by
  intro ha
  have hclass := classOf_eq (h := h) (c := c) (a := a) (by omega) hhi
  rcases hb with ⟨s, hs, rfl⟩ | ⟨l, hl, rfl⟩
  · have hsclass := (hwf.locate?_eq hs ha).2.1
    rw [hclass] at hsclass
    obtain ⟨q, hq, hle⟩ := hs
    rw [← hsclass, hr] at hq
    obtain rfl := Option.some.inj hq
    have hpast := (slot_bounds (h := h) hle).2
    have hlt : a < h.slotBegin s + h.classes.size s.classId := ha.2
    rw [← hsclass] at hpast hlt
    omega
  · have hprimary := isPrimary_of_region (lt_size_of_region hr) (h := h) (a := a) (by omega) hhi
    rw [(hwf.mapping_bounds hl ((hwf.large.placed l hl).extent_subset ha)).2.2] at hprimary
    exact nomatch hprimary

/-- The blocks that a region carves next. -/
def freshSlots (h : Heap) (c : Nat) (r : Region) : List Nat :=
  (List.range (carveCount (h.classes.size c))).map fun i =>
    h.regionBegin c + r.allocatedUser + i * h.classes.size c

/-- There is always one at least. -/
theorem freshSlots_ne_nil (h : Heap) (c : Nat) (r : Region) : h.freshSlots c r ≠ [] := by
  have hpos : 0 < carveCount (h.classes.size c) := Nat.lt_of_lt_of_le Nat.one_pos (Nat.le_max_right _ _)
  unfold freshSlots
  rw [ne_eq, List.map_eq_nil_iff, List.range_eq_nil]
  exact Nat.ne_of_gt hpos

/-- Carving leaves a well-formed region. -/
theorem carve_wf (hr : Region.WF r h.regionSize (h.classes.size c)) (begin : Nat)
    (huser : (Region.nextReach r (h.classes.size c)).user ≤ r.mappedUser)
    (hrecords : (Region.nextReach r (h.classes.size c)).records ≤ r.mappedMeta)
    (hroom : Word.roundUp (Region.nextReach r (h.classes.size c)).user Pages.pageSize
      + Word.roundUp (Region.nextReach r (h.classes.size c)).records Pages.pageSize
        ≤ h.regionSize) :
    Region.WF (Region.carve r begin (h.classes.size c) (Region.nextReach r (h.classes.size c)))
      h.regionSize (h.classes.size c) := by
  obtain ⟨n, hn, hm, hblank⟩ := hr.user
  refine { hr with
    user := ⟨n + carveCount (h.classes.size c), ?_, ?_, fun slot hlo hhi => ?_⟩
    room := hroom
    user_le := huser
    meta_le := hrecords }
  · show r.allocatedUser + _ = _
    rw [hn, Nat.add_mul]
  · show r.allocatedMeta + _ = _
    rw [hm, Nat.add_mul]
  · exact hblank slot (by omega) hhi

/-- The heap whose region has carved its next blocks. -/
def carveRegion (h : Heap) (c : Nat) (r : Region) : Heap :=
  h.setRegion c (Region.carve r (h.regionBegin c) (h.classes.size c)
    (Region.nextReach r (h.classes.size c)))

/-- The blocks of slots that were carved stay. -/
theorem slotBlock_carveRegion (hr : h.regions[c]? = some r) (s : Slot) :
    (h.carveRegion c r).slotBlock s = h.slotBlock s := by
  refine slotBlock_setRegion hr ?_ s
  rfl

/-- A slot is carved afterwards if it was before, or is one of the fresh ones. -/
theorem carved_carveRegion (hc : c < h.regions.size) (hr : h.regions[c]? = some r)
    (hsize : 0 < h.classes.size c) {n : Nat} (hn : r.allocatedUser = n * h.classes.size c)
    (s : Slot) :
    (h.carveRegion c r).Carved s ↔
      h.Carved s ∨ s.classId = c ∧ n ≤ s.slot ∧ s.slot < n + carveCount (h.classes.size c) := by
  have hcount : ∀ m, (s.slot + 1) * h.classes.size c ≤ m * h.classes.size c ↔ s.slot < m := fun m =>
    ⟨fun hle => Nat.lt_of_mul_lt_mul_right (Nat.lt_of_lt_of_le
      (Nat.mul_lt_mul_of_pos_right (Nat.lt_succ_self _) hsize) hle),
      fun hlt => Nat.mul_le_mul_right _ hlt⟩
  unfold Carved carveRegion
  rw [regions_setRegion hc]
  by_cases hcc : s.classId = c
  · rw [if_pos hcc, hcc, hr]
    have hreach : (Region.carve r (h.regionBegin c) (h.classes.size c)
        (Region.nextReach r (h.classes.size c))).allocatedUser =
          (n + carveCount (h.classes.size c)) * h.classes.size c := by
      show r.allocatedUser + _ = _
      rw [hn, Nat.add_mul]
    simp only [Option.some.injEq, exists_eq_left', true_and]
    show (s.slot + 1) * h.classes.size c ≤ _ ↔ _
    rw [hreach, hcount, hn, hcount]
    omega
  · rw [if_neg hcc]
    exact ⟨.inl, fun hor => hor.resolve_right fun hin => hcc hin.1⟩

/-- Slots are carved once. -/
theorem freshSlots_nodup (hsize : 0 < h.classes.size c) : (h.freshSlots c r).Nodup := by
  refine List.Nodup.map ?_ List.nodup_range
  intro i j hij
  exact Nat.eq_of_mul_eq_mul_right hsize (Nat.add_left_cancel hij)

/-- They lie in the slots behind those that are carved. -/
theorem mem_freshSlots {n p : Nat} (hn : r.allocatedUser = n * h.classes.size c) :
    p ∈ h.freshSlots c r ↔ ∃ slot, n ≤ slot ∧ slot < n + carveCount (h.classes.size c)
      ∧ p = h.regionBegin c + slot * h.classes.size c := by
  unfold freshSlots
  rw [List.mem_map, hn]
  constructor
  · rintro ⟨i, hi, rfl⟩
    refine ⟨n + i, by omega, by have := List.mem_range.mp hi; omega, ?_⟩
    rw [Nat.add_mul, Nat.add_assoc]
  · rintro ⟨slot, hlo, hhi, rfl⟩
    refine ⟨slot - n, List.mem_range.mpr (by omega), ?_⟩
    rw [Nat.add_assoc, ← Nat.add_mul, Nat.add_sub_cancel' hlo]

/-- There was no block where a fresh one is. -/
theorem WF.freshSlots_off (hwf : h.WF) (hr : h.regions[c]? = some r)
    (huser : (Region.nextReach r (h.classes.size c)).user ≤ r.mappedUser) {p : Nat}
    (hp : p ∈ h.freshSlots c r) {b : Block} (hb : b ∈ h.blocks) : b.begin ≠ p := by
  rintro rfl
  have hregion := hwf.region c r hr
  obtain ⟨n, hn, -, -⟩ := hregion.user
  obtain ⟨slot, hlo, hhi, hbegin⟩ := (mem_freshSlots hn).mp hp
  have hmul := Nat.mul_le_mul_right (h.classes.size c) hlo
  have hmul' := Nat.mul_le_mul_right (h.classes.size c) (Nat.succ_le_of_lt hhi)
  have hreach : (Region.nextReach r (h.classes.size c)).user =
      (n + carveCount (h.classes.size c)) * h.classes.size c := by
    show r.allocatedUser + _ = _
    rw [hn, Nat.add_mul]
  have hmapped := hregion.mappedUser_le
  rw [Nat.succ_mul] at hmul'
  have hsize := hwf.size_pos (lt_size_of_region hr)
  exact hwf.not_in_block hr (by omega) (by omega) hb (Block.begin_mem_extent (hwf.tiled.solid b hb))

section Carving

variable (hwf : h.WF) (hr : h.regions[c]? = some r)
  (huser : (Region.nextReach r (h.classes.size c)).user ≤ r.mappedUser)
  (hrecords : (Region.nextReach r (h.classes.size c)).records ≤ r.mappedMeta)
  (hroom : Word.roundUp (Region.nextReach r (h.classes.size c)).user Pages.pageSize
    + Word.roundUp (Region.nextReach r (h.classes.size c)).records Pages.pageSize ≤ h.regionSize)

include hwf hr huser hrecords hroom

/-- A heap with more slots is well-formed. -/
theorem WF.carveRegion : (h.carveRegion c r).WF :=
  hwf.setRegion (lt_size_of_region hr) (carve_wf (hwf.region c r hr) _ huser hrecords hroom)
    (fun a hlo hhi => hwf.backed a (.inl ⟨c, r, hr, hlo, hhi⟩))
    (fun a hlo hhi => hwf.records c r hr a hlo hhi)

/-- A fresh block has never been handed out. -/
theorem WF.slotBlock_fresh {n : Nat} (hn : r.allocatedUser = n * h.classes.size c)
    (hblank : ∀ slot, n ≤ slot → slot < RangeMap.span → r.records.get slot = {}) (slot : Nat) (hlo : n ≤ slot)
    (hhi : slot < n + carveCount (h.classes.size c)) :
    h.slotBlock ⟨c, slot⟩ =
      Block.blank (h.regionBegin c + slot * h.classes.size c) (h.classes.size c) (.small c) := by
  have hc := lt_size_of_region hr
  have hcarved : (h.carveRegion c r).Carved ⟨c, slot⟩ :=
    (carved_carveRegion hc hr (hwf.size_pos hc) hn ⟨c, slot⟩).mpr (.inr ⟨rfl, hlo, hhi⟩)
  have hrecord : h.slotRecord ⟨c, slot⟩ = {} := by
    unfold slotRecord
    rw [hr]
    exact hblank slot hlo ((hwf.carveRegion hr huser hrecords hroom).slot_lt hcarved)
  unfold slotBlock
  rw [hrecord]
  rfl

/-- The blocks are those from before and the carved ones. -/
theorem WF.blocks_carveRegion : (h.carveRegion c r).blocks =
    h.blocks ∪ {b | ∃ p ∈ h.freshSlots c r, b = Block.blank p (h.classes.size c) (.small c)} := by
  have hc := lt_size_of_region hr
  have hsize := hwf.size_pos hc
  obtain ⟨n, hn, -, hblank⟩ := (hwf.region c r hr).user
  have hfresh := hwf.slotBlock_fresh hr huser hrecords hroom hn hblank
  ext b
  constructor
  · rintro (⟨s, hs, rfl⟩ | hlarge)
    · rw [slotBlock_carveRegion hr]
      rcases (carved_carveRegion hc hr hsize hn s).mp hs with hs | ⟨hclass, hlo, hhi⟩
      · exact .inl (.inl ⟨s, hs, rfl⟩)
      · refine .inr ⟨_, (mem_freshSlots hn).mpr ⟨s.slot, hlo, hhi, rfl⟩, ?_⟩
        rw [← hfresh s.slot hlo hhi, ← hclass]
    · exact .inl (.inr hlarge)
  · rintro ((⟨s, hs, rfl⟩ | hlarge) | ⟨p, hp, rfl⟩)
    · refine .inl ⟨s, (carved_carveRegion hc hr hsize hn s).mpr (.inl hs), ?_⟩
      rw [slotBlock_carveRegion hr]
    · exact .inr hlarge
    · obtain ⟨slot, hlo, hhi, rfl⟩ := (mem_freshSlots hn).mp hp
      refine .inl ⟨⟨c, slot⟩, (carved_carveRegion hc hr hsize hn _).mpr (.inr ⟨rfl, hlo, hhi⟩), ?_⟩
      rw [slotBlock_carveRegion hr, hfresh slot hlo hhi]

/-- Carving adds fresh blocks, which come first in the free list. -/
theorem WF.becomes_carveRegion :
    Becomes h (h.carveRegion c r)
      ((h.outline.grow (.small c) (h.classes.size c) (h.freshSlots c r)).setFree c
        (h.freshSlots c r ++ h.free c)) := by
  refine ⟨hwf.carveRegion hr huser hrecords hroom, rfl, ?_, id⟩
  have hc := lt_size_of_region hr
  have hblocks := hwf.blocks_carveRegion hr huser hrecords hroom
  have hcommitted : (h.carveRegion c r).committed = h.committed := committed_setRegion hr rfl
  have hfree : (h.carveRegion c r).free = Function.update h.free c (h.freshSlots c r ++ h.free c) := by
    have hlist : (Region.carve r (h.regionBegin c) (h.classes.size c)
        (Region.nextReach r (h.classes.size c))).freeList = h.freshSlots c r ++ h.free c := by
      unfold free freshSlots
      rw [hr]
      rfl
    unfold Heap.carveRegion
    rw [free_setRegion hc, hlist]
  unfold outline opened
  rw [hblocks, hcommitted, hfree]
  rfl

end Carving

/-! ## Stock -/

/-- A class has got fresh blocks, at the front of its free list. -/
structure Stocks (h t : Heap) (c : Nat) (fresh : List Nat) : Prop where
  becomes : Becomes h t ((h.outline.grow (.small c) (h.classes.size c) fresh).setFree c
    (fresh ++ h.free c))
  nodup : fresh.Nodup
  off : ∀ p ∈ fresh, ∀ b ∈ h.blocks, b.begin ≠ p

/-- Carving slots stocks the class with them. -/
theorem WF.stocks_carveRegion (hwf : h.WF) (hr : h.regions[c]? = some r)
    (huser : (Region.nextReach r (h.classes.size c)).user ≤ r.mappedUser)
    (hrecords : (Region.nextReach r (h.classes.size c)).records ≤ r.mappedMeta)
    (hroom : Word.roundUp (Region.nextReach r (h.classes.size c)).user Pages.pageSize
      + Word.roundUp (Region.nextReach r (h.classes.size c)).records Pages.pageSize ≤ h.regionSize) :
    Stocks h (h.carveRegion c r) c (h.freshSlots c r) :=
  ⟨hwf.becomes_carveRegion hr huser hrecords hroom, freshSlots_nodup (hwf.size_pos (lt_size_of_region hr)),
    fun _ hp _ hb => hwf.freshSlots_off hr huser hp hb⟩

/-- A heap that stays is stocked with nothing. -/
theorem stocks_nil (hwf : h.WF) (c : Nat) : Stocks h h c [] := by
  have hsame : (h.outline.grow (.small c) (h.classes.size c) []).setFree c ([] ++ h.free c) =
      h.outline := by
    have hblocks : h.blocks ∪ {b | ∃ p ∈ ([] : List Nat),
        b = Block.blank p (h.classes.size c) (.small c)} = h.blocks := by
      ext b
      simp
    have hfree : Function.update h.free c ([] ++ h.free c) = h.free :=
      Function.update_eq_self c h.free
    unfold Outline.setFree Outline.grow outline
    rw [hblocks, hfree]
  exact ⟨⟨hwf, rfl, hsame.symm, id⟩, List.nodup_nil, fun p hp => nomatch hp⟩

/-- A heap that looks the same has the same stock. -/
theorem Stocks.of_same {t u : Heap} {fresh : List Nat} (h' : Becomes h t h.outline)
    (hstocks : Stocks t u c fresh) : Stocks h u c fresh := by
  obtain ⟨hbecomes, hnodup, hoff⟩ := hstocks
  have hfree : t.free c = h.free c := congrFun h'.free c
  rw [h'.outline, h'.classes, hfree] at hbecomes
  refine ⟨⟨hbecomes.wf, hbecomes.classes.trans h'.classes, hbecomes.outline,
    fun hcalm => hbecomes.calm (h'.calm hcalm)⟩, hnodup, fun p hp b hb => hoff p hp b ?_⟩
  rw [h'.blocks]
  exact hb

/-- There is a region for each class, with the free list of the class. -/
theorem WF.region_of_free (hwf : h.WF) (hc : c < h.classes.count) :
    ∃ r, h.regions[c]? = some r ∧ r.freeList = h.free c := by
  rw [← hwf.layout.regions] at hc
  refine ⟨h.regions[c], Array.getElem?_eq_getElem hc, ?_⟩
  unfold free
  rw [Array.getElem?_eq_getElem hc]
  rfl

/-- A class that is populated is stocked with at least one slot, or the call declines. -/
theorem ends_populate (hwf : h.WF) (hc : c < h.classes.count) :
    Act.Ends (populate c) h (fun _ t => ∃ fresh, fresh ≠ [] ∧ Stocks h t c fresh)
      (Declines (populate c) h) := by
  obtain ⟨r, hr, -⟩ := hwf.region_of_free hc
  unfold populate
  simp only [Act.ends_bind, Act.ends_get]
  refine ends_region hr ?_
  by_cases hroom : Word.roundUp (Region.nextReach r (h.classes.size c)).user Pages.pageSize
      + Word.roundUp (Region.nextReach r (h.classes.size c)).records Pages.pageSize > h.regionSize
  · rw [if_pos hroom, Act.ends_bind]
    -- Whether there is room is decided before any page is asked for, so the pages do not matter.
    refine ⟨.refl h, .inr ⟨.inr trivial, fun q => ?_⟩⟩
    simp only [Act.ends_bind, Act.ends_get]
    refine ends_region (h := h.on q) hr ?_
    rw [if_pos hroom, Act.ends_bind]
    exact ⟨rfl, rfl⟩
  · rw [if_neg hroom]
    have huser := Word.le_roundUp (n := (Region.nextReach r (h.classes.size c)).user)
      (m := Pages.pageSize)
    have hrecords := Word.le_roundUp (n := (Region.nextReach r (h.classes.size c)).records)
      (m := Pages.pageSize)
    by_cases hneeds : Region.needsPages r (Region.nextReach r (h.classes.size c)) = true
    · rw [if_pos hneeds, Act.ends_bind]
      refine (ends_commitRegion hwf hr (by omega) (by omega)).imp ?_ fun _ _ hno =>
        ⟨hno.1, .inl hno.2⟩
      rintro - t ⟨hsame, hsize, hspace, user, records, hr', hureach, hmreach⟩
      rw [Act.ends_bind]
      refine ends_region hr' ?_
      have hbegin : t.regionBegin c = h.regionBegin c := by
        unfold regionBegin
        rw [hsize, hspace]
      have hstocks := hsame.wf.stocks_carveRegion hr'
        (by rw [hsame.classes]; exact hureach) (by rw [hsame.classes]; exact hmreach)
        (by rw [hsame.classes, hsize]; exact Nat.le_of_not_lt hroom)
      rw [← hbegin, ← hsame.classes]
      exact Act.ends_modify.mpr ⟨_, freshSlots_ne_nil t c _, .of_same hsame hstocks⟩
    · rw [if_neg hneeds, Act.ends_bind]
      refine ends_region hr ?_
      simp only [Region.needsPages, Bool.or_eq_true, decide_eq_true_eq, not_or] at hneeds
      exact Act.ends_modify.mpr ⟨_, freshSlots_ne_nil h c r,
        hwf.stocks_carveRegion hr (by omega) (by omega) (by omega)⟩

/-- A stocked region has free blocks, old or fresh ones. -/
theorem ends_stockedRegion (hwf : h.WF) (hc : c < h.classes.count) :
    Act.Ends (stockedRegion c) h
      (fun r t => t.regions[c]? = some r ∧ r.freeList = t.free c ∧ r.freeList ≠ []
        ∧ ∃ fresh, Stocks h t c fresh)
      (Declines (stockedRegion c) h) := by
  obtain ⟨r, hr, hlist⟩ := hwf.region_of_free hc
  unfold stockedRegion
  rw [Act.ends_bind]
  refine ends_region hr ?_
  by_cases hempty : r.freeList.isEmpty = true
  · rw [if_pos hempty, Act.ends_bind]
    refine (ends_populate hwf hc).imp ?_ fun _ _ hdeclines => hdeclines.imp fun q hrefused => by
      rw [Act.ends_bind]
      refine ends_region (h := h.on q) hr ?_
      rw [if_pos hempty]
      exact hrefused.bind_refused
    rintro - t ⟨fresh, hfresh, hstocks⟩
    have hwf' := hstocks.becomes.wf
    obtain ⟨r', hr', hlist'⟩ := hwf'.region_of_free (hstocks.becomes.classes ▸ hc)
    have hall : t.free c = fresh ++ h.free c := by
      rw [hstocks.becomes.free]
      exact Function.update_self c _ h.free
    refine ends_region hr' ⟨hr', hlist', ?_, fresh, hstocks⟩
    rw [hlist', hall]
    exact List.append_ne_nil_of_left_ne_nil hfresh _
  · rw [if_neg hempty]
    exact Act.ends_pure.mpr ⟨hr, hlist, fun hnil => hempty (List.isEmpty_iff.mpr hnil), [],
      stocks_nil hwf c⟩

/-- Taking a batch leaves the rest of the free list. -/
theorem ends_takeBatch (hwf : h.WF) (hc : c < h.classes.count) :
    Act.Ends (takeBatch c) h
      (fun batch t => batch ≠ [] ∧ ∃ fresh rest, batch ++ rest = fresh ++ h.free c ∧ fresh.Nodup
        ∧ (∀ p ∈ fresh, ∀ b ∈ h.blocks, b.begin ≠ p)
        ∧ Becomes h t ((h.outline.grow (.small c) (h.classes.size c) fresh).setFree c rest))
      (Declines (takeBatch c) h) := by
  unfold takeBatch
  rw [Act.ends_bind]
  refine (ends_stockedRegion hwf hc).imp ?_ fun _ _ hdeclines =>
    hdeclines.imp fun q hrefused => hrefused.bind_refused
  rintro r t ⟨hr, hlist, hstocked, fresh, hstocks⟩
  simp only [Act.ends_bind, Act.ends_get]
  refine Act.ends_modify.mpr (Act.ends_pure.mpr ?_)
  have hcount := hstocks.becomes.wf.layout.classes.maxCached_pos (hstocks.becomes.classes ▸ hc)
  refine ⟨?_, fresh, r.freeList.drop (t.classes.maxCached c), ?_, hstocks.nodup, hstocks.off, ?_⟩
  · rw [ne_eq, List.take_eq_nil_iff]
    rintro (hzero | hnil)
    · exact Nat.ne_of_gt hcount hzero
    · exact hstocked hnil
  · rw [List.take_append_drop, hlist, hstocks.becomes.free]
    exact Function.update_self c _ h.free
  · have hstep := hstocks.becomes.wf.setFreeList hr (r.freeList.drop (t.classes.maxCached c))
    have hjoined := hstocks.becomes.trans (f := fun o => o.setFree c _) hstep
    refine ⟨hjoined.wf, hjoined.classes, ?_, hjoined.calm⟩
    rw [hjoined.outline]
    simp only [Outline.setFree, Function.update_idem]

/-- Blocks that come back are free again. -/
theorem ends_returnBatch (hwf : h.WF) (hc : c < h.classes.count) (blocks : List Nat)
    {no : AllocError → Heap → Prop} :
    Act.Ends (returnBatch c blocks) h
      (fun _ t => Becomes h t (h.outline.setFree c (blocks ++ h.free c))) no := by
  obtain ⟨r, hr, hlist⟩ := hwf.region_of_free hc
  unfold returnBatch
  rw [Act.ends_bind]
  refine ends_region hr (Act.ends_modify.mpr ?_)
  rw [hlist]
  exact hwf.setFreeList hr _

end Heap

end GuardedHeap
