import GuardedHeap.Proofs.Sanitizer.Beginning

/-! # Outstanding blocks — what a heap without a sanitizer has handed out

    A heap and one cache know which blocks are free; all others are
    outstanding.  Allocating and freeing move one block across this line
    (`Shifts`).  Moving a block to another size does both, one after the
    other, and checks last whether there is anything to free: of an address
    inside of a small block it finds out when the new block is already
    taken (`Lends.ends_reallocate_inside`). -/

namespace GuardedHeap.Heap

/-! ## Addresses -/

section Addresses

variable {h : Heap} {b : Block} {p n : Nat}

/-- A size is found at the addresses of small blocks, and where a large one begins. -/
theorem WF.of_actualSize? (hwf : h.WF) (hfind : h.actualSize? p = some n) :
    ∃ b ∈ h.blocks, p ∈ b.extent ∧ n = b.size ∧ (b.kind = .large → p = b.begin) := by
  unfold actualSize? at hfind
  by_cases hprimary : h.isPrimary p = true
  · rw [if_pos hprimary] at hfind
    obtain ⟨slot, hslot, rfl⟩ := Option.map_eq_some_iff.mp hfind
    obtain ⟨hcarved, hin, -⟩ := hwf.of_locate? hslot
    exact ⟨h.slotBlock slot, .inl ⟨slot, hcarved, rfl⟩, hin, rfl, nofun⟩
  · rw [if_neg hprimary] at hfind
    unfold Large.actualSize? at hfind
    cases hlarge : h.large.find? p with
    | none =>
        rw [hlarge] at hfind
        exact nomatch hfind
    | some l =>
        rw [hlarge] at hfind
        dsimp only at hfind
        by_cases huser : l.user = p
        · rw [if_pos huser] at hfind
          have hl := (Large.WF.of_find? hlarge).1
          refine ⟨l.body.block, .inr ⟨_, hl, rfl⟩, ?_, (Option.some.inj hfind).symm, fun _ => huser.symm⟩
          exact huser ▸ ⟨Nat.le_refl _, (hwf.large.placed _ hl).lt_past⟩
        · rw [if_neg huser] at hfind
          exact nomatch hfind

/-- Every address of a small block finds its size. -/
theorem WF.actualSize?_eq (hwf : h.WF) (hb : b ∈ h.blocks) (hkind : b.kind ≠ .large)
    (hp : p ∈ b.extent) : h.actualSize? p = some b.size := by
  rcases hb with ⟨slot, hslot, rfl⟩ | ⟨l, -, rfl⟩
  · obtain ⟨hprimary, -, hlocate⟩ := hwf.locate?_eq hslot hp
    unfold actualSize?
    rw [if_pos hprimary, hlocate]
    rfl
  · exact absurd rfl hkind

/-- As many bytes as a block has can be read from any address in it. -/
theorem WF.add_size_le (hwf : h.WF) (hb : b ∈ h.blocks) (hp : p ∈ b.extent) (hn : n ≤ b.size) :
    p + n ≤ Word.limit := by
  have hlast := (hwf.past_le hb).2
  have hend := hwf.layout.shadow_placed.end_lt
  rw [hwf.layout.shadow_end] at hend
  have hlt : p < b.past := hp.2
  have hpast : b.past = b.begin + b.size := rfl
  simp only [Word.limit, Word.signLimit] at *
  omega

end Addresses

namespace Session

variable {s t u : Session} {holders holders' : Holders} {b c : Block} {k : BlockClass}
  {p size alignment : Nat}

/-- The blocks that were handed out and did not come back. -/
def outstanding (s : Session) : Set Block :=
  {b | b ∈ s.heap.blocks ∧ b.begin ∉ s.idle b.kind}

/-- The address lies in a free block. -/
def Vacant (s : Session) (p : Nat) : Prop :=
  ∃ b ∈ s.heap.blocks, b.begin ∈ s.idle b.kind ∧ p ∈ b.extent

/-- Some blocks have been handed out and others have come back, and no byte of the ones that stayed
    outstanding has changed. -/
structure Shifts (s : Session) (gained lost : Set Block) (t : Session) : Prop where
  outstanding : t.outstanding = (s.outstanding \ lost) ∪ gained
  fresh : Disjoint gained s.outstanding
  held : lost ⊆ s.outstanding
  bytes : ∀ b ∈ s.outstanding, b ∉ lost → ∀ a ∈ b.extent, t.heap.contents a = s.heap.contents a

namespace Shifts

theorem of_same (hout : t.outstanding = s.outstanding)
    (hbytes : ∀ b ∈ s.outstanding, ∀ a ∈ b.extent, t.heap.contents a = s.heap.contents a) :
    Shifts s ∅ ∅ t where
  outstanding := by rw [hout, Set.sdiff_empty, Set.union_empty]
  fresh := Set.empty_disjoint _
  held := Set.empty_subset _
  bytes b hb _ := hbytes b hb

/-- A block that is handed out may be written to. -/
theorem overwritten (h : Shifts s {b} ∅ t) (ht : t.WF) (hout : u.outstanding = t.outstanding)
    (hbytes : ∀ a, a ∉ b.extent → u.heap.contents a = t.heap.contents a) : Shifts s {b} ∅ u where
  outstanding := hout.trans h.outstanding
  fresh := h.fresh
  held := h.held
  bytes c hc hlost a ha := by
    have hmem : ∀ d, d ∈ t.outstanding ↔ d ∈ s.outstanding ∨ d = b := fun d => by
      rw [h.outstanding, Set.sdiff_empty, Set.mem_union, Set.mem_singleton_iff]
    have hne : c ≠ b := fun heq => Set.disjoint_singleton_left.mp h.fresh (heq ▸ hc)
    have hapart := ht.heap.tiled.apart c ((hmem c).mpr (.inl hc)).1 b ((hmem b).mpr (.inr rfl)).1 hne
    rw [hbytes a (Set.disjoint_left.mp hapart ha)]
    exact h.bytes c hc hlost a ha

/-- A block is handed out, and another one comes back. -/
theorem gives_back (h : Shifts s {b} ∅ t) (hc : c ∈ s.outstanding) (h' : Shifts t ∅ {c} u) :
    Shifts s {b} {c} u where
  outstanding := by
    have hne : b ≠ c := fun heq => Set.disjoint_singleton_left.mp h.fresh (heq ▸ hc)
    rw [h'.outstanding, h.outstanding, Set.union_empty, Set.sdiff_empty, Set.union_sdiff_distrib,
      Set.sdiff_singleton_eq_self (Set.mem_singleton_iff.not.mpr hne.symm)]
  fresh := h.fresh
  held := Set.singleton_subset_iff.mpr hc
  bytes d hd hlost a ha := by
    have hdt : d ∈ t.outstanding := by
      rw [h.outstanding, Set.sdiff_empty]
      exact .inl hd
    rw [h'.bytes d hdt hlost a ha]
    exact h.bytes d hd (Set.notMem_empty d) a ha

end Shifts

/-! ## Who has a block -/

/-- What is on no list of the session is in the hands of `holders`, and no block has a record. -/
structure Lent (s : Session) (holders : Holders) : Prop where
  wf : s.WF
  sound : (s.scene holders).Sound False True
  unrecorded : (s.scene holders).chunks = ∅
  unbacked : holders.backing = 0

namespace Lent

theorem apart (h : s.Lent holders) (k : BlockClass) :
    (holders.idle k).Nodup ∧ Disjoint (s.idle k) (holders.idle k) := by
  have hnodup : (s.idle k + holders.idle k).Nodup := h.sound.idle_nodup k
  exact (Multiset.nodup_add.mp hnodup).2

theorem mem_outstanding (h : s.Lent holders) :
    b ∈ s.outstanding ↔ b ∈ s.heap.blocks ∧ b.begin ∈ holders.idle b.kind := by
  refine and_congr_right fun hb => ⟨fun hout => ?_, fun hheld hidle => ?_⟩
  · have hstate : b.record.state = .recycled := by
      by_contra hne
      have hchunk : b ∈ (s.scene holders).chunks := ⟨hb, hne⟩
      rw [h.unrecorded] at hchunk
      exact hchunk
    rcases h.sound.recycled_held not_false b hb hstate with hidle | hback
    · exact (Multiset.mem_add.mp hidle).resolve_left hout
    · change b ∈ holders.backing at hback
      rw [h.unbacked] at hback
      exact absurd hback (Multiset.notMem_zero b)
  · exact Multiset.disjoint_left.mp (h.apart b.kind).2 hidle hheld

theorem block_of_held (h : s.Lent holders) (hp : p ∈ holders.idle k) :
    ∃ b ∈ s.heap.blocks, b.begin = p ∧ b.kind = k := by
  obtain ⟨b, hb, hbegin, hkind, -⟩ := h.sound.idle_block k p (Multiset.mem_add.mpr (.inr hp))
  exact ⟨b, hb, hbegin, hkind⟩

theorem goes (h : s.Lent holders) (hgoes : Goes False True s holders [] t holders')
    (hbacking : holders'.backing = holders.backing) : t.Lent holders' where
  wf := hgoes.wf
  sound := h.sound.moves hgoes.moves
  unrecorded := (h.sound.chunks_moves hgoes.moves).trans h.unrecorded
  unbacked := hbacking.trans h.unbacked

/-- On other pages everything is as before. -/
theorem repaged (h : s.Lent holders) (hpages : Repaged s t) : t.Lent holders ∧ Shifts s ∅ ∅ t := by
  have hbecomes := hpages.heap.becomes h.wf.heap
  refine ⟨h.goes (hpages.goes h.wf) rfl, .of_same ?_ fun _ _ a _ => congrFun hbecomes.contents a⟩
  unfold outstanding
  rw [idle_eq hbecomes.free hpages.cache, hbecomes.blocks]
  rfl

/-- What the holders get is one more outstanding block. -/
theorem gains (h : s.Lent holders) (hgoes : Goes False True s holders [] t (holders.hold k p))
    (hgrows : s.heap.Grows t.heap) :
    t.Lent (holders.hold k p) ∧ ∃ b, b.begin = p ∧ b.kind = k ∧ Shifts s {b} ∅ t := by
  have ht := h.goes hgoes rfl
  obtain ⟨b, hb, hbegin, hkind⟩ := ht.block_of_held (Holders.mem_hold.mpr (.inl ⟨rfl, rfl⟩))
  refine ⟨ht, b, hbegin, hkind, ?_, ?_, Set.empty_subset _, fun _ _ _ a _ => congrFun hgrows.contents a⟩
  · refine Set.ext fun c => ?_
    rw [ht.mem_outstanding, Set.sdiff_empty, Set.mem_union, Set.mem_singleton_iff, h.mem_outstanding,
      Holders.mem_hold]
    constructor
    · rintro ⟨hc, ⟨-, hcp⟩ | hheld⟩
      · exact .inr (ht.wf.heap.tiled.eq_of_begin hc hb (hcp.trans hbegin.symm))
      · obtain ⟨d, hd, hdbegin, -⟩ := h.block_of_held hheld
        obtain rfl := ht.wf.heap.tiled.eq_of_begin (hgrows.blocks hd) hc hdbegin
        exact .inl ⟨hd, hheld⟩
    · rintro (⟨hc, hheld⟩ | rfl)
      · exact ⟨hgrows.blocks hc, .inr hheld⟩
      · exact ⟨hb, .inl ⟨hkind, hbegin⟩⟩
  · refine Set.disjoint_singleton_left.mpr fun hin => ?_
    have hnodup := (ht.apart k).1
    rw [Holders.hold_self, Multiset.nodup_cons] at hnodup
    obtain ⟨-, hheld⟩ := h.mem_outstanding.mp hin
    rw [hbegin, hkind] at hheld
    exact hnodup.1 hheld

/-- What the holders give is one outstanding block less. -/
theorem loses (h : s.Lent (holders.hold b.kind b.begin)) (hb : b ∈ s.outstanding)
    (hgoes : Goes False True s (holders.hold b.kind b.begin) [] t holders)
    (hregains : s.heap.Regains b t.heap) : t.Lent holders ∧ Shifts s ∅ {b} t := by
  have ht := h.goes hgoes rfl
  have hnodup := (h.apart b.kind).1
  rw [Holders.hold_self, Multiset.nodup_cons] at hnodup
  refine ⟨ht, ?_, Set.empty_disjoint _, Set.singleton_subset_iff.mpr hb,
    fun c hc hne a ha => hregains.contents c hc.1 hne a ha⟩
  refine Set.ext fun c => ?_
  rw [ht.mem_outstanding, hregains.blocks, Set.union_empty, Set.mem_sdiff, Set.mem_singleton_iff,
    h.mem_outstanding, Holders.mem_hold]
  constructor
  · rintro ⟨⟨hc, -⟩, hheld⟩
    refine ⟨⟨hc, .inr hheld⟩, fun heq => hnodup.1 ?_⟩
    exact heq ▸ hheld
  · rintro ⟨⟨hc, ⟨-, hbegin⟩ | hheld⟩, hne⟩
    · exact absurd (h.wf.heap.tiled.eq_of_begin hc hb.1 hbegin) hne
    · exact ⟨⟨hc, fun _ => hne⟩, hheld⟩

/-- One of the blocks that the holders have can be told from the rest. -/
theorem hold_of_mem (h : s.Lent holders) (hb : b ∈ s.outstanding) :
    ∃ rest : Holders, s.Lent (rest.hold b.kind b.begin) := by
  refine ⟨{ holders with
    idle := Function.update holders.idle b.kind ((holders.idle b.kind).erase b.begin) }, ?_⟩
  have hsame : Holders.hold { holders with
      idle := Function.update holders.idle b.kind ((holders.idle b.kind).erase b.begin) }
        b.kind b.begin = holders := by
    unfold Holders.hold
    dsimp only
    rw [Function.update_self, Function.update_idem, Multiset.cons_erase (h.mem_outstanding.mp hb).2,
      Function.update_eq_self]
  rw [hsame]
  exact h

/-- Bytes are written to a block. -/
theorem overwrites (h : s.Lent holders) {heap : Heap} {lo n : Nat} {content : Nat → UInt8}
    (hbecomes : Becomes s.heap heap (s.heap.outline.write lo n content)) :
    Lent { s with heap } holders ∧ outstanding { s with heap } = s.outstanding
      ∧ ∀ a, ¬ (lo ≤ a ∧ a < lo + n) → heap.contents a = s.heap.contents a := by
  have hidle : Session.idle { s with heap } = s.idle := idle_eq hbecomes.free rfl
  have hscene : scene { s with heap } holders =
      { s.scene holders with bytes := overlay lo n content s.heap.contents } := by
    unfold scene
    rw [hidle, hbecomes.blocks, hbecomes.opened, hbecomes.contents]
    rfl
  refine ⟨⟨⟨hbecomes.wf, ?_⟩, ?_, ?_, h.unbacked⟩, ?_, fun a hout => ?_⟩
  · exact h.wf.cache.trans (congrArg SizeClasses.count hbecomes.classes).symm
  · rw [hscene]
    exact { h.sound with }
  · rw [hscene]
    exact h.unrecorded
  · unfold outstanding
    rw [hidle, hbecomes.blocks]
    rfl
  · rw [hbecomes.contents]
    exact if_neg hout

theorem scheduled (h : s.Lent holders) (failures : List ArmedFailure) :
    Lent { s with heap := s.heap.mapPages (·.schedule failures) } holders where
  wf :=
    ⟨{ layout := { h.wf.heap.layout with }
       region := h.wf.heap.region
       large := h.wf.heap.large
       backed := h.wf.heap.backed
       records := h.wf.heap.records }, h.wf.cache⟩
  sound := { h.sound with }
  unrecorded := h.unrecorded
  unbacked := h.unbacked

end Lent

/-- The blocks on no list of the session are in somebody's hands, and no block has a record. -/
def Lends (s : Session) : Prop :=
  ∃ holders, s.Lent holders

/-! ## Calls -/

namespace Lends

/-- A block that is allocated is a fresh one. -/
theorem ends_allocate (h : s.Lends) (size alignment : Nat) :
    Act.Ends (allocate size alignment) s
      (fun p t => t.Lends ∧ (s.heap.pages.armed = none → t.heap.pages.armed = none)
        ∧ ∃ b, b.begin = p ∧ size ≤ b.size ∧ Shifts s {b} ∅ t)
      fun _ t => t.Lends ∧ Shifts s ∅ ∅ t := by
  obtain ⟨holders, h⟩ := h
  refine (Session.ends_allocate False True holders h.wf size alignment).imp ?_ fun e t hdeclines => ?_
  · rintro p t ⟨k, hgoes, hroom, hgrows⟩
    obtain ⟨ht, b, hbegin, hkind, hshifts⟩ := h.gains hgoes hgrows
    have hb : b ∈ t.outstanding := by
      rw [hshifts.outstanding]
      exact .inr rfl
    exact ⟨⟨_, ht⟩, hgoes.calm, b, hbegin, hroom b hb.1 hbegin hkind, hshifts⟩
  · obtain ⟨ht, hshifts⟩ := h.repaged hdeclines.repaged
    exact ⟨⟨holders, ht⟩, hshifts⟩

/-- An outstanding block that is freed is outstanding no more, even if its pages cannot be
    released. -/
theorem ends_free (h : s.Lends) (hb : b ∈ s.outstanding) :
    Act.Ends (free b.begin) s (fun _ t => t.Lends ∧ Shifts s ∅ {b} t)
      fun _ t => s.heap.pages.armed ≠ none ∧ b.kind = .large ∧ t.Lends ∧ Shifts s ∅ {b} t := by
  obtain ⟨holders, h⟩ := h
  obtain ⟨rest, h⟩ := h.hold_of_mem hb
  refine (Session.ends_free False True rest h.wf hb.1).imp ?_ ?_
  · rintro _ t ⟨hgoes, hregains⟩
    obtain ⟨ht, hshifts⟩ := h.loses hb hgoes hregains
    exact ⟨⟨rest, ht⟩, hshifts⟩
  · rintro _ t ⟨harmed, hkind, hgoes, hregains⟩
    obtain ⟨ht, hshifts⟩ := h.loses hb hgoes hregains
    exact ⟨harmed, hkind, ⟨rest, ht⟩, hshifts⟩

/-- An address where no block begins is unknown. -/
theorem free_unknown (h : s.Lends) (hp : p ≠ 0) (hnone : ∀ b ∈ s.heap.blocks, b.begin ≠ p) :
    free p s = .error (.refused (.unknownPointer p)) s := by
  obtain ⟨holders, h⟩ := h
  have hrefused : Act.Ends (free p) s (fun _ _ => False) fun e t => e = .unknownPointer p ∧ t = s := by
    unfold free
    rw [if_neg hp, Act.ends_bind, Act.ends_get]
    by_cases hprimary : s.heap.isPrimary p = true
    · have hother : s.heap.blockBegin? p ≠ some p := fun hfind => by
        obtain ⟨b, hb, hbegin⟩ := h.wf.heap.of_blockBegin? hfind
        exact hnone b hb hbegin
      simp only [hprimary, if_true, hother, ne_eq, not_false_eq_true]
      exact ⟨rfl, rfl⟩
    · have hother : s.heap.large.blockAt? p = none := by
        cases hat : s.heap.large.blockAt? p with
        | none => rfl
        | some l =>
            obtain ⟨hl, hbegin⟩ := Large.WF.of_blockAt? hat
            exact absurd hbegin (hnone l.body.block (.inr ⟨_, hl, rfl⟩))
      simp only [hprimary, Bool.false_eq_true, if_false]
      rw [ends_onHeap]
      unfold freeLarge
      rw [Act.ends_bind, Act.ends_get, Act.ends_bind, Act.ends_orRefuse, hother]
      exact ⟨nofun, fun _ => ⟨rfl, rfl⟩⟩
  rcases Act.ends_iff.mp hrefused with ⟨_, _, -, hfalse⟩ | ⟨e, t, hact, rfl, rfl⟩
  · exact hfalse.elim
  · exact hact

end Lends

/-- What moving a block comes down to when there is one to move. -/
theorem reallocate_eq (hp : p ≠ 0) (hsize : size ≠ 0) :
    reallocate p size alignment = (do
      let oldSize ← Act.orRefuse (.unknownPointer p) ((← get).heap.actualSize? p)
      let fresh ← allocate size alignment
      moveTo fresh p (min oldSize size)) := by
  unfold reallocate
  rw [if_neg hp, if_neg hsize]

/-- How a refused `reallocate` leaves the blocks that are outstanding. -/
inductive Refused (s : Session) (p size : Nat) (e : AllocError) (t : Session) : Prop where
  /-- They are what they were. -/
  | kept (hshifts : Shifts s ∅ ∅ t)
  /-- The address is inside of a small block, and there is one more that nobody knows. -/
  | strayed {b fresh : Block} (hb : b ∈ s.outstanding) (hkind : b.kind ≠ .large)
      (hp : p ∈ b.extent) (hne : p ≠ b.begin) (hsize : size ≠ 0) (he : e = .unknownPointer p)
      (hshifts : Shifts s {fresh} ∅ t)
  /-- The pages of a large block could not be released, after all else was done. -/
  | unreleased {b : Block} {gained : Set Block} (hb : b ∈ s.outstanding) (hkind : b.kind = .large)
      (hp : p = b.begin) (harmed : s.heap.pages.armed ≠ none)
      (hgained : if size = 0 then gained = ∅ else ∃ fresh, gained = {fresh})
      (hshifts : Shifts s gained {b} t)

namespace Lends

/-- No address of an outstanding block is in a free one. -/
theorem not_vacant_of_mem (h : s.Lends) (hb : b ∈ s.outstanding) (hp : p ∈ b.extent) :
    ¬ s.Vacant p := by
  rintro ⟨c, hc, hidle, hin⟩
  obtain ⟨holders, h⟩ := h
  obtain rfl := h.wf.heap.tiled.eq_of_mem hc hb.1 hin hp
  exact hb.2 hidle

/-- Freeing an address that is in no free block frees a block or changes nothing. -/
theorem ends_free_of_not_vacant (h : s.Lends) (hp : ¬ s.Vacant p) :
    Act.Ends (free p) s (fun _ t => t.Lends) fun e t => t.Lends ∧ Refused s p 0 e t := by
  have hwf : s.WF := h.elim fun _ h => h.wf
  by_cases hzero : p = 0
  · unfold free
    rw [if_pos hzero]
    exact h
  by_cases hbegin : ∃ b ∈ s.heap.blocks, b.begin = p
  · obtain ⟨b, hb, rfl⟩ := hbegin
    have hin := Block.begin_mem_extent (hwf.heap.tiled.solid b hb)
    have hb : b ∈ s.outstanding := ⟨hb, fun hidle => hp ⟨b, hb, hidle, hin⟩⟩
    refine (h.ends_free hb).imp (fun _ _ hok => hok.1) ?_
    rintro _ t ⟨harmed, hkind, ht, hshifts⟩
    exact ⟨ht, .unreleased hb hkind rfl harmed (if_pos rfl ▸ rfl) hshifts⟩
  · unfold Act.Ends
    rw [h.free_unknown hzero fun b hb hbp => hbegin ⟨b, hb, hbp⟩]
    exact ⟨h, .kept (.of_same rfl fun _ _ _ _ => rfl)⟩

/-- With the new block taken, an outstanding block is moved if the address is the one it begins
    at. -/
theorem ends_moveTo {fresh : Block} {n : Nat} (ht : t.Lends) (hshifts : Shifts s {fresh} ∅ t)
    (hb : b ∈ s.outstanding) (hp : p ∈ b.extent) (hn : n ≤ b.size) (hroom : n ≤ fresh.size) :
    Act.Ends (moveTo fresh.begin p n) t
      (fun _ u => p = b.begin ∧ u.Lends ∧ Shifts s {fresh} {b} u)
      fun e u => u.Lends ∧ ((p ≠ b.begin ∧ e = .unknownPointer p ∧ Shifts s {fresh} ∅ u)
        ∨ p = b.begin ∧ t.heap.pages.armed ≠ none ∧ b.kind = .large ∧ Shifts s {fresh} {b} u) := by
  obtain ⟨holders, ht⟩ := ht
  have hout : ∀ c, c ∈ t.outstanding ↔ c ∈ s.outstanding ∨ c = fresh := fun c => by
    rw [hshifts.outstanding, Set.sdiff_empty, Set.mem_union, Set.mem_singleton_iff]
  have hbt : b ∈ t.outstanding := (hout b).mpr (.inl hb)
  have hfresh : fresh ∈ t.outstanding := (hout fresh).mpr (.inr rfl)
  have htarget := ht.wf.heap.add_size_le hfresh.1
    (Block.begin_mem_extent (ht.wf.heap.tiled.solid fresh hfresh.1)) hroom
  have hbecomes := ht.wf.heap.withCopy p fresh.begin (ht.wf.heap.add_size_le hbt.1 hp hn) htarget
  obtain ⟨hcopied, houtstanding, hbytes⟩ := ht.overwrites hbecomes
  unfold moveTo
  rw [Act.ends_bind, Act.ends_modify]
  change Act.Ends _ { t with heap := t.heap.mapPages (·.copy p fresh.begin n) } _ _
  generalize hu : ({ t with heap := t.heap.mapPages (·.copy p fresh.begin n) } : Session) = u at *
  have hshifts' : Shifts s {fresh} ∅ u := by
    refine hshifts.overwritten ht.wf houtstanding fun a ha => ?_
    rw [← hu]
    exact hbytes a fun hin => ha ⟨hin.1, Nat.lt_of_lt_of_le hin.2 (Nat.add_le_add_left hroom _)⟩
  have hbu : b ∈ u.outstanding := houtstanding ▸ hbt
  have hu' : u.Lends := ⟨holders, hcopied⟩
  rw [Act.ends_bind]
  -- The bytes were copied; what remains is to free the old block, if the pointer is its beginning.
  by_cases hbegin : p = b.begin
  · subst hbegin
    refine (hu'.ends_free hbu).imp ?_ ?_
    · rintro _ v ⟨hv, hfreed⟩
      exact ⟨rfl, hv, hshifts'.gives_back hb hfreed⟩
    · rintro _ v ⟨harmed, hkind, hv, hfreed⟩
      refine ⟨hv, .inr ⟨rfl, ?_, hkind, hshifts'.gives_back hb hfreed⟩⟩
      rw [← hu] at harmed
      exact harmed
  · have hpos : p ≠ 0 := by
      have hfirst := (ht.wf.heap.past_le hbt.1).1
      have hspace := ht.wf.heap.layout.begin_pos
      have hle : b.begin ≤ p := hp.1
      omega
    have hunknown : free p u = .error (.refused (.unknownPointer p)) u := by
      refine hu'.free_unknown hpos fun c hc hcbegin => hbegin ?_
      have hin := Block.begin_mem_extent (hcopied.wf.heap.tiled.solid c hc)
      rw [hcbegin] at hin
      rw [← hcopied.wf.heap.tiled.eq_of_mem hc hbu.1 hin hp]
      exact hcbegin.symm
    unfold Act.Ends
    rw [hunknown]
    exact ⟨hu', .inl ⟨hbegin, rfl, hshifts'⟩⟩

/-- Whatever comes of moving a block, all others are still accounted for. -/
theorem ends_reallocate (h : s.Lends) (hp : ¬ s.Vacant p) (size alignment : Nat) :
    Act.Ends (reallocate p size alignment) s (fun _ t => t.Lends)
      fun e t => t.Lends ∧ Refused s p size e t := by
  have hwf : s.WF := h.elim fun _ h => h.wf
  have hout : ∀ b ∈ s.heap.blocks, p ∈ b.extent → b ∈ s.outstanding :=
    fun b hb hin => ⟨hb, fun hidle => hp ⟨b, hb, hidle, hin⟩⟩
  by_cases hzero : p = 0
  · unfold reallocate
    rw [if_pos hzero]
    exact (h.ends_allocate size alignment).imp (fun _ _ hok => hok.1)
      fun _ _ ⟨ht, hshifts⟩ => ⟨ht, .kept hshifts⟩
  by_cases hsize : size = 0
  · unfold reallocate
    rw [if_neg hzero, if_pos hsize, Act.ends_bind, hsize]
    exact h.ends_free_of_not_vacant hp
  rw [reallocate_eq hzero hsize, Act.ends_bind, Act.ends_get, Act.ends_bind, Act.ends_orRefuse]
  refine ⟨fun n hn => ?_, fun _ => ⟨h, .kept (.of_same rfl fun _ _ _ _ => rfl)⟩⟩
  obtain ⟨b, hb, hin, rfl, hlarge⟩ := hwf.heap.of_actualSize? hn
  have hb := hout b hb hin
  rw [Act.ends_bind]
  refine (h.ends_allocate size alignment).imp ?_ fun _ _ ⟨ht, hshifts⟩ => ⟨ht, .kept hshifts⟩
  rintro _ t ⟨ht, hcalm, fresh, rfl, hroom, hshifts⟩
  refine (ht.ends_moveTo hshifts hb hin (Nat.min_le_left _ _)
    (Nat.le_trans (Nat.min_le_right _ _) hroom)).imp (fun _ _ hok => hok.2.1) ?_
  rintro e u ⟨hu, ⟨hne, rfl, hstray⟩ | ⟨hbegin, harmed, hkind, hmoved⟩⟩
  · exact ⟨hu, .strayed hb (fun hkind => hne (hlarge hkind)) hin hne hsize rfl hstray⟩
  · refine ⟨hu, .unreleased hb hkind hbegin (fun hnone => harmed (hcalm hnone)) ?_ hmoved⟩
    rw [if_neg hsize]
    exact ⟨fresh, rfl⟩

/-- Of an address inside of a small block it turns out too late that there is nothing to free: only
    an allocation that is refused leaves no block behind. -/
theorem ends_reallocate_inside (h : s.Lends) (hb : b ∈ s.outstanding) (hkind : b.kind ≠ .large)
    (hp : p ∈ b.extent) (hne : p ≠ b.begin) (hsize : size ≠ 0) :
    (∀ q t, allocate size alignment s = .ok q t →
      ∃ fresh u, fresh.begin = q ∧ Shifts s {fresh} ∅ u
        ∧ reallocate p size alignment s = .error (.refused (.unknownPointer p)) u)
    ∧ ∀ e t, allocate size alignment s = .error (.refused e) t →
      Shifts s ∅ ∅ t ∧ reallocate p size alignment s = .error (.refused e) t := by
  have hwf : s.WF := h.elim fun _ h => h.wf
  have hpos : p ≠ 0 := by
    have hfirst := (hwf.heap.past_le hb.1).1
    have hspace := hwf.heap.layout.begin_pos
    have hle : b.begin ≤ p := hp.1
    omega
  have hfound := hwf.heap.actualSize?_eq hb.1 hkind hp
  have hends := h.ends_allocate size alignment
  -- The size is found, so all depends on the allocation.
  have hnext : ∀ {ok : Nat → Session → Prop} {no : AllocError → Session → Prop},
      Act.Ends (reallocate p size alignment) s ok no ↔
        Act.Ends (allocate size alignment) s
          (fun q t => Act.Ends (moveTo q p (min b.size size)) t ok no) no := by
    intro ok no
    rw [reallocate_eq hpos hsize, Act.ends_bind, Act.ends_get, Act.ends_bind, hfound,
      Act.ends_orRefuse_some, Act.ends_bind]
  constructor
  · intro q t hact
    obtain ⟨ht, -, fresh, rfl, hroom, hshifts⟩ := hends.of_ok hact
    have hmove := ht.ends_moveTo hshifts hb hp (Nat.min_le_left _ size)
      (Nat.le_trans (Nat.min_le_right b.size _) hroom)
    have hstray : Act.Ends (reallocate p size alignment) s (fun _ _ => False)
        fun e u => e = .unknownPointer p ∧ Shifts s {fresh} ∅ u := by
      refine hnext.mpr ?_
      unfold Act.Ends
      rw [hact]
      refine hmove.imp (fun _ _ hok => hne hok.1) ?_
      rintro e u ⟨-, ⟨-, he, hstray⟩ | ⟨hbegin, -⟩⟩
      · exact ⟨he, hstray⟩
      · exact absurd hbegin hne
    rcases Act.ends_iff.mp hstray with ⟨_, _, -, hfalse⟩ | ⟨e, u, hrefused, rfl, hshifts⟩
    · exact hfalse.elim
    · exact ⟨fresh, u, rfl, hshifts, hrefused⟩
  · intro e t hact
    have hsame : Act.Ends (reallocate p size alignment) s (fun _ _ => False)
        fun e' t' => e' = e ∧ t' = t := by
      refine hnext.mpr ?_
      unfold Act.Ends
      rw [hact]
      exact ⟨rfl, rfl⟩
    refine ⟨(hends.of_refused hact).2, ?_⟩
    rcases Act.ends_iff.mp hsame with ⟨_, _, -, hfalse⟩ | ⟨_, _, hrefused, rfl, rfl⟩
    · exact hfalse.elim
    · exact hrefused

/-- An address in no block, or inside of a large one, is refused at once. -/
theorem reallocate_unknown (h : s.Lends) (hvacant : ¬ s.Vacant p) (hp : p ≠ 0)
    (hnone : ∀ b ∈ s.outstanding, p ≠ b.begin ∧ (b.kind = .large ∨ p ∉ b.extent)) :
    reallocate p size alignment s = .error (.refused (.unknownPointer p)) s := by
  have hwf : s.WF := h.elim fun _ h => h.wf
  have hout : ∀ b ∈ s.heap.blocks, p ∈ b.extent → b ∈ s.outstanding :=
    fun b hb hin => ⟨hb, fun hidle => hvacant ⟨b, hb, hidle, hin⟩⟩
  have hrefused : Act.Ends (reallocate p size alignment) s (fun _ _ => False)
      fun e t => e = .unknownPointer p ∧ t = s := by
    by_cases hsize : size = 0
    · unfold reallocate
      rw [if_neg hp, if_pos hsize, Act.ends_bind]
      unfold Act.Ends
      rw [h.free_unknown hp fun b hb hbp => ?_]
      · exact ⟨rfl, rfl⟩
      · have hin := Block.begin_mem_extent (hwf.heap.tiled.solid b hb)
        exact (hnone b (hout b hb (hbp ▸ hin))).1 hbp.symm
    · rw [reallocate_eq hp hsize, Act.ends_bind, Act.ends_get, Act.ends_bind, Act.ends_orRefuse]
      refine ⟨fun n hn => ?_, fun _ => ⟨rfl, rfl⟩⟩
      obtain ⟨b, hb, hin, -, hlarge⟩ := hwf.heap.of_actualSize? hn
      obtain ⟨hne, hkind | hnot⟩ := hnone b (hout b hb hin)
      · exact absurd (hlarge hkind) hne
      · exact absurd hin hnot
  rcases Act.ends_iff.mp hrefused with ⟨_, _, -, hfalse⟩ | ⟨_, _, hact, rfl, rfl⟩
  · exact hfalse.elim
  · exact hact

end Lends

/-! ## Usage -/

/-- A call for a block, or with one. -/
inductive Call where
  | allocate (size alignment : Nat)
  | free (p : Nat)
  | reallocate (p size alignment : Nat)

namespace Call

/-- What a call does; a free returns zero. -/
def perform : Call → Act AllocError Session Nat
  | allocate size alignment => Session.allocate size alignment
  | free p => do
    Session.free p
    return 0
  | reallocate p size alignment => Session.reallocate p size alignment

/-- The call is not for a block that is free already. -/
def Proper (s : Session) : Call → Prop
  | allocate .. => True
  | free p | reallocate p .. => ¬ s.Vacant p

end Call

/-- A heap and a cache after any calls, on a machine where calls of the operating system may fail;
    outstanding blocks may be written to at any time. -/
inductive Usage : Session → Prop where
  | start {p q : Pages} {classes : SizeClasses} {regionLog secondaryLog : Nat} {heap : Heap}
      (hclasses : classes.Valid) (hregion : Pages.pageSize ∣ Word.powerOfTwo regionLog)
      (hsecondary : Pages.pageSize ∣ Word.powerOfTwo secondaryLog)
      (hregion_lt : Word.powerOfTwo regionLog < Word.limit)
      (hprimary_lt : classes.count * Word.powerOfTwo regionLog < Word.limit)
      (hsecondary_lt : Word.powerOfTwo secondaryLog < Word.limit)
      (hact : create classes regionLog secondaryLog p = .ok heap q) :
      Usage ⟨heap, Cache.new classes.count⟩
  | returned {s t : Session} {call : Call} {answer : Nat} (h : Usage s) (hproper : call.Proper s)
      (hact : call.perform s = .ok answer t) : Usage t
  | refused {s t : Session} {call : Call} {e : AllocError} (h : Usage s) (hproper : call.Proper s)
      (hact : call.perform s = .error (.refused e) t) : Usage t
  | write {s : Session} {b : Block} {addr : Nat} {bytes : List UInt8} (h : Usage s)
      (hb : b ∈ s.outstanding) (hlo : b.begin ≤ addr) (hhi : addr + bytes.length ≤ b.past) :
      Usage { s with heap := s.heap.mapPages (·.write addr bytes) }
  | schedule {s : Session} (h : Usage s) (failures : List ArmedFailure) :
      Usage { s with heap := s.heap.mapPages (·.schedule failures) }

namespace Usage

theorem lent_new {heap : Heap} (hwf : heap.WF) (hempty : heap.Empty) :
    Lent ⟨heap, Cache.new heap.classes.count⟩ ⟨fun _ => 0, 0, 0, ∅⟩ := by
  have hidle : ∀ k, Session.idle ⟨heap, Cache.new heap.classes.count⟩ k + 0 = 0 := by
    intro k
    cases k with
    | large => rfl
    | small c =>
        show (heap.free c : Multiset Nat) + ((Cache.new _).held c : Multiset Nat) + 0 = 0
        rw [hempty.free, held_new]
        rfl
  refine ⟨⟨hwf, Array.size_replicate⟩, ?_, ?_, rfl⟩
  · exact .of_empty hempty.blocks hempty.opened hidle rfl rfl rfl
  · refine Set.eq_empty_iff_forall_notMem.mpr fun b hb => ?_
    have hin : b ∈ heap.blocks := hb.1
    rw [hempty.blocks] at hin
    exact hin

/-- A call leaves every block on a list or in somebody's hands. -/
theorem lends_call (h : s.Lends) (call : Call) (hproper : call.Proper s) :
    Act.Ends call.perform s (fun _ t => t.Lends) fun _ t => t.Lends := by
  cases call with
  | allocate size alignment =>
      exact (h.ends_allocate size alignment).imp (fun _ _ hok => hok.1) fun _ _ hno => hno.1
  | free p =>
      refine Act.ends_bind.mpr ?_
      exact (h.ends_free_of_not_vacant hproper).imp (fun _ _ hok => hok) fun _ _ hno => hno.1
  | reallocate p size alignment =>
      exact (h.ends_reallocate hproper size alignment).imp (fun _ _ hok => hok) fun _ _ hno => hno.1

/-- After any calls every block is on a list or in somebody's hands. -/
theorem lends (h : Usage s) : s.Lends := by
  induction h with
  | start hclasses hregion hsecondary _ hprimary_lt _ hact =>
      obtain ⟨hwf, hempty, hsame, -⟩ :=
        (endsOrStops_create hclasses hregion hsecondary hprimary_lt).of_ok hact
      exact ⟨_, hsame ▸ lent_new hwf hempty⟩
  | returned _ hproper hact ih => exact (lends_call ih _ hproper).of_ok hact
  | refused _ hproper hact ih => exact (lends_call ih _ hproper).of_refused hact
  | write _ hb hlo hhi ih =>
      obtain ⟨holders, h⟩ := ih
      have hlast := (h.wf.heap.past_le hb.1).2
      have hend := h.wf.heap.layout.end_lt
      exact ⟨holders, (h.overwrites (h.wf.heap.withWrite _ _ (by omega))).1⟩
  | schedule _ failures ih => exact ih.elim fun holders h => ⟨holders, h.scheduled failures⟩

/-- A small block is outstanding, its second granule is no block's beginning, and there is another
    block to be had. -/
theorem exists_inside :
    ∃ (s : Session) (b : Block) (q : Nat) (t : Session), s.Usage ∧ b ∈ s.outstanding
      ∧ b.kind ≠ .large ∧ b.begin + 8 ∈ b.extent ∧ allocate 24 8 s = .ok q t := by
  have hplays : (match create .compact 22 24 {} with
    | .ok heap _ =>
      match allocate 24 8 ⟨heap, Cache.new SizeClasses.compact.count⟩ with
      | .ok p s =>
        match allocate 24 8 s with
        | .ok _ _ => s.heap.isPrimary p
        | .error _ _ => false
      | .error _ _ => false
    | .error _ _ => false) = true := by
    decide +kernel
  split at hplays <;> try contradiction
  rename_i heap q hcreate
  split at hplays <;> try contradiction
  rename_i p s hfirst
  split at hplays <;> try contradiction
  rename_i p' t hsecond
  have hstart : Usage ⟨heap, Cache.new SizeClasses.compact.count⟩ :=
    .start SizeClasses.valid_compact (by decide) (by decide) (by decide) (by decide) (by decide) hcreate
  have hrun : Usage s := hstart.returned (show Call.Proper _ (.allocate 24 8) from trivial) hfirst
  obtain ⟨⟨holders, h⟩, -, b, rfl, hroom, hshifts⟩ := (hstart.lends.ends_allocate 24 8).of_ok hfirst
  have hb : b ∈ s.outstanding := by
    rw [hshifts.outstanding]
    exact .inr rfl
  refine ⟨s, b, p', t, hrun, hb, fun hlarge => ?_, ⟨by omega, ?_⟩, hsecond⟩
  · obtain ⟨hclass, -, -⟩ := h.wf.heap.begin_spec hb.1
    unfold blockClass at hclass
    rw [if_pos hplays, hlarge] at hclass
    exact nomatch hclass
  · show b.begin + 8 < b.begin + b.size
    omega

/-- After any calls, a refused `reallocate` of an address in no free block leaves all outstanding
    blocks and their bytes as they were, with two exceptions (`Refused`): one block more is taken and
    nobody gets it, or the operating system fails on a large block.  The first is what happens inside
    of a small block whenever a block can be allocated at all; other addresses where no block begins
    are refused at once. -/
theorem refused_reallocate (h : Usage s) (hp : ¬ s.Vacant p) (size alignment : Nat) :
    Act.Ends (reallocate p size alignment) s (fun _ _ => True) (Refused s p size)
      ∧ (∀ b ∈ s.outstanding, b.kind ≠ .large → p ∈ b.extent → p ≠ b.begin → size ≠ 0 →
          (∀ q t, allocate size alignment s = .ok q t →
            ∃ fresh u, fresh.begin = q ∧ Shifts s {fresh} ∅ u
              ∧ reallocate p size alignment s = .error (.refused (.unknownPointer p)) u)
          ∧ ∀ e t, allocate size alignment s = .error (.refused e) t →
            Shifts s ∅ ∅ t ∧ reallocate p size alignment s = .error (.refused e) t)
      ∧ (p ≠ 0 → (∀ b ∈ s.outstanding, p ≠ b.begin ∧ (b.kind = .large ∨ p ∉ b.extent)) →
          reallocate p size alignment s = .error (.refused (.unknownPointer p)) s) := by
  refine ⟨?_, ?_, ?_⟩
  · exact (h.lends.ends_reallocate hp size alignment).imp (fun _ _ _ => trivial) fun _ _ hno => hno.2
  · intro b hb hkind hin hne hsize
    exact h.lends.ends_reallocate_inside hb hkind hin hne hsize
  · exact h.lends.reallocate_unknown hp

/-- A block is to be moved from an address inside of it. -/
theorem refused_reallocate_inside :
    ∃ (s : Session) (p q : Nat) (t : Session), s.Usage ∧ ¬ s.Vacant p
      ∧ allocate 24 8 s = .ok q t
      ∧ Act.Ends (reallocate p 24 8) s (fun _ _ => True) (Refused s p 24)
      ∧ ∃ fresh u, fresh.begin = q ∧ Shifts s {fresh} ∅ u
        ∧ reallocate p 24 8 s = .error (.refused (.unknownPointer p)) u := by
  obtain ⟨s, b, q, t, hrun, hb, hkind, hin, hact⟩ := exists_inside
  have hvacant := hrun.lends.not_vacant_of_mem hb hin
  obtain ⟨hends, hinside, -⟩ := refused_reallocate hrun hvacant 24 8
  obtain ⟨hstrays, -⟩ := hinside b hb hkind hin (by omega) (by decide)
  exact ⟨s, _, q, t, hrun, hvacant, hact, hends, hstrays q t hact⟩

/-- A pointer into a block is refused as unknown, and one block more is gone from the heap. -/
theorem strayed_reallocate :
    ∃ (s : Session) (p : Nat) (t : Session), s.Usage ∧ ¬ s.Vacant p
      ∧ reallocate p 24 8 s = .error (.refused (.unknownPointer p)) t
      ∧ t.outstanding ≠ s.outstanding := by
  obtain ⟨s, b, q, t, hrun, hb, hkind, hin, hact⟩ := exists_inside
  have hvacant := hrun.lends.not_vacant_of_mem hb hin
  obtain ⟨fresh, u, -, hshifts, hrefused⟩ :=
    (hrun.lends.ends_reallocate_inside hb hkind hin (by omega) (by decide : 24 ≠ 0)).1 q t hact
  refine ⟨s, _, u, hrun, hvacant, hrefused, fun hsame => ?_⟩
  have hmem : fresh ∈ u.outstanding := by
    rw [hshifts.outstanding]
    exact .inr rfl
  exact Set.disjoint_singleton_left.mp hshifts.fresh (hsame ▸ hmem)

end Usage

end Session

end GuardedHeap.Heap
