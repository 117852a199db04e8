import GuardedHeap.Proofs.Scene.Basic

/-! # Sound scenes — what every move preserves

    In a sound scene blocks do not overlap, records fit their blocks, no
    block is held twice and every holder holds blocks in the right state.
    Unless a user marked the shadow, exactly the users' bytes and the
    claimed frames can be accessed; unless a call of the operating system
    failed, every block is held by someone.

    There is one lemma for each move, `Sound.move` puts them together, and
    `Sound.moves` is the induction over a chain. -/

namespace GuardedHeap

/-- Blocks are not empty and do not overlap. -/
structure Tiled (blocks : Set Block) : Prop where
  solid : ∀ b ∈ blocks, 0 < b.size
  apart : ∀ b ∈ blocks, ∀ c ∈ blocks, b ≠ c → Disjoint b.extent c.extent

namespace Tiled

variable {blocks : Set Block} {b c : Block}

/-- An address lies in one block only. -/
theorem eq_of_mem (h : Tiled blocks) (hb : b ∈ blocks) (hc : c ∈ blocks) {a : Nat}
    (hab : a ∈ b.extent) (hac : a ∈ c.extent) : b = c := by
  by_contra hne
  exact Set.disjoint_left.mp (h.apart b hb c hc hne) hab hac

/-- Blocks that begin at one address are one block. -/
theorem eq_of_begin (h : Tiled blocks) (hb : b ∈ blocks) (hc : c ∈ blocks)
    (heq : b.begin = c.begin) : b = c := by
  have hbc := Block.begin_mem_extent (h.solid c hc)
  rw [← heq] at hbc
  exact h.eq_of_mem hb hc (Block.begin_mem_extent (h.solid b hb)) hbc

/-- Some of the blocks that lie apart lie apart. -/
theorem subset {blocks' : Set Block} (h : Tiled blocks) (hsub : blocks' ⊆ blocks) :
    Tiled blocks' where
  solid b hb := h.solid b (hsub hb)
  apart b hb c hc hne := h.apart b (hsub hb) c (hsub hc) hne

/-- A change of a record leaves the blocks where they are. -/
theorem exchange (h : Tiled blocks) (hb : b ∈ blocks) (r : ChunkRecord) :
    Tiled (exchange blocks b (b.withRecord r)) where
  solid c hc := by
    rcases mem_exchange.mp hc with rfl | ⟨hc, -⟩
    · exact h.solid b hb
    · exact h.solid c hc
  apart c hc d hd hne := by
    rcases mem_exchange.mp hc with rfl | ⟨hc, hcb⟩
    · rcases mem_exchange.mp hd with rfl | ⟨hd, hdb⟩
      · exact absurd rfl hne
      · exact h.apart b hb d hd hdb.symm
    · rcases mem_exchange.mp hd with rfl | ⟨hd, -⟩
      · exact h.apart c hc b hb hcb
      · exact h.apart c hc d hd hne

end Tiled

/-- Blocks that lie apart from each other and from the old ones can be added. -/
theorem Move.of_tiled {failing marked : Prop} {s : Scene} {blocks : Set Block} {k : BlockClass}
    {size : Nat} {fresh : List Nat} (hsize : 0 < size) (ht : Tiled blocks)
    (hblocks : blocks = s.blocks ∪ {b | ∃ p ∈ fresh, b = Block.blank p size k})
    (hnodup : fresh.Nodup) (hoff : ∀ p ∈ fresh, ∀ b ∈ s.blocks, b.begin ≠ p) :
    Move failing marked s [] (s.grow k size fresh) := by
  have hnew : ∀ p ∈ fresh, Block.blank p size k ∈ blocks := by
    intro p hp
    rw [hblocks]
    exact .inr ⟨p, hp, rfl⟩
  refine .grow k size fresh hsize (Multiset.coe_nodup.mpr hnodup) ?_ ?_
  · intro p hp b hb
    refine ht.apart b ?_ _ (hnew p hp) fun heq => hoff p hp b hb ?_
    · rw [hblocks]
      exact .inl hb
    · exact congrArg Block.begin heq
  · intro p hp q hq hne
    exact ht.apart _ (hnew p hp) _ (hnew q hq) fun heq => hne (congrArg Block.begin heq)

namespace Scene

/-- A scene in which blocks, records and holders agree. -/
structure Sound (failing marked : Prop) (s : Scene) : Prop where
  tiled : Tiled s.blocks
  fits : ∀ b ∈ s.blocks, b.record.state ≠ .recycled → b.Fits
  idle_nodup : ∀ k, (s.idle k).Nodup
  idle_block : ∀ k, ∀ p ∈ s.idle k,
    ∃ b ∈ s.blocks, b.begin = p ∧ b.kind = k ∧ b.record.state = .recycled
  waiting_nodup : s.waiting.Nodup
  waiting_block : ∀ e ∈ s.waiting,
    ∃ b ∈ s.blocks, b.entry = e ∧ b.record.state = .quarantined
  backing_nodup : s.backing.Nodup
  backing_block : ∀ b ∈ s.backing,
    b ∈ s.blocks ∧ b.kind = .large ∧ b.record.state = .recycled ∧ b.begin ∉ s.idle .large
  claimed_backed : ∀ a ∈ s.claimed, ∃ b ∈ s.backing, a ∈ b.extent
  exact : ¬ marked → s.opened = s.used ∪ s.claimed
  recycled_held : ¬ failing → ∀ b ∈ s.blocks, b.record.state = .recycled →
    b.begin ∈ s.idle b.kind ∨ b ∈ s.backing
  quarantined_held : ¬ failing → ∀ b ∈ s.blocks, b.record.state = .quarantined →
    b.entry ∈ s.waiting

namespace Sound

variable {failing marked : Prop} {s t : Scene} {b c : Block}

/-! ## What holders hold -/

/-- A block that is idle is recycled, in the class where it is idle. -/
theorem idle_spec (h : Sound failing marked s) (hb : b ∈ s.blocks) {k : BlockClass}
    (hidle : b.begin ∈ s.idle k) : b.kind = k ∧ b.record.state = .recycled := by
  obtain ⟨c, hc, hbegin, hkind, hstate⟩ := h.idle_block k _ hidle
  obtain rfl := h.tiled.eq_of_begin hc hb hbegin
  exact ⟨hkind, hstate⟩

/-- A block that waits is quarantined, with the entry that waits. -/
theorem waiting_spec (h : Sound failing marked s) (hb : b ∈ s.blocks)
    {e : Quarantine.Entry} (he : e ∈ s.waiting) (hblock : e.block = b.begin) :
    b.entry = e ∧ b.record.state = .quarantined := by
  obtain ⟨c, hc, rfl, hstate⟩ := h.waiting_block e he
  obtain rfl := h.tiled.eq_of_begin hc hb hblock
  exact ⟨rfl, hstate⟩

/-- A free block backs no fake stack. -/
theorem not_backing_of_idle (h : Sound failing marked s)
    (hidle : b.begin ∈ s.idle b.kind) : b ∉ s.backing := by
  intro hback
  obtain ⟨-, hkind, -, hnot⟩ := h.backing_block b hback
  rw [hkind] at hidle
  exact hnot hidle

/-- A block that backs no fake stack has no byte of a frame. -/
theorem not_claimed (h : Sound failing marked s) (hb : b ∈ s.blocks) (hback : b ∉ s.backing)
    {a : Nat} (ha : a ∈ b.extent) : a ∉ s.claimed := by
  intro hclaimed
  obtain ⟨c, hc, hac⟩ := h.claimed_backed a hclaimed
  obtain rfl := h.tiled.eq_of_mem hb (h.backing_block c hc).1 ha hac
  exact hback hc

/-- A user's byte in a block is the byte of this block's user. -/
theorem used_iff (h : Sound failing marked s) (hb : b ∈ s.blocks) {a : Nat}
    (ha : a ∈ b.extent) : a ∈ s.used ↔ b.record.state = .allocated ∧ a ∈ b.user := by
  constructor
  · rintro ⟨c, hc, hstate, hac⟩
    have hfits := h.fits c hc (by rw [hstate]; decide)
    obtain rfl := h.tiled.eq_of_mem hb hc ha (hfits.user_subset hac)
    exact ⟨hstate, hac⟩
  · rintro ⟨hstate, hab⟩
    exact ⟨b, hb, hstate, hab⟩

/-- The scene in which one record has changed. -/
theorem used_exchange (h : Sound failing marked s) (hb : b ∈ s.blocks) {r : ChunkRecord}
    (hs : t.blocks = exchange s.blocks b (b.withRecord r)) :
    t.used = s.used \ b.extent ∪ {a | r.state = .allocated ∧ a ∈ (b.withRecord r).user} := by
  ext a
  constructor
  · rintro ⟨c, hc, hstate, hac⟩
    rw [hs] at hc
    rcases mem_exchange.mp hc with rfl | ⟨hc, hne⟩
    · exact .inr ⟨hstate, hac⟩
    · have hfits := h.fits c hc (by rw [hstate]; decide)
      refine .inl ⟨⟨c, hc, hstate, hac⟩, fun hab => hne ?_⟩
      exact h.tiled.eq_of_mem hc hb (hfits.user_subset hac) hab
  · rintro (⟨⟨c, hc, hstate, hac⟩, hnot⟩ | ⟨hstate, hac⟩)
    · have hfits := h.fits c hc (by rw [hstate]; decide)
      refine ⟨c, ?_, hstate, hac⟩
      rw [hs]
      refine mem_exchange.mpr (.inr ⟨hc, ?_⟩)
      rintro rfl
      exact hnot (hfits.user_subset hac)
    · refine ⟨b.withRecord r, ?_, hstate, hac⟩
      rw [hs]
      exact mem_exchange.mpr (.inl rfl)

/-- Removing a block that no user has changes no user's bytes. -/
theorem used_sdiff (hstate : b.record.state ≠ .allocated) (hs : t.blocks = s.blocks \ {b}) :
    t.used = s.used := by
  ext a
  constructor
  · rintro ⟨c, hc, h⟩
    rw [hs] at hc
    exact ⟨c, hc.1, h⟩
  · rintro ⟨c, hc, hc', h⟩
    refine ⟨c, ?_, hc', h⟩
    rw [hs]
    exact ⟨hc, fun heq => hstate (Set.mem_singleton_iff.mp heq ▸ hc')⟩

/-! ## Growing -/

/-- Fresh blocks are idle in their class. -/
theorem mem_idle_grow {k k' : BlockClass} {size p : Nat} {fresh : Multiset Nat} :
    p ∈ (s.grow k size fresh).idle k' ↔ p ∈ s.idle k' ∨ k' = k ∧ p ∈ fresh := by
  simp only [grow, Function.update_apply]
  by_cases h : k' = k
  · subst h
    simp
  · simp [h]

/-- Fresh blocks that lie apart from all others leave a sound scene. -/
theorem grow (h : Sound failing marked s) (k : BlockClass) (size : Nat) (fresh : Multiset Nat)
    (hsize : 0 < size) (hnodup : fresh.Nodup)
    (hold : ∀ p ∈ fresh, ∀ b ∈ s.blocks, Disjoint b.extent (Block.blank p size k).extent)
    (hnew : ∀ p ∈ fresh, ∀ q ∈ fresh, p ≠ q →
      Disjoint (Block.blank p size k).extent (Block.blank q size k).extent) :
    Sound failing marked (s.grow k size fresh) := by
  -- No fresh block begins where an old one does.
  have hoff : ∀ b ∈ s.blocks, b.begin ∉ fresh := by
    intro b hb hfresh
    refine Set.disjoint_left.mp (hold _ hfresh b hb) (Block.begin_mem_extent (h.tiled.solid b hb)) ?_
    exact ⟨Nat.le_refl _, Nat.lt_add_of_pos_right hsize⟩
  constructor
  case tiled =>
    constructor
    · rintro b (hb | ⟨p, -, rfl⟩)
      · exact h.tiled.solid b hb
      · exact hsize
    · rintro b (hb | ⟨p, hp, rfl⟩) c (hc | ⟨q, hq, rfl⟩) hne
      · exact h.tiled.apart b hb c hc hne
      · exact hold q hq b hb
      · exact (hold p hp c hc).symm
      · exact hnew p hp q hq (fun heq => hne (heq ▸ rfl))
  case fits =>
    rintro b (hb | ⟨p, -, rfl⟩) hstate
    · exact h.fits b hb hstate
    · exact absurd rfl hstate
  case idle_nodup =>
    intro k'
    by_cases hk : k' = k
    · subst hk
      show (Function.update s.idle k' _ k').Nodup
      rw [Function.update_self, Multiset.nodup_add]
      refine ⟨h.idle_nodup k', hnodup, Multiset.disjoint_left.mpr ?_⟩
      intro p hp hfresh
      obtain ⟨b, hb, rfl, -⟩ := h.idle_block k' p hp
      exact hoff b hb hfresh
    · show (Function.update s.idle k _ k').Nodup
      rw [Function.update_of_ne hk]
      exact h.idle_nodup k'
  case idle_block =>
    intro k' p hp
    rcases mem_idle_grow.mp hp with hidle | ⟨rfl, hfresh⟩
    · obtain ⟨b, hb, hspec⟩ := h.idle_block k' p hidle
      exact ⟨b, .inl hb, hspec⟩
    · exact ⟨Block.blank p size k', .inr ⟨p, hfresh, rfl⟩, rfl, rfl, rfl⟩
  case waiting_nodup => exact h.waiting_nodup
  case waiting_block =>
    intro e he
    obtain ⟨b, hb, hspec⟩ := h.waiting_block e he
    exact ⟨b, .inl hb, hspec⟩
  case backing_nodup => exact h.backing_nodup
  case backing_block =>
    intro b hback
    obtain ⟨hb, hkind, hstate, hidle⟩ := h.backing_block b hback
    refine ⟨.inl hb, hkind, hstate, fun hmem => ?_⟩
    rcases mem_idle_grow.mp hmem with hmem | ⟨-, hmem⟩
    · exact hidle hmem
    · exact hoff b hb hmem
  case claimed_backed => exact h.claimed_backed
  case exact =>
    intro hmarked
    have hused : (s.grow k size fresh).used = s.used := by
      ext a
      constructor
      · rintro ⟨b, hb | ⟨p, -, rfl⟩, hstate, ha⟩
        · exact ⟨b, hb, hstate, ha⟩
        · exact nomatch hstate
      · rintro ⟨b, hb, hstate, ha⟩
        exact ⟨b, .inl hb, hstate, ha⟩
    rw [hused]
    exact h.exact hmarked
  case recycled_held =>
    rintro hfailing b (hb | ⟨p, hp, rfl⟩) hstate
    · rcases h.recycled_held hfailing b hb hstate with hidle | hback
      · exact .inl (mem_idle_grow.mpr (.inl hidle))
      · exact .inr hback
    · exact .inl (mem_idle_grow.mpr (.inr ⟨rfl, hp⟩))
  case quarantined_held =>
    rintro hfailing b (hb | ⟨p, -, rfl⟩) hstate
    · exact h.quarantined_held hfailing b hb hstate
    · exact nomatch hstate

/-! ## Handing out -/

/-- A block that is handed out is idle no more. -/
theorem mem_idle_handOut (h : Sound failing marked s) {r : ChunkRecord} {content : Nat → UInt8}
    {k : BlockClass} {p : Nat} :
    p ∈ (s.handOut b r content).idle k ↔ p ∈ s.idle k ∧ ¬ (k = b.kind ∧ p = b.begin) := by
  simp only [handOut, Function.update_apply]
  by_cases hk : k = b.kind
  · subst hk
    rw [if_pos rfl, (h.idle_nodup b.kind).mem_erase_iff]
    simp [and_comm]
  · simp [hk]

/-- An idle block that is handed out leaves a sound scene. -/
theorem handOut (h : Sound failing marked s) (r : ChunkRecord) (content : Nat → UInt8)
    (hb : b ∈ s.blocks) (hidle : b.begin ∈ s.idle b.kind) (hstate : r.state = .allocated)
    (hfits : (b.withRecord r).Fits) : Sound failing marked (s.handOut b r content) := by
  obtain ⟨-, hrecycled⟩ := h.idle_spec hb hidle
  have hback := h.not_backing_of_idle hidle
  constructor
  case tiled => exact h.tiled.exchange hb r
  case fits =>
    intro c hc hne
    rcases mem_exchange.mp hc with rfl | ⟨hc, -⟩
    · exact hfits
    · exact h.fits c hc hne
  case idle_nodup =>
    intro k
    by_cases hk : k = b.kind
    · subst hk
      show (Function.update s.idle b.kind _ b.kind).Nodup
      rw [Function.update_self]
      exact (h.idle_nodup b.kind).erase _
    · show (Function.update s.idle b.kind _ k).Nodup
      rw [Function.update_of_ne hk]
      exact h.idle_nodup k
  case idle_block =>
    intro k p hp
    obtain ⟨hp, hne⟩ := h.mem_idle_handOut.mp hp
    obtain ⟨c, hc, hbegin, hkind, hspec⟩ := h.idle_block k p hp
    refine ⟨c, mem_exchange.mpr (.inr ⟨hc, ?_⟩), hbegin, hkind, hspec⟩
    rintro rfl
    exact hne ⟨hkind.symm, hbegin.symm⟩
  case waiting_nodup => exact h.waiting_nodup
  case waiting_block =>
    intro e he
    obtain ⟨c, hc, hentry, hspec⟩ := h.waiting_block e he
    refine ⟨c, mem_exchange.mpr (.inr ⟨hc, ?_⟩), hentry, hspec⟩
    rintro rfl
    rw [hrecycled] at hspec
    exact nomatch hspec
  case backing_nodup => exact h.backing_nodup
  case backing_block =>
    intro c hc
    obtain ⟨hmem, hkind, hspec, hnot⟩ := h.backing_block c hc
    -- What backs a fake stack is not idle, so it was not handed out.
    refine ⟨mem_exchange.mpr (.inr ⟨hmem, ?_⟩), hkind, hspec, fun hin => ?_⟩
    · rintro rfl
      exact hback hc
    · exact hnot (h.mem_idle_handOut.mp hin).1
  case claimed_backed => exact h.claimed_backed
  case exact =>
    intro hmarked
    -- The bytes of the block go to its user; before, none of them was in use or claimed.
    rw [h.used_exchange (t := s.handOut b r content) hb rfl]
    show s.opened \ b.extent ∪ (b.withRecord r).user = _
    rw [h.exact hmarked]
    ext a
    have hclaimed := fun ha => h.not_claimed hb hback (a := a) ha
    simp only [Scene.handOut, Set.mem_union, Set.mem_sdiff, Set.mem_ofPred_eq, hstate, true_and]
    tauto
  case recycled_held =>
    intro hfailing c hc hspec
    rcases mem_exchange.mp hc with rfl | ⟨hc, hne⟩
    · rw [Block.record_withRecord, hstate] at hspec
      exact nomatch hspec
    · rcases h.recycled_held hfailing c hc hspec with hin | hin
      · refine .inl (h.mem_idle_handOut.mpr ⟨hin, fun heq => hne ?_⟩)
        exact h.tiled.eq_of_begin hc hb heq.2
      · exact .inr hin
  case quarantined_held =>
    intro hfailing c hc hspec
    rcases mem_exchange.mp hc with rfl | ⟨hc, -⟩
    · rw [Block.record_withRecord, hstate] at hspec
      exact nomatch hspec
    · exact h.quarantined_held hfailing c hc hspec

/-! ## Freeing and leaving the quarantine -/

/-- A block that is free or backs a fake stack survives a change of another one. -/
theorem mem_exchange_of_recycled (hrecycled : b.record.state = .recycled)
    (hstate : c.record.state ≠ .recycled) (hb : b ∈ s.blocks) {c' : Block} :
    b ∈ exchange s.blocks c c' := by
  refine mem_exchange.mpr (.inr ⟨hb, ?_⟩)
  rintro rfl
  exact hstate hrecycled

/-- A chunk that its user gives back leaves a sound scene. -/
theorem retire (h : Sound failing marked s) (freed : Origin) (hb : b ∈ s.blocks)
    (hstate : b.record.state = .allocated) :
    Sound failing marked
      (s.retire b (b.withRecord { b.record with state := .quarantined, freed })) := by
  have hlive : b.record.state ≠ .recycled := by rw [hstate]; decide
  have hback : b ∉ s.backing := fun hin => hlive (h.backing_block b hin).2.2.1
  have hfits := h.fits b hb hlive
  constructor
  case tiled => exact h.tiled.exchange hb _
  case fits =>
    intro c hc hne
    rcases mem_exchange.mp hc with rfl | ⟨hc, -⟩
    · exact ⟨hfits.actual, hfits.begin_le, hfits.lt_past⟩
    · exact h.fits c hc hne
  case idle_nodup => exact h.idle_nodup
  case idle_block =>
    intro k p hp
    obtain ⟨c, hc, hbegin, hkind, hspec⟩ := h.idle_block k p hp
    exact ⟨c, mem_exchange_of_recycled hspec hlive hc, hbegin, hkind, hspec⟩
  case waiting_nodup =>
    refine Multiset.nodup_cons.mpr ⟨fun hin => ?_, h.waiting_nodup⟩
    have hspec := (h.waiting_spec hb hin rfl).2
    rw [hstate] at hspec
    exact nomatch hspec
  case waiting_block =>
    intro e he
    rcases Multiset.mem_cons.mp he with rfl | he
    · exact ⟨_, mem_exchange.mpr (.inl rfl), rfl, rfl⟩
    · obtain ⟨c, hc, hentry, hspec⟩ := h.waiting_block e he
      refine ⟨c, mem_exchange.mpr (.inr ⟨hc, ?_⟩), hentry, hspec⟩
      rintro rfl
      rw [hstate] at hspec
      exact nomatch hspec
  case backing_nodup => exact h.backing_nodup
  case backing_block =>
    intro c hc
    obtain ⟨hmem, hkind, hspec, hnot⟩ := h.backing_block c hc
    exact ⟨mem_exchange_of_recycled hspec hlive hmem, hkind, hspec, hnot⟩
  case claimed_backed => exact h.claimed_backed
  case exact =>
    intro hmarked
    -- The bytes of the block close; those of other chunks, and claimed frames, lie elsewhere.
    rw [h.used_exchange (t := s.retire b _) hb rfl]
    show s.opened \ b.extent = _
    rw [h.exact hmarked]
    ext a
    have hclaimed := fun ha => h.not_claimed hb hback (a := a) ha
    simp only [Scene.retire, Set.mem_union, Set.mem_sdiff, Set.mem_ofPred_eq]
    simp only [reduceCtorEq, false_and, or_false]
    tauto
  case recycled_held =>
    intro hfailing c hc hspec
    rcases mem_exchange.mp hc with rfl | ⟨hc, -⟩
    · exact nomatch hspec
    · exact h.recycled_held hfailing c hc hspec
  case quarantined_held =>
    intro hfailing c hc hspec
    rcases mem_exchange.mp hc with rfl | ⟨hc, -⟩
    · exact Multiset.mem_cons_self _ _
    · exact Multiset.mem_cons_of_mem (h.quarantined_held hfailing c hc hspec)

/-- A block that is evicted is idle in its class. -/
theorem mem_idle_evict {e : Quarantine.Entry} {k : BlockClass} {p : Nat} :
    p ∈ (s.evict e b).idle k ↔ p ∈ s.idle k ∨ k = b.kind ∧ p = b.begin := by
  simp only [Scene.evict, Function.update_apply]
  by_cases hk : k = b.kind
  · subst hk
    simp [or_comm]
  · simp [hk]

/-- A waiting block that is evicted leaves a sound scene. -/
theorem evict (h : Sound failing marked s) (hb : b ∈ s.blocks) (hentry : b.entry ∈ s.waiting) :
    Sound failing marked (s.evict b.entry b) := by
  have hquarantined := (h.waiting_spec hb hentry rfl).2
  have hlive : b.record.state ≠ .recycled := by rw [hquarantined]; decide
  have hoff : ∀ k, b.begin ∉ s.idle k := fun k hin => hlive (h.idle_spec hb hin).2
  constructor
  case tiled => exact h.tiled.exchange hb _
  case fits =>
    intro c hc hne
    rcases mem_exchange.mp hc with rfl | ⟨hc, -⟩
    · exact absurd rfl hne
    · exact h.fits c hc hne
  case idle_nodup =>
    intro k
    by_cases hk : k = b.kind
    · subst hk
      show (Function.update s.idle b.kind _ b.kind).Nodup
      rw [Function.update_self]
      exact Multiset.nodup_cons.mpr ⟨hoff b.kind, h.idle_nodup b.kind⟩
    · show (Function.update s.idle b.kind _ k).Nodup
      rw [Function.update_of_ne hk]
      exact h.idle_nodup k
  case idle_block =>
    -- Of what is idle now, only the block itself was not idle before.
    intro k p hp
    rcases mem_idle_evict.mp hp with hidle | ⟨rfl, rfl⟩
    · obtain ⟨c, hc, hbegin, hkind, hspec⟩ := h.idle_block k p hidle
      exact ⟨c, mem_exchange_of_recycled hspec hlive hc, hbegin, hkind, hspec⟩
    · exact ⟨_, mem_exchange.mpr (.inl rfl), rfl, rfl, rfl⟩
  case waiting_nodup => exact h.waiting_nodup.erase _
  case waiting_block =>
    intro e he
    obtain ⟨hne, hin⟩ := (h.waiting_nodup.mem_erase_iff).mp he
    obtain ⟨c, hc, hspec⟩ := h.waiting_block e hin
    refine ⟨c, mem_exchange.mpr (.inr ⟨hc, ?_⟩), hspec⟩
    rintro rfl
    exact hne hspec.1.symm
  case backing_nodup => exact h.backing_nodup
  case backing_block =>
    intro c hc
    obtain ⟨hmem, hkind, hspec, hnot⟩ := h.backing_block c hc
    refine ⟨mem_exchange_of_recycled hspec hlive hmem, hkind, hspec, fun hin => ?_⟩
    rcases mem_idle_evict.mp hin with hin | ⟨-, heq⟩
    · exact hnot hin
    · rw [h.tiled.eq_of_begin hmem hb heq] at hspec
      exact hlive hspec
  case claimed_backed => exact h.claimed_backed
  case exact =>
    intro hmarked
    -- The block was not in use while it waited, and is not now.
    have hused : (s.evict b.entry b).used = s.used := by
      rw [h.used_exchange (t := s.evict b.entry b) hb rfl]
      ext a
      have hiff := fun ha => h.used_iff hb (a := a) ha
      simp only [ChunkRecord.recycle, Set.mem_union, Set.mem_sdiff, Set.mem_ofPred_eq, reduceCtorEq,
        false_and, or_false, and_iff_left_iff_imp]
      intro ha hin
      have hallocated := ((hiff hin).mp ha).1
      rw [hquarantined] at hallocated
      exact nomatch hallocated
    rw [hused]
    exact h.exact hmarked
  case recycled_held =>
    intro hfailing c hc hspec
    rcases mem_exchange.mp hc with rfl | ⟨hc, -⟩
    · exact .inl (mem_idle_evict.mpr (.inr ⟨rfl, rfl⟩))
    · rcases h.recycled_held hfailing c hc hspec with hin | hin
      · exact .inl (mem_idle_evict.mpr (.inl hin))
      · exact .inr hin
  case quarantined_held =>
    intro hfailing c hc hspec
    rcases mem_exchange.mp hc with rfl | ⟨hc, hne⟩
    · exact nomatch hspec
    · refine (h.waiting_nodup.mem_erase_iff).mpr ⟨fun heq => hne ?_, ?_⟩
      · exact h.tiled.eq_of_begin hc hb (congrArg Quarantine.Entry.block heq)
      · exact h.quarantined_held hfailing c hc hspec

/-! ## Unmapping -/

/-- A free large block and a block of a fake stack have no user's bytes; neither do the bytes
    that go with them. -/
theorem not_used_of_gone (h : Sound failing marked s) (hstate : b.record.state = .recycled)
    {gone : Set Nat} (hgone : ∀ c ∈ s.blocks, c ≠ b → Disjoint c.extent gone) {a : Nat}
    (ha : a ∈ gone) : a ∉ s.used := by
  rintro ⟨c, hc, hallocated, hac⟩
  have hfits := h.fits c hc (by rw [hallocated]; decide)
  refine Set.disjoint_left.mp (hgone c hc ?_) (hfits.user_subset hac) ha
  rintro rfl
  rw [hstate] at hallocated
  exact nomatch hallocated

/-- A block that goes away is idle no more. -/
theorem mem_idle_drop (h : Sound failing marked s) (gone : Set Nat) (bytes : Nat → UInt8)
    {k : BlockClass} {p : Nat} :
    p ∈ (s.drop b gone bytes).idle k ↔ p ∈ s.idle k ∧ ¬ (k = .large ∧ p = b.begin) := by
  simp only [Scene.drop, Function.update_apply]
  by_cases hk : k = .large
  · subst hk
    rw [if_pos rfl, (h.idle_nodup .large).mem_erase_iff]
    simp [and_comm]
  · simp [hk]

/-- An idle block that goes away, with bytes that no other has, leaves a sound scene. -/
theorem drop (h : Sound failing marked s) (gone : Set Nat) (bytes : Nat → UInt8)
    (hb : b ∈ s.blocks) (hidle : b.begin ∈ s.idle .large)
    (hgone : ∀ c ∈ s.blocks, c ≠ b → Disjoint c.extent gone) :
    Sound failing marked (s.drop b gone bytes) := by
  obtain ⟨hkind, hrecycled⟩ := h.idle_spec hb hidle
  have hback : b ∉ s.backing := h.not_backing_of_idle (hkind ▸ hidle)
  have hused : (s.drop b gone bytes).used = s.used :=
    used_sdiff (by rw [hrecycled]; decide) rfl
  constructor
  case tiled => exact h.tiled.subset Set.sdiff_subset
  case fits => exact fun c hc => h.fits c hc.1
  case idle_nodup =>
    intro k
    by_cases hk : k = .large
    · subst hk
      show (Function.update s.idle .large _ .large).Nodup
      rw [Function.update_self]
      exact (h.idle_nodup .large).erase _
    · show (Function.update s.idle .large _ k).Nodup
      rw [Function.update_of_ne hk]
      exact h.idle_nodup k
  case idle_block =>
    intro k p hp
    obtain ⟨hp, hne⟩ := (h.mem_idle_drop _ _).mp hp
    obtain ⟨c, hc, hbegin, hspec⟩ := h.idle_block k p hp
    refine ⟨c, ⟨hc, ?_⟩, hbegin, hspec⟩
    rintro rfl
    exact hne ⟨hspec.1 ▸ hkind, hbegin.symm⟩
  case waiting_nodup => exact h.waiting_nodup
  case waiting_block =>
    intro e he
    obtain ⟨c, hc, hentry, hspec⟩ := h.waiting_block e he
    refine ⟨c, ⟨hc, ?_⟩, hentry, hspec⟩
    rintro rfl
    rw [hrecycled] at hspec
    exact nomatch hspec
  case backing_nodup => exact h.backing_nodup
  case backing_block =>
    intro c hc
    obtain ⟨hmem, hckind, hspec, hnot⟩ := h.backing_block c hc
    refine ⟨⟨hmem, ?_⟩, hckind, hspec, fun hin => hnot ((h.mem_idle_drop _ _).mp hin).1⟩
    rintro rfl
    exact hback hc
  case claimed_backed => exact h.claimed_backed
  case exact =>
    intro hmarked
    rw [hused]
    show s.opened \ gone = s.used ∪ s.claimed
    rw [h.exact hmarked]
    refine sdiff_eq_left.mpr (Set.disjoint_left.mpr ?_)
    -- What goes away was in use by no chunk, and belonged to no fake stack that stays.
    rintro a (hin | hin) ha
    · exact h.not_used_of_gone hrecycled hgone ha hin
    · obtain ⟨c, hc, hac⟩ := h.claimed_backed a hin
      have hne : c ≠ b := fun heq => hback (heq ▸ hc)
      exact Set.disjoint_left.mp (hgone c (h.backing_block c hc).1 hne) hac ha
  case recycled_held =>
    intro hfailing c hc hspec
    rcases h.recycled_held hfailing c hc.1 hspec with hin | hin
    · refine .inl ((h.mem_idle_drop _ _).mpr ⟨hin, fun heq => hc.2 ?_⟩)
      exact h.tiled.eq_of_begin hc.1 hb heq.2
    · exact .inr hin
  case quarantined_held => exact fun hfailing c hc => h.quarantined_held hfailing c hc.1

/-- A fake stack that goes away leaves a sound scene. -/
theorem unback (h : Sound failing marked s) (gone : Set Nat) (bytes : Nat → UInt8)
    (hb : b ∈ s.backing) (hgone : ∀ c ∈ s.blocks, c ≠ b → Disjoint c.extent gone)
    (hall : b.extent ⊆ gone) : Sound failing marked (s.unback b gone bytes) := by
  obtain ⟨hmem, hkind, hrecycled, hnot⟩ := h.backing_block b hb
  have hused : (s.unback b gone bytes).used = s.used :=
    used_sdiff (by rw [hrecycled]; decide) rfl
  have herase : ∀ c, c ∈ s.backing.erase b ↔ c ≠ b ∧ c ∈ s.backing :=
    fun c => h.backing_nodup.mem_erase_iff
  constructor
  case tiled => exact h.tiled.subset Set.sdiff_subset
  case fits => exact fun c hc => h.fits c hc.1
  case idle_nodup => exact h.idle_nodup
  case idle_block =>
    intro k p hp
    obtain ⟨c, hc, hbegin, hckind, hspec⟩ := h.idle_block k p hp
    refine ⟨c, ⟨hc, ?_⟩, hbegin, hckind, hspec⟩
    rintro rfl
    rw [← hckind, hkind, ← hbegin] at hp
    exact hnot hp
  case waiting_nodup => exact h.waiting_nodup
  case waiting_block =>
    intro e he
    obtain ⟨c, hc, hentry, hspec⟩ := h.waiting_block e he
    refine ⟨c, ⟨hc, ?_⟩, hentry, hspec⟩
    rintro rfl
    rw [hrecycled] at hspec
    exact nomatch hspec
  case backing_nodup => exact h.backing_nodup.erase _
  case backing_block =>
    intro c hc
    obtain ⟨hne, hc⟩ := (herase c).mp hc
    obtain ⟨hcmem, hspec⟩ := h.backing_block c hc
    exact ⟨⟨hcmem, hne⟩, hspec⟩
  case claimed_backed =>
    -- A claimed frame that stays lies in another fake stack.
    rintro a ⟨ha, hout⟩
    obtain ⟨c, hc, hac⟩ := h.claimed_backed a ha
    refine ⟨c, (herase c).mpr ⟨?_, hc⟩, hac⟩
    rintro rfl
    exact hout (hall hac)
  case exact =>
    intro hmarked
    rw [hused]
    show s.opened \ gone = s.used ∪ s.claimed \ gone
    rw [h.exact hmarked]
    ext a
    have hout := fun ha => h.not_used_of_gone hrecycled hgone (a := a) ha
    simp only [Set.mem_union, Set.mem_sdiff]
    tauto
  case recycled_held =>
    intro hfailing c hc hspec
    rcases h.recycled_held hfailing c hc.1 hspec with hin | hin
    · exact .inl hin
    · exact .inr ((herase c).mpr ⟨hc.2, hin⟩)
  case quarantined_held => exact fun hfailing c hc => h.quarantined_held hfailing c hc.1

/-! ## Fake stacks -/

/-- An idle block that backs a fake stack leaves a sound scene. -/
theorem back (h : Sound failing marked s) (hb : b ∈ s.blocks) (hidle : b.begin ∈ s.idle .large) :
    Sound failing marked (s.back b) := by
  obtain ⟨hkind, hrecycled⟩ := h.idle_spec hb hidle
  have hback : b ∉ s.backing := h.not_backing_of_idle (hkind ▸ hidle)
  have hmem : ∀ k p, p ∈ (s.back b).idle k ↔ p ∈ s.idle k ∧ ¬ (k = .large ∧ p = b.begin) :=
    fun k p => h.mem_idle_drop ∅ s.bytes
  constructor
  case tiled => exact h.tiled
  case fits => exact h.fits
  case idle_nodup =>
    intro k
    by_cases hk : k = .large
    · subst hk
      show (Function.update s.idle .large _ .large).Nodup
      rw [Function.update_self]
      exact (h.idle_nodup .large).erase _
    · show (Function.update s.idle .large _ k).Nodup
      rw [Function.update_of_ne hk]
      exact h.idle_nodup k
  case idle_block => exact fun k p hp => h.idle_block k p ((hmem k p).mp hp).1
  case waiting_nodup => exact h.waiting_nodup
  case waiting_block => exact h.waiting_block
  case backing_nodup => exact Multiset.nodup_cons.mpr ⟨hback, h.backing_nodup⟩
  case backing_block =>
    intro c hc
    rcases Multiset.mem_cons.mp hc with rfl | hc
    · exact ⟨hb, hkind, hrecycled, fun hin => ((hmem _ _).mp hin).2 ⟨rfl, rfl⟩⟩
    · obtain ⟨hcmem, hckind, hspec, hnot⟩ := h.backing_block c hc
      exact ⟨hcmem, hckind, hspec, fun hin => hnot ((hmem _ _).mp hin).1⟩
  case claimed_backed =>
    intro a ha
    obtain ⟨c, hc, hac⟩ := h.claimed_backed a ha
    exact ⟨c, Multiset.mem_cons_of_mem hc, hac⟩
  case exact =>
    -- The bytes of an idle block were closed anyway.
    intro hmarked
    show s.opened \ b.extent = s.used ∪ s.claimed
    rw [h.exact hmarked]
    refine sdiff_eq_left.mpr (Set.disjoint_left.mpr ?_)
    rintro a (hin | hin) ha
    · have hallocated := ((h.used_iff hb ha).mp hin).1
      rw [hrecycled] at hallocated
      exact nomatch hallocated
    · exact h.not_claimed hb hback ha hin
  case recycled_held =>
    intro hfailing c hc hspec
    by_cases heq : c = b
    · exact .inr (heq ▸ Multiset.mem_cons_self _ _)
    · rcases h.recycled_held hfailing c hc hspec with hin | hin
      · refine .inl ((hmem _ _).mpr ⟨hin, fun hbegin => heq ?_⟩)
        exact h.tiled.eq_of_begin hc hb hbegin.2
      · exact .inr (Multiset.mem_cons_of_mem hin)
  case quarantined_held => exact h.quarantined_held

/-- Frames that come and go in a fake stack leave a sound scene. -/
theorem reframe (h : Sound failing marked s) (freed taken : Set Nat) (hb : b ∈ s.backing)
    (hfreed : freed ⊆ b.extent) (htaken : taken ⊆ b.extent) :
    Sound failing marked (s.reframe freed taken) := by
  obtain ⟨hmem, -, hrecycled, -⟩ := h.backing_block b hb
  constructor
  case tiled => exact h.tiled
  case fits => exact h.fits
  case idle_nodup => exact h.idle_nodup
  case idle_block => exact h.idle_block
  case waiting_nodup => exact h.waiting_nodup
  case waiting_block => exact h.waiting_block
  case backing_nodup => exact h.backing_nodup
  case backing_block => exact h.backing_block
  case claimed_backed =>
    rintro a (ha | ha)
    · exact h.claimed_backed a ha.1
    · exact ⟨b, hb, htaken ha⟩
  case exact =>
    intro hmarked
    show s.opened \ freed ∪ taken = s.used ∪ (s.claimed \ freed ∪ taken)
    have hout : ∀ a ∈ freed, a ∉ s.used := by
      intro a ha hin
      have hallocated := ((h.used_iff hmem (hfreed ha)).mp hin).1
      rw [hrecycled] at hallocated
      exact nomatch hallocated
    rw [h.exact hmarked]
    ext a
    have houta := hout a
    simp only [Set.mem_union, Set.mem_sdiff]
    tauto
  case recycled_held => exact h.recycled_held
  case quarantined_held => exact h.quarantined_held

/-! ## Every move -/

/-- Bytes that are written leave a sound scene. -/
theorem put (h : Sound failing marked s) (lo n : Nat) (content : Nat → UInt8) :
    Sound failing marked (s.put lo n content) :=
  { h with }

/-- Marks leave a sound scene if marks are allowed. -/
theorem mark (h : Sound failing marked s) (hmarked : marked) (opened : Set Nat) :
    Sound failing marked { s with opened } :=
  { h with exact := fun hnot => absurd hmarked hnot }

/-- Blocks that are lost leave a sound scene if calls may fail. -/
theorem lose (h : Sound failing marked s) (hfailing : failing) (idle : BlockClass → Multiset Nat)
    (waiting : Multiset Quarantine.Entry) (hidle : ∀ k, idle k ≤ s.idle k)
    (hwaiting : waiting ≤ s.waiting) : Sound failing marked { s with idle, waiting } :=
  { h with
    idle_nodup := fun k => Multiset.nodup_of_le (hidle k) (h.idle_nodup k)
    idle_block := fun k p hp => h.idle_block k p (Multiset.mem_of_le (hidle k) hp)
    waiting_nodup := Multiset.nodup_of_le hwaiting h.waiting_nodup
    waiting_block := fun e he => h.waiting_block e (Multiset.mem_of_le hwaiting he)
    backing_block := fun b hb => by
      obtain ⟨hmem, hkind, hstate, hnot⟩ := h.backing_block b hb
      exact ⟨hmem, hkind, hstate, fun hin => hnot (Multiset.mem_of_le (hidle .large) hin)⟩
    recycled_held := fun hnot => absurd hfailing hnot
    quarantined_held := fun hnot => absurd hfailing hnot }

/-- Every move leads from a sound scene to a sound one. -/
theorem move (h : Sound failing marked s) {ds : List Deed} (hmove : Move failing marked s ds t) :
    Sound failing marked t := by
  cases hmove with
  | grow k size fresh hsize hnodup hold hnew => exact h.grow k size fresh hsize hnodup hold hnew
  | handOut b r content hb hidle hstate hfits => exact h.handOut r content hb hidle hstate hfits
  | retire b freed hb hstate => exact h.retire freed hb hstate
  | evict b hb hentry => exact h.evict hb hentry
  | drop b gone bytes hb hidle hgone hbytes => exact h.drop gone bytes hb hidle hgone
  | back b hb hidle => exact h.back hb hidle
  | unback b gone bytes hb hgone hall hbytes => exact h.unback gone bytes hb hgone hall
  | reframe b freed taken hb hfreed htaken => exact h.reframe freed taken hb hfreed htaken
  | put b lo n content hb hstate hin => exact h.put lo n content
  | mark hmarked opened => exact h.mark hmarked opened
  | lose hfailing idle waiting lost hidle hwaiting =>
      exact h.lose hfailing idle waiting hidle (hwaiting ▸ Multiset.le_add_left _ _)

/-- A chain of moves leads from a sound scene to a sound one. -/
theorem moves (h : Sound failing marked s) {ds : List Deed}
    (hmoves : Moves failing marked s ds t) : Sound failing marked t := by
  induction hmoves with
  | none => exact h
  | more first _ ih => exact ih (h.move first)

end Sound

end Scene

end GuardedHeap
