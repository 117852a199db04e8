import GuardedHeap.Proofs.Scene.Sound

/-! # Deeds — what a user can know of a scene

    The chunks of a scene follow from the deeds alone (`chunks_moves`), and
    so do the bytes that users have (`bytes_moves`): whatever else the
    moves between two scenes were, they kept both.  What a single deed asks
    of the chunks that there are is `Deed.Allowed`. -/

namespace GuardedHeap

/-- The blocks that a user has, or had until the quarantine lets go of them. -/
def Scene.chunks (s : Scene) : Set Block :=
  {b | b ∈ s.blocks ∧ b.record.state ≠ .recycled}

namespace Deed

/-- The chunks after a deed. -/
def chunks : Deed → Set Block → Set Block
  | handOut b _, cs => insert b cs
  | retire b, cs => insert b {c | c ∈ cs ∧ c.begin ≠ b.begin}
  | evict e, cs => {c | c ∈ cs ∧ c.begin ≠ e.block}
  | put .., cs => cs
  | lose .., cs => cs

/-- The bytes after a deed. -/
def bytes : Deed → (Nat → UInt8) → Nat → UInt8
  | handOut b content, old => overlay b.record.userBegin b.record.requestedSize content old
  | put lo n content, old => overlay lo n content old
  | _, old => old

/-- What a deed asks of the chunks before it. -/
def Allowed (cs : Set Block) : Deed → Prop
  | handOut b _ => b.record.state = .allocated ∧ b.Fits ∧ ∀ c ∈ cs, Disjoint c.extent b.extent
  | retire b => ∃ c ∈ cs, c.record.state = .allocated
      ∧ b = c.withRecord { c.record with state := .quarantined, freed := b.record.freed }
  | evict e => ∃ c ∈ cs, c.record.state = .quarantined ∧ e = c.entry
  | put lo n _ => ∃ c ∈ cs, c.record.state = .allocated ∧ Set.Ico lo (lo + n) ⊆ c.user
  | lose _ => True

/-- The deed gives no chunk to a user. -/
def Withholds : Deed → Prop
  | handOut .. => False
  | _ => True

/-- The deed loses no freed chunk. -/
def Keeps : Deed → Prop
  | lose es => es = 0
  | _ => True

/-- The deed tells nothing about where a call came from. -/
def Unsigned : Deed → Prop
  | handOut .. | retire _ => False
  | _ => True

/-- A call that came from `allocated` hands a chunk out before it does anything else, if at all, and
    the chunks that it frees were freed from `freed`, by where they begin. -/
structure Signed (allocated : Origin) (freed : Nat → Origin) (ds : List Deed) : Prop where
  handOut : ∀ b content, handOut b content ∈ ds →
    b.record.allocated = allocated ∧ ∃ es, ds = handOut b content :: es
  retire : ∀ b, retire b ∈ ds → b.record.freed = freed b.record.userBegin

namespace Signed

variable {allocated : Origin} {freed : Nat → Origin} {ds es : List Deed}

theorem of_unsigned (h : ∀ d ∈ ds, d.Unsigned) : Signed allocated freed ds :=
  ⟨fun _ _ hd => (h _ hd).elim, fun _ hd => (h _ hd).elim⟩

/-- More deeds that hand nothing out are signed if what they free is. -/
theorem append (h : Signed allocated freed ds) (hes : ∀ d ∈ es, d.Withholds)
    (hretire : ∀ b, Deed.retire b ∈ es → b.record.freed = freed b.record.userBegin) :
    Signed allocated freed (ds ++ es) where
  handOut b content hd := by
    rcases List.mem_append.mp hd with hd | hd
    · obtain ⟨hallocated, rest, rfl⟩ := h.handOut b content hd
      exact ⟨hallocated, rest ++ es, rfl⟩
    · exact (hes _ hd).elim
  retire b hd := (List.mem_append.mp hd).elim (h.retire b) (hretire b)

/-- A chunk that is freed is signed. -/
theorem retire_cons {b : Block} (hb : b.record.freed = freed b.record.userBegin)
    (h : ∀ d ∈ es, d.Unsigned) : Signed allocated freed (Deed.retire b :: es) where
  handOut c content hd := by
    rcases List.mem_cons.mp hd with hd | hd
    · exact nomatch hd
    · exact (h _ hd).elim
  retire c hd := by
    rcases List.mem_cons.mp hd with hd | hd
    · cases hd
      exact hb
    · exact (h _ hd).elim

theorem unsigned_cons {d : Deed} (h : Signed allocated freed es) (hd : d.Unsigned)
    (hes : ∀ d ∈ es, d.Withholds) : Signed allocated freed (d :: es) where
  handOut b content hb := by
    rcases List.mem_cons.mp hb with rfl | hb
    · exact hd.elim
    · exact (hes _ hb).elim
  retire b hb := by
    rcases List.mem_cons.mp hb with rfl | hb
    · exact hd.elim
    · exact h.retire b hb

/-- A chunk that is handed out first is signed. -/
theorem handOut_cons {b : Block} {content : Nat → UInt8} (hb : b.record.allocated = allocated)
    (h : Signed allocated freed es) (hes : ∀ d ∈ es, d.Withholds) :
    Signed allocated freed (Deed.handOut b content :: es) where
  handOut c content' hd := by
    rcases List.mem_cons.mp hd with hd | hd
    · cases hd
      exact ⟨hb, es, rfl⟩
    · exact (hes _ hd).elim
  retire c hd := (List.mem_cons.mp hd).elim nofun (h.retire c)

end Signed

theorem unsigned_evicts (es : List Quarantine.Entry) : ∀ d ∈ es.map evict, d.Unsigned :=
  fun _ hd => (List.mem_map.mp hd).elim fun _ h => h.2 ▸ trivial

/-- What tells nothing about calls gives no chunk to a user. -/
theorem Unsigned.withholds {d : Deed} (h : d.Unsigned) : d.Withholds := by
  cases d with
  | handOut => exact h.elim
  | _ => trivial

theorem keeps_evicts (es : List Quarantine.Entry) : ∀ d ∈ es.map evict, d.Keeps :=
  fun _ hd => (List.mem_map.mp hd).elim fun _ h => h.2 ▸ trivial

/-- The chunks after some deeds. -/
def allChunks (ds : List Deed) (cs : Set Block) : Set Block :=
  ds.foldl (fun cs d => d.chunks cs) cs

/-- The bytes after some deeds. -/
def allBytes (ds : List Deed) (old : Nat → UInt8) : Nat → UInt8 :=
  ds.foldl (fun old d => d.bytes old) old

end Deed

variable {failing marked : Prop} {s t : Scene} {ds es : List Deed} {b c : Block}

/-- No move has more than one deed. -/
theorem Move.deeds_eq (h : Move failing marked s ds t) : ds = [] ∨ ∃ d, ds = [d] := by
  cases h with
  | handOut | retire | evict | put | lose => exact .inr ⟨_, rfl⟩
  | grow | drop | back | unback | reframe | mark => exact .inl rfl

/-- The first deed of a chain of moves is that of one move, with none before it. -/
theorem Moves.first_deed {d : Deed} (h : Moves failing marked s (d :: es) t) :
    ∃ u v, Moves failing marked s [] u ∧ Move failing marked u [d] v
      ∧ Moves failing marked v es t := by
  generalize hds : d :: es = ds at h
  induction h with
  | none => exact nomatch hds
  | @more s u t fs gs first rest ih =>
      cases fs with
      | nil =>
          obtain ⟨v, w, hbefore, hmove, hafter⟩ := ih hds
          exact ⟨v, w, .more first hbefore, hmove, hafter⟩
      | cons f fs =>
          rw [List.cons_append] at hds
          obtain ⟨rfl, rfl⟩ := List.cons.inj hds
          obtain rfl : fs = [] := by
            rcases first.deeds_eq with heq | ⟨d', heq⟩
            · exact nomatch heq
            · exact (List.cons.inj heq).2
          exact ⟨s, u, .none s, first, rest⟩

/-- A chain of moves can be parted between any two deeds. -/
theorem Moves.split (h : Moves failing marked s (ds ++ es) t) :
    ∃ u, Moves failing marked s ds u ∧ Moves failing marked u es t := by
  induction ds generalizing s with
  | nil => exact ⟨s, .none s, h⟩
  | cons d ds ih =>
      obtain ⟨u, v, hbefore, hmove, hafter⟩ := h.first_deed
      obtain ⟨w, hfirst, hrest⟩ := ih hafter
      have hall := hbefore.trans (Moves.more hmove hfirst)
      exact ⟨w, hall, hrest⟩

namespace Scene.Sound

/-! ## Chunks -/

theorem mem_chunks_of_exchange (h : Sound failing marked s) (hb : b ∈ s.blocks) {r : ChunkRecord}
    (hs : t.blocks = exchange s.blocks b (b.withRecord r)) :
    c ∈ t.chunks ↔ c = b.withRecord r ∧ r.state ≠ .recycled
      ∨ c ∈ s.chunks ∧ c.begin ≠ b.begin := by
  have hne : c ∈ s.blocks → (c ≠ b ↔ c.begin ≠ b.begin) := fun hc =>
    ⟨fun hne heq => hne (h.tiled.eq_of_begin hc hb heq), fun hne heq => hne (by rw [heq])⟩
  unfold chunks
  rw [Set.mem_ofPred_eq, hs, mem_exchange]
  constructor
  · rintro ⟨rfl | ⟨hc, hcb⟩, hstate⟩
    · exact .inl ⟨rfl, hstate⟩
    · exact .inr ⟨⟨hc, hstate⟩, (hne hc).mp hcb⟩
  · rintro (⟨rfl, hstate⟩ | ⟨⟨hc, hstate⟩, hbegin⟩)
    · exact ⟨.inl rfl, hstate⟩
    · exact ⟨.inr ⟨hc, (hne hc).mpr hbegin⟩, hstate⟩

/-- Blocks that no user has are no chunks, so the chunks stay when they go. -/
theorem chunks_sdiff (hstate : b.record.state = .recycled) (hs : t.blocks = s.blocks \ {b}) :
    t.chunks = s.chunks := by
  ext c
  unfold chunks
  rw [Set.mem_ofPred_eq, Set.mem_ofPred_eq, hs, Set.mem_sdiff, Set.mem_singleton_iff]
  constructor
  · exact fun ⟨⟨hc, _⟩, hc'⟩ => ⟨hc, hc'⟩
  · refine fun ⟨hc, hc'⟩ => ⟨⟨hc, ?_⟩, hc'⟩
    rintro rfl
    exact hc' hstate

/-- A move changes the chunks as its deeds say, and its deeds are allowed. -/
theorem chunks_move (h : Sound failing marked s) (hmove : Move failing marked s ds t) :
    t.chunks = Deed.allChunks ds s.chunks ∧ ∀ d ∈ ds, d.Allowed s.chunks := by
  cases hmove with
  | grow k size fresh hsize hnodup hold hnew =>
      refine ⟨Set.ext fun c => ?_, nofun⟩
      constructor
      · rintro ⟨hc | ⟨p, -, rfl⟩, hstate⟩
        · exact ⟨hc, hstate⟩
        · exact absurd rfl hstate
      · exact fun ⟨hc, hstate⟩ => ⟨.inl hc, hstate⟩
  | handOut b r content hb hidle hstate hfits =>
      have hrecycled := (h.idle_spec hb hidle).2
      -- The block was no chunk before it was handed out.
      have hoff : ∀ c ∈ s.chunks, c ≠ b := by
        rintro c ⟨-, hc⟩ rfl
        exact hc hrecycled
      refine ⟨Set.ext fun c => ?_, List.forall_mem_singleton.mpr ⟨hstate, hfits, fun c hc => ?_⟩⟩
      · rw [h.mem_chunks_of_exchange hb rfl]
        constructor
        · rintro (⟨rfl, -⟩ | ⟨hc, -⟩)
          · exact .inl rfl
          · exact .inr hc
        · rintro (rfl | hc)
          · exact .inl ⟨rfl, by rw [hstate]; decide⟩
          · exact .inr ⟨hc, fun heq => hoff c hc (h.tiled.eq_of_begin hc.1 hb heq)⟩
      · exact h.tiled.apart c hc.1 b hb (hoff c hc)
  | retire b freed hb hstate =>
      have hlive : b.record.state ≠ .recycled := by rw [hstate]; decide
      refine ⟨Set.ext fun c => ?_,
        List.forall_mem_singleton.mpr ⟨b, ⟨hb, hlive⟩, hstate, rfl⟩⟩
      rw [h.mem_chunks_of_exchange hb rfl]
      exact or_congr (and_iff_left nofun) Iff.rfl
  | evict b hb hentry =>
      have hquarantined := (h.waiting_spec hb hentry rfl).2
      have hlive : b.record.state ≠ .recycled := by rw [hquarantined]; decide
      refine ⟨Set.ext fun c => ?_,
        List.forall_mem_singleton.mpr ⟨b, ⟨hb, hlive⟩, hquarantined, rfl⟩⟩
      rw [h.mem_chunks_of_exchange hb rfl]
      exact or_iff_right fun hc => hc.2 rfl
  | drop b gone bytes hb hidle hgone hbytes =>
      exact ⟨chunks_sdiff (h.idle_spec hb hidle).2 rfl, nofun⟩
  | back b hb hidle => exact ⟨rfl, nofun⟩
  | unback b gone bytes hb hgone hall hbytes =>
      exact ⟨chunks_sdiff (h.backing_block b hb).2.2.1 rfl, nofun⟩
  | reframe b freed taken hb hfreed htaken => exact ⟨rfl, nofun⟩
  | put b lo n content hb hstate hin =>
      have hlive : b.record.state ≠ .recycled := by rw [hstate]; decide
      exact ⟨rfl, List.forall_mem_singleton.mpr ⟨b, ⟨hb, hlive⟩, hstate, hin⟩⟩
  | mark hmarked opened => exact ⟨rfl, nofun⟩
  | lose hfailing idle waiting lost hidle hwaiting =>
      exact ⟨rfl, List.forall_mem_singleton.mpr trivial⟩

/-- Moves change the chunks as their deeds say. -/
theorem chunks_moves (h : Sound failing marked s) (hmoves : Moves failing marked s ds t) :
    t.chunks = Deed.allChunks ds s.chunks := by
  induction hmoves with
  | none => rfl
  | more first _ ih =>
      rw [ih (h.move first), (h.chunks_move first).1]
      exact (List.foldl_append ..).symm

/-- The first deed of a chain of moves is allowed. -/
theorem allowed_first {d : Deed} (h : Sound failing marked s)
    (hmoves : Moves failing marked s (d :: es) t) : d.Allowed s.chunks := by
  obtain ⟨u, v, hbefore, hmove, -⟩ := hmoves.first_deed
  have hsame : u.chunks = s.chunks := h.chunks_moves hbefore
  rw [← hsame]
  exact ((h.moves hbefore).chunks_move hmove).2 d (List.mem_singleton.mpr rfl)

/-- Chunks that begin at one address are one chunk. -/
theorem chunk_unique (h : Sound failing marked s) (hb : b ∈ s.chunks) (hc : c ∈ s.chunks)
    (huser : b.record.userBegin = c.record.userBegin) : b = c := by
  have hin := (h.fits b hb.1 hb.2).userBegin_mem
  rw [huser] at hin
  exact h.tiled.eq_of_mem hb.1 hc.1 hin (h.fits c hc.1 hc.2).userBegin_mem

/-- A chunk stays with its user until it is freed. -/
theorem allocated_stays (h : Sound failing marked s) (hmoves : Moves failing marked s ds t)
    (hb : b ∈ s.chunks) (hstate : b.record.state = .allocated)
    (hkept : ∀ r, .retire r ∈ ds → r.begin ≠ b.begin) : b ∈ t.chunks := by
  induction hmoves with
  | none => exact hb
  | @more s u t ds es first rest ih =>
      obtain ⟨hchunks, hallowed⟩ := h.chunks_move first
      refine ih (h.move first) ?_ fun r hr => hkept r (List.mem_append_right _ hr)
      rw [hchunks]
      rcases first.deeds_eq with rfl | ⟨d, rfl⟩
      · exact hb
      have hallowed := hallowed d (List.mem_singleton.mpr rfl)
      cases d with
      | handOut c content => exact Set.mem_insert_of_mem _ hb
      | retire c =>
          exact Set.mem_insert_of_mem _
            ⟨hb, fun heq => hkept c (List.mem_append_left _ (List.mem_singleton.mpr rfl)) heq.symm⟩
      | evict e =>
          obtain ⟨c, hc, hquarantined, rfl⟩ := hallowed
          refine ⟨hb, fun heq => ?_⟩
          obtain rfl := h.tiled.eq_of_begin hb.1 hc.1 heq
          rw [hstate] at hquarantined
          exact nomatch hquarantined
      | put lo n content => exact hb
      | lose es => exact hb

/-- Where no user has a chunk, none has one unless a block is handed out. -/
theorem stays_free (h : Sound failing marked s) (hmoves : Moves failing marked s ds t)
    (hds : ∀ d ∈ ds, d.Withholds) {p : Nat}
    (hfree : ∀ c ∈ s.chunks, c.record.userBegin = p → c.record.state ≠ .allocated) :
    ∀ c ∈ t.chunks, c.record.userBegin = p → c.record.state ≠ .allocated := by
  induction hmoves with
  | none => exact hfree
  | @more s u t ds es first rest ih =>
      obtain ⟨hchunks, hallowed⟩ := h.chunks_move first
      refine ih (h.move first) (fun d hd => hds d (List.mem_append_right _ hd)) ?_
      rw [hchunks]
      rcases first.deeds_eq with rfl | ⟨d, rfl⟩
      · exact hfree
      have hallowed := hallowed d (List.mem_singleton.mpr rfl)
      cases d with
      | handOut => exact (hds _ (List.mem_append_left _ (List.mem_singleton.mpr rfl))).elim
      | retire b =>
          obtain ⟨c, -, -, hb⟩ := hallowed
          rintro d (rfl | ⟨hd, -⟩) huser
          · rw [hb]
            exact nofun
          · exact hfree d hd huser
      | evict e => exact fun c hc huser => hfree c hc.1 huser
      | put => exact hfree
      | lose => exact hfree

/-- A chunk that was freed is with no user until a block is handed out again. -/
theorem retired_gone (h : Sound failing marked s)
    (hmoves : Moves failing marked s (ds ++ .retire b :: es) t) (hes : ∀ d ∈ es, d.Withholds) :
    ∀ c ∈ t.chunks, c.record.userBegin = b.record.userBegin → c.record.state ≠ .allocated := by
  obtain ⟨u, hbefore, hafter⟩ := hmoves.split
  have hsound := h.moves hbefore
  obtain ⟨c, hc, -, hb⟩ := hsound.allowed_first hafter
  have hafter : Moves failing marked u ([.retire b] ++ es) t := hafter
  obtain ⟨v, hretire, hrest⟩ := hafter.split
  refine (hsound.moves hretire).stays_free hrest hes ?_
  rw [hsound.chunks_moves hretire]
  rintro d (rfl | ⟨hd, hne⟩) huser
  · rw [hb]
    exact nofun
  · have hsame : d = c := by
      refine hsound.chunk_unique hd hc (huser.trans ?_)
      rw [hb]
      rfl
    refine absurd ?_ hne
    rw [hsame, hb]
    rfl

/-- Every freed chunk still waits for its turn, if none was lost. -/
theorem held_moves (h : Sound failing marked s) (hmoves : Moves failing marked s ds t)
    (hds : ∀ d ∈ ds, d.Keeps)
    (hheld : ∀ b ∈ s.chunks, b.record.state = .quarantined → b.entry ∈ s.waiting) :
    ∀ b ∈ t.chunks, b.record.state = .quarantined → b.entry ∈ t.waiting := by
  induction hmoves with
  | none => exact hheld
  | @more s u t ds es first rest ih =>
      refine ih (h.move first) (fun d hd => hds d (List.mem_append_right _ hd)) ?_
      obtain ⟨hchunks, -⟩ := h.chunks_move first
      rw [hchunks]
      cases first with
      | handOut b r content hb hidle hstate hfits =>
          rintro c (rfl | hc) hquarantined
          · exact nomatch hstate.symm.trans hquarantined
          · exact hheld c hc hquarantined
      | retire b freed hb hstate =>
          rintro c (rfl | ⟨hc, -⟩) hquarantined
          · exact Multiset.mem_cons_self _ _
          · exact Multiset.mem_cons_of_mem (hheld c hc hquarantined)
      | evict b hb hentry =>
          rintro c ⟨hc, hne⟩ hquarantined
          refine (Multiset.mem_erase_of_ne fun heq => hne ?_).mpr (hheld c hc hquarantined)
          exact congrArg Quarantine.Entry.block heq
      | lose hfailing idle waiting lost hidle hwaiting =>
          obtain rfl : lost = 0 := hds (.lose lost) (List.mem_append_left _ (List.mem_singleton.mpr rfl))
          rw [zero_add] at hwaiting
          subst hwaiting
          exact hheld
      | grow | drop | back | unback | reframe | put | mark => exact hheld

/-! ## Bytes -/

theorem overlay_congr {lo n a : Nat} {content new old : Nat → UInt8}
    (h : ¬ (lo ≤ a ∧ a < lo + n) → new a = old a) :
    overlay lo n content new a = overlay lo n content old a := by
  unfold overlay
  by_cases ha : lo ≤ a ∧ a < lo + n
  · rw [if_pos ha, if_pos ha]
  · rw [if_neg ha, if_neg ha]
    exact h ha

/-- A move puts the bytes of its deeds, and keeps all others that users have. -/
theorem bytes_move (h : Sound failing marked s) (hmove : Move failing marked s ds t)
    {old : Nat → UInt8} (hold : ∀ a ∈ s.used, s.bytes a = old a) :
    ∀ a ∈ t.used, t.bytes a = Deed.allBytes ds old a := by
  cases hmove with
  | grow k size fresh hsize hnodup hfresh hnew =>
      rintro a ⟨c, hc | ⟨p, -, rfl⟩, hstate, ha⟩
      · exact hold a ⟨c, hc, hstate, ha⟩
      · exact nomatch hstate
  -- The new bytes of the chunk are those of the deed; others in use lie elsewhere.
  | handOut b r content hb hidle hstate hfits =>
      intro a ha
      rw [h.used_exchange hb (t := s.handOut b r content) rfl] at ha
      refine overlay_congr fun hout => ?_
      rcases ha with ha | ha
      · exact hold a ha.1
      · exact absurd ha.2 hout
  | retire b freed hb hstate =>
      intro a ha
      rw [h.used_exchange hb (t := s.retire b _) rfl] at ha
      rcases ha with ha | ha
      · exact hold a ha.1
      · exact nomatch ha.1
  | evict b hb hentry =>
      intro a ha
      rw [h.used_exchange hb (t := s.evict b.entry b) rfl] at ha
      rcases ha with ha | ha
      · exact hold a ha.1
      · exact nomatch ha.1
  | drop b gone bytes hb hidle hgone hbytes =>
      have hrecycled := (h.idle_spec hb hidle).2
      intro a ha
      rw [used_sdiff (t := s.drop b gone bytes) (by rw [hrecycled]; decide) rfl] at ha
      refine Eq.trans ?_ (hold a ha)
      -- The bytes that go away were in use by nobody.
      exact hbytes a fun hin => h.not_used_of_gone hrecycled hgone hin ha
  | back b hb hidle => exact hold
  | unback b gone bytes hb hgone hall hbytes =>
      have hrecycled := (h.backing_block b hb).2.2.1
      intro a ha
      rw [used_sdiff (t := s.unback b gone bytes) (by rw [hrecycled]; decide) rfl] at ha
      refine Eq.trans ?_ (hold a ha)
      exact hbytes a fun hin => h.not_used_of_gone hrecycled hgone hin ha
  | reframe b freed taken hb hfreed htaken => exact hold
  | put b lo n content hb hstate hin =>
      exact fun a ha => overlay_congr fun _ => hold a ha
  | mark hmarked opened => exact hold
  | lose hfailing idle waiting lost hidle hwaiting => exact hold

/-- The bytes that users have are those that the deeds put there. -/
theorem bytes_moves (h : Sound failing marked s) (hmoves : Moves failing marked s ds t)
    {old : Nat → UInt8} (hold : ∀ a ∈ s.used, s.bytes a = old a) :
    ∀ a ∈ t.used, t.bytes a = Deed.allBytes ds old a := by
  induction hmoves generalizing old with
  | none => exact hold
  | more first _ ih =>
      have := ih (h.move first) (h.bytes_move first hold)
      intro a ha
      rw [this a ha]
      exact congrFun (List.foldl_append ..).symm a

end Scene.Sound

end GuardedHeap
