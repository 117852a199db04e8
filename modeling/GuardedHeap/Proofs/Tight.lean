import GuardedHeap.Proofs.Heap.Chains
import GuardedHeap.Proofs.Sanitizer.Threads

/-! # Tightness — nothing of the secondary range is ever lost

    Every address of the range is free or in the mapping of a live block,
    and the links and the counters tell of these blocks and no others
    (`Large.Tight`): a span that is taken becomes a mapping, and a mapping
    that is released becomes a span.  So when no block is left the range is as it was made
    (`Large.Tight.eq_new`), whatever spans were cut and merged meanwhile. -/

namespace GuardedHeap

open Act
open Quarantine (Entry)

namespace Spans

/-- If all addresses are free no span is cut off below the bump pointer, which is back at the
    beginning. -/
theorem WF.eq_new {lo : Nat} {s : Spans} (h : WF lo s) (hfree : ∀ a, lo ≤ a → a < s.past → s.Free a) :
    s = new lo s.past := by
  have hle := h.bump_le
  have hlo := h.chain.le
  -- Below the bump pointer only spans are free, and the first one would have to end at the pointer.
  have hcovered : ∀ a, lo ≤ a → a < s.bump → Covered s.free a := fun a ha hb =>
    (hfree a ha (by omega)).resolve_right fun hin => by omega
  have hnone : s.free = [] := by
    by_contra hne
    obtain ⟨x, rest, hsplit⟩ := List.exists_cons_of_ne_nil hne
    have hchain := h.chain
    have hspans := h.apart.spans
    rw [hsplit] at hchain hspans hcovered
    have hgap := h.apart.bump x (hsplit ▸ List.mem_cons_self)
    obtain ⟨hbegin, hsolid, -⟩ := hchain
    have hlt := hsolid.lt_past
    obtain ⟨y, hy, hcovers⟩ := hcovered x.past (by omega) hgap
    rcases List.mem_cons.mp hy with rfl | hy
    · exact Nat.lt_irrefl _ hcovers.2
    · have := (List.pairwise_cons.mp hspans).1 y hy
      exact absurd hcovers.1 (by omega)
  have hbump : s.bump = lo := by
    by_contra hne
    have hcover := hcovered lo (Nat.le_refl _) (by omega)
    rw [hnone] at hcover
    exact covered_nil hcover
  cases s
  simp only at hnone hbump
  rw [hnone, hbump]
  rfl

end Spans

namespace Large

/-- The counters are those of the live blocks. -/
structure Counted (l : Large) : Prop where
  count : l.count = l.bodies.length
  totalMapped : l.totalMapped = (l.bodies.map (·.mapSize)).sum

/-- The links and the counters are those of the live blocks, and what is not free is mapped for one of
    them. -/
structure Tight (l : Large) : Prop where
  linked : l.Linked
  count : l.count = l.bodies.length
  totalMapped : l.totalMapped = (l.bodies.map (·.mapSize)).sum
  covered : ∀ a, l.begin ≤ a → a < l.past → l.spans.Free a ∨ ∃ b ∈ l.bodies, a ∈ b.mapping

variable {l : Large} {b : LargeBlock} {spans : Spans}

/-- The live blocks are one block and those at other addresses. -/
theorem WF.perm_unlink (hwf : l.WF) (hb : b.body ∈ l.bodies) :
    l.bodies.Perm (b.body :: (l.unlink b).bodies) := by
  have hbodies : (l.unlink b).bodies = l.bodies.filter (·.user ≠ b.body.user) := bodies_unlink
  rw [hbodies]
  have hfirst := Sanitizer.perm_cons_filter hwf.users_nodup hb
  refine hfirst.trans (.of_eq (congrArg _ (List.filter_congr fun c _ => ?_)))
  rw [Bool.eq_iff_iff, bne_iff_ne, decide_eq_true_eq]

namespace Counted

theorem new (begin size : Nat) : (Large.new begin size).Counted :=
  ⟨rfl, rfl⟩

/-- Another record counts nothing. -/
theorem setRecord (h : l.Counted) (p : Nat) (r : ChunkRecord) : (l.setRecord p r).Counted where
  count := by
    rw [Heap.bodies_setRecord, List.length_map]
    exact h.count
  totalMapped := by
    rw [Heap.bodies_setRecord, List.map_map]
    refine h.totalMapped.trans (congrArg List.sum (List.map_congr_left fun c _ => ?_))
    rw [Function.comp_apply]
    split <;> rfl

/-- A block that is linked is counted. -/
theorem link (h : l.Counted) (b : LargeBlock) : (l.link b).Counted where
  count := by
    rw [bodies_link]
    exact congrArg (· + 1) h.count
  totalMapped := by
    rw [bodies_link, List.map_cons, List.sum_cons, Nat.add_comm]
    exact congrArg (· + b.mapSize) h.totalMapped

/-- A block that is unlinked is counted no more. -/
theorem unlink (h : l.Counted) (hwf : l.WF) (hb : b.body ∈ l.bodies) : (l.unlink b).Counted where
  count := by
    show l.count - 1 = _
    rw [h.count, (hwf.perm_unlink hb).length_eq]
    rfl
  totalMapped := by
    show l.totalMapped - b.mapSize = _
    rw [h.totalMapped, ((hwf.perm_unlink hb).map _).sum_eq, List.map_cons, List.sum_cons]
    exact Nat.add_sub_cancel_left ..

end Counted

namespace Tight

theorem counted (h : l.Tight) : l.Counted :=
  ⟨h.count, h.totalMapped⟩

theorem new (begin size : Nat) : (Large.new begin size).Tight :=
  ⟨.new begin size, rfl, rfl, fun _ ha hb => .inl (.inr ⟨ha, hb⟩)⟩

theorem setRecord (h : l.Tight) (p : Nat) (r : ChunkRecord) : (l.setRecord p r).Tight :=
  { h.counted.setRecord p r with
    linked := h.linked.setRecord p r
    covered := fun a ha hb => by
      refine (h.covered a ha hb).imp_right fun ⟨c, hc, hin⟩ => ?_
      rw [Heap.bodies_setRecord]
      exact ⟨_, List.mem_map_of_mem hc, by rwa [Heap.mapping_record]⟩ }

/-- A span that is taken is the mapping of a new block. -/
theorem link (h : l.Tight)
    (hspans : ∀ a, l.spans.Free a → spans.Free a ∨ a ∈ b.mapping) :
    (({ l with spans } : Large).link b).Tight :=
  { Counted.link (l := { l with spans }) ⟨h.count, h.totalMapped⟩ b with
    linked := Linked.link (l := { l with spans }) ⟨h.linked.head, h.linked.chained⟩
    covered := fun a ha hb => by
      rw [bodies_link]
      rcases h.covered a ha hb with hfree | ⟨c, hc, hin⟩
      · exact (hspans a hfree).imp_right fun hin => ⟨b.body, List.mem_cons_self, hin⟩
      · exact .inr ⟨c, List.mem_cons_of_mem _ hc, hin⟩ }

/-- The mapping of a block that leaves is a span again. -/
theorem unlink (h : l.Tight) (hwf : l.WF) (hpos : 0 < l.begin) (hb : b ∈ l.blocks)
    (hspans : ∀ a, l.spans.Free a ∨ a ∈ b.mapping → spans.Free a) :
    ({ l.unlink b with spans } : Large).Tight := by
  have hmem : b.body ∈ l.bodies := List.mem_map_of_mem hb
  have hlinked := h.linked.unlink hwf hpos hb
  have hcounted := h.counted.unlink hwf hmem
  refine ⟨⟨hlinked.head, hlinked.chained⟩, hcounted.count, hcounted.totalMapped, fun a ha hb' => ?_⟩
  rcases h.covered a ha hb' with hfree | ⟨c, hc, hin⟩
  · exact .inl (hspans a (.inl hfree))
  · rcases List.mem_cons.mp ((hwf.perm_unlink hmem).mem_iff.mp hc) with rfl | hc
    · exact .inl (hspans a (.inr hin))
    · exact .inr ⟨c, hc, hin⟩

/-- Without live blocks the secondary range is as it was made. -/
theorem eq_new (h : l.Tight) (hwf : l.WF) (hnone : l.bodies = []) :
    l.blocks = [] ∧ l.head = 0 ∧ l.count = 0 ∧ l.totalMapped = 0
      ∧ l.spans = Spans.new l.begin l.past := by
  have hcount := h.count
  have htotal := h.totalMapped
  have hhead := h.linked.head
  have hblocks := List.map_eq_nil_iff.mp hnone
  rw [hnone] at hcount htotal
  rw [hblocks] at hhead
  refine ⟨hblocks, hhead, hcount, htotal, ?_⟩
  rw [← hwf.spans_past]
  refine hwf.spans.eq_new fun a ha hb => (h.covered a ha (hwf.spans_past ▸ hb)).resolve_right ?_
  rw [hnone]
  exact fun ⟨c, hc, _⟩ => nomatch hc

end Tight

end Large

namespace Heap

variable {h t : Heap} {size alignment p c : Nat}

/-- A record changes nothing else about the large blocks. -/
theorem large_setRecord (htight : h.large.Tight) (block : Nat) (r : ChunkRecord) :
    (h.setRecord block r).large.Tight := by
  unfold setRecord
  split
  · split
    · unfold setSlotRecord
      split <;> exact htight
    · exact htight
  · exact htight.setRecord block r

/-- What is done on pages and on the shadow does not concern large blocks. -/
theorem fixes_large_onPages {α : Type} {act : Act MapError Pages α} : Fixes (·.large) (onPages act) :=
  Fixes.mapError (fixes_onPart fun _ _ => rfl)

theorem fixes_large_onShadow {α ε : Type} {f : ShadowError → ε} {act : Act ShadowError Shadow α} :
    Fixes (·.large) (onShadow f act) :=
  Fixes.mapError (fixes_onPart fun _ _ => rfl)

/-- Regions that grow leave the large blocks alone. -/
theorem fixes_large_commitRegion (c : Nat) (reach : Reach) : Fixes (·.large) (commitRegion c reach) := by
  refine fixes_get_bind fun h => ?_
  refine ((fixes_region.comp (g := fun h : Heap => h.large)).bind fun r => ?_) h
  refine fixes_large_onPages.bind fun _ => fixes_large_onPages.bind fun _ => ?_
  refine fixes_ite (fixes_large_onShadow.bind fun _ => ?_) ?_
  all_goals exact fixes_modify fun _ => rfl

/-- Mapping a large block links it, in a span that was free. -/
theorem of_allocateLarge (hact : allocateLarge size alignment h = .ok p t) :
    ∃ mapSize mapBegin spans, mapSizeFor? size alignment = some mapSize
      ∧ h.large.spans.alloc mapSize = some (mapBegin, spans)
      ∧ t.large = ({ h.large with spans } : Large).link
        { user := p, size, mapBegin, mapSize, prev := 0, next := 0, record := {} } := by
  obtain ⟨mapSize, _, hread, hact⟩ := bind_eq_ok.mp hact
  obtain ⟨hmapSize, rfl⟩ := orRefuse_eq_ok.mp hread
  obtain ⟨mapBegin, _, htake, hact⟩ := bind_eq_ok.mp hact
  obtain ⟨spans, halloc, rfl⟩ := of_takeSpan htake
  obtain ⟨result, u, hcommit, hact⟩ := bind_eq_ok.mp hact
  have hu : u.large = { h.large with spans } := fixes_large_onPages.attempt.of_ok hcommit
  cases result with
  | error e =>
      obtain ⟨_, _, -, hact⟩ := bind_eq_ok.mp hact
      exact (refuse_eq_ok.mp hact).elim
  | ok _ =>
      obtain ⟨_, v, hmark, hact⟩ := bind_eq_ok.mp hact
      have hv : v.large = u.large := fixes_large_onShadow.of_ok hmark
      obtain ⟨user, _, huser, hact⟩ := bind_eq_ok.mp hact
      obtain ⟨-, rfl⟩ := liftM_eq_ok.mp huser
      obtain ⟨_, _, hlink, hact⟩ := bind_eq_ok.mp hact
      obtain ⟨rfl, rfl⟩ := pure_eq_ok.mp hact
      refine ⟨mapSize, mapBegin, spans, hmapSize, halloc, ?_⟩
      rw [← modify_eq_ok.mp hlink, ← hu, ← hv]

/-- Unmapping a large block unlinks it and releases its span. -/
theorem of_freeLarge (hact : freeLarge p h = .ok () t) :
    ∃ b, h.large.blockAt? p = some b
      ∧ t.large = { h.large.unlink b with spans := h.large.spans.release ⟨b.mapBegin, b.mapSize⟩ } := by
  obtain ⟨_, _, hget, hact⟩ := bind_eq_ok.mp hact
  obtain ⟨rfl, rfl⟩ := get_eq_ok.mp hget
  obtain ⟨b, _, hread, hact⟩ := bind_eq_ok.mp hact
  obtain ⟨hb, rfl⟩ := orRefuse_eq_ok.mp hread
  obtain ⟨_, _, hunlink, hact⟩ := bind_eq_ok.mp hact
  obtain rfl := modify_eq_ok.mp hunlink
  obtain ⟨_, u, hrelease, hact⟩ := bind_eq_ok.mp hact
  have hu : u.large = h.large.unlink b := fixes_large_onPages.of_ok hrelease
  refine ⟨b, hb, ?_⟩
  rw [← modify_eq_ok.mp hact]
  show ({ u.large with spans := u.large.spans.release _ } : Large) = _
  rw [hu]
  rfl

/-- An allocation keeps the list tight. -/
theorem WF.tight_allocateLarge (hwf : h.WF) (htight : h.large.Tight)
    (halign : Word.isPowerOfTwo alignment = true) (hact : allocateLarge size alignment h = .ok p t) :
    t.large.Tight := by
  obtain ⟨mapSize, mapBegin, spans, hmapSize, halloc, hlarge⟩ := of_allocateLarge hact
  obtain ⟨hdvd, -⟩ := mapSizeFor?_spec halign hmapSize
  obtain ⟨-, -, -, -, -, -, hfree⟩ := Spans.alloc_spec hwf.large.spans hdvd halloc
  rw [hlarge]
  refine htight.link fun a ha => ?_
  by_cases hin : mapBegin ≤ a ∧ a < mapBegin + mapSize
  · exact .inr hin
  · exact .inl ((hfree a).mpr ⟨ha, hin⟩)

/-- A free keeps the list tight. -/
theorem WF.tight_freeLarge (hwf : h.WF) (htight : h.large.Tight) (hact : freeLarge p h = .ok () t) :
    t.large.Tight := by
  obtain ⟨b, hb, hlarge⟩ := of_freeLarge hact
  obtain ⟨hmem, -⟩ := Large.WF.of_blockAt? hb
  have hplaced := hwf.large.placed _ hmem
  obtain ⟨-, -, hfree⟩ := Spans.release_spec hwf.large.spans (Large.span_solid hplaced) hplaced.lo_le
    (by rw [hwf.large.spans_past]; exact hplaced.le_hi) (hwf.large.taken _ hmem)
  rw [hlarge]
  exact htight.unlink hwf.large hwf.large_begin_pos (Large.mem_blocks_of_blockAt? hb) fun a ha =>
    (hfree a).mpr ha

namespace Session

variable {s t : Session}

/-- A small block leaves the large ones alone. -/
theorem tight_allocate (hwf : s.heap.WF) (htight : s.heap.large.Tight)
    (hact : allocate size alignment s = .ok p t) : t.heap.large.Tight := by
  obtain ⟨halign, n, hact⟩ := of_allocate hact
  unfold allocateRounded at hact
  obtain ⟨_, _, hget, hact⟩ := bind_eq_ok.mp hact
  obtain ⟨rfl, rfl⟩ := get_eq_ok.mp hget
  by_cases hsmall : s.heap.canAllocateSmall n alignment = true
  · rw [if_pos hsmall] at hact
    obtain ⟨found, _, hread, hact⟩ := bind_eq_ok.mp hact
    obtain ⟨-, rfl⟩ := liftM_eq_ok.mp hread
    cases found with
    | none => exact (refuse_eq_ok.mp hact).elim
    | some c =>
        have hsame := (leaves_takeCached (P := fun h => h.large = s.heap.large) (fun _ _ _ hs => hs) rfl
          fun reach => fixes_large_commitRegion c reach s.heap).of_ok hact
        exact hsame.symm ▸ htight
  · rw [if_neg hsmall] at hact
    obtain ⟨heap, hlarge, rfl⟩ := onPart_eq_ok.mp hact
    exact hwf.tight_allocateLarge htight halign hlarge

/-- A block that is given back keeps the list tight. -/
theorem tight_free (hwf : s.heap.WF) (htight : s.heap.large.Tight) (hact : free p s = .ok () t) :
    t.heap.large.Tight := by
  unfold free at hact
  by_cases hzero : p = 0
  · rw [if_pos hzero] at hact
    obtain ⟨-, rfl⟩ := pure_eq_ok.mp hact
    exact htight
  rw [if_neg hzero] at hact
  obtain ⟨_, _, hget, hact⟩ := bind_eq_ok.mp hact
  obtain ⟨rfl, rfl⟩ := get_eq_ok.mp hget
  by_cases hprimary : s.heap.isPrimary p = true
  · rw [if_pos hprimary] at hact
    by_cases hwrong : s.heap.blockBegin? p ≠ some p
    · rw [if_pos hwrong] at hact
      exact nomatch hact
    · rw [if_neg hwrong] at hact
      have hsame := (leaves_returnCached (P := fun h => h.large = s.heap.large) (fun _ _ _ hs => hs)
        rfl p).of_ok hact
      exact hsame.symm ▸ htight
  · rw [if_neg hprimary] at hact
    obtain ⟨heap, hlarge, rfl⟩ := onPart_eq_ok.mp hact
    exact hwf.tight_freeLarge htight hlarge

end Session

end Heap

namespace Redzone

open Heap (Session)

variable {o : RedzoneOptions} {s t : Session} {h heap : Heap} {size alignment user p : Nat} {api : Api}
  {origin : Origin} {e : Entry} {f : Freed}

/-- A chunk that is handed out keeps the list tight. -/
theorem tight_allocate (hwf : s.heap.WF) (htight : s.heap.large.Tight)
    (hact : allocate o size alignment api origin s = .ok user t) : t.heap.large.Tight := by
  obtain ⟨-, block, actual, u, marked, hblock, -, -, hmark, ht⟩ := of_allocate hact
  have hu := Session.tight_allocate hwf htight hblock
  have hmarked : marked.large = u.heap.large := by
    have hfixes : Fixes (·.large) (mark block actual (max o.redzone (max alignment Shadow.granule)) size) :=
      Heap.fixes_large_onShadow.bind fun _ => Heap.fixes_large_onShadow.bind fun _ =>
        fixes_liftM.bind fun _ => fixes_liftM.bind fun _ => Heap.fixes_large_onShadow
    exact hfixes.of_ok hmark
  rw [ht]
  exact Heap.large_setRecord (h := marked.mapPages _) (hmarked.symm ▸ hu) ..

/-- A chunk that its user gives back keeps the list tight. -/
theorem tight_free (hwf : h.WF) (hfits : ∀ b ∈ h.blocks, b.record.state ≠ .recycled → b.Fits)
    (htight : h.large.Tight) (hact : free o p api origin h = .ok (some f) heap) : heap.large.Tight := by
  rcases (ends_free (o := o) hwf hfits p api origin).of_ok hact with ⟨-, hnone, -⟩
    | ⟨-, b, -, -, -, -, -, ⟨set, rfl, rfl⟩, -⟩
  · exact nomatch hnone
  · exact Heap.large_setRecord htight ..

/-- A chunk that is recycled keeps the list tight. -/
theorem tight_recycle {b : Block} (hwf : s.heap.WF) (hb : b ∈ s.heap.blocks) (htight : s.heap.large.Tight)
    (hact : recycle b.entry s = .ok () t) : t.heap.large.Tight := by
  obtain ⟨_, _, hget, hact⟩ := bind_eq_ok.mp hact
  obtain ⟨rfl, rfl⟩ := get_eq_ok.mp hget
  obtain ⟨record, _, hread, hact⟩ := bind_eq_ok.mp hact
  obtain ⟨-, rfl⟩ := orRefuse_eq_ok.mp hread
  obtain ⟨_, u, hset, hact⟩ := bind_eq_ok.mp hact
  obtain ⟨heap, hmodify, rfl⟩ := onPart_eq_ok.mp hset
  obtain rfl := modify_eq_ok.mp hmodify
  exact Session.tight_free (hwf.setRecord hb _).wf (Heap.large_setRecord htight ..) hact

end Redzone

namespace FakeStack

variable {f : FakeStack} {h heap : Heap} {sizeLog : Nat}

/-- A fake stack that is made keeps the list tight. -/
theorem tight_create (hwf : h.WF) (htight : h.large.Tight) (hact : create sizeLog h = .ok f heap) :
    heap.large.Tight := by
  obtain ⟨-, u, halloc, hmark⟩ := of_create hact
  have hsame : heap.large = u.large := Heap.fixes_large_onShadow.of_ok hmark
  rw [hsame]
  exact hwf.tight_allocateLarge htight (by decide) halloc

end FakeStack

namespace Sanitizer

variable {failing marked : Prop}

/-- The secondary range stays tight. -/
theorem lasting_tight : Lasting failing marked fun s _ _ => s.heap.large.Tight where
  still hstill htight := by
    rw [hstill.large]
    exact htight
  join _ htight := htight
  leave _ _ htight := htight
  allocate hsteady hact htight := Redzone.tight_allocate hsteady.fit.heap htight hact
  retire hsteady hact htight := Redzone.tight_free hsteady.fit.heap hsteady.sound.fits htight hact
  recycle hsteady hact htight := by
    obtain ⟨b, hb, rfl, -⟩ := hsteady.sound.waiting_block _
      (Multiset.mem_add.mpr (.inl (Multiset.mem_cons_self _ _)))
    exact Redzone.tight_recycle hsteady.fit.heap hb htight hact
  back hsteady _ hact htight := FakeStack.tight_create hsteady.fit.heap htight hact
  unback hsteady _ hact htight := hsteady.fit.heap.tight_freeLarge htight (mapError_eq_ok.mp hact)

end Sanitizer

end GuardedHeap
