import GuardedHeap.Proofs.Heap.Kept
import GuardedHeap.Proofs.Heap.Regions
import GuardedHeap.Proofs.Heap.Session
import GuardedHeap.Proofs.Scene.Tally
import Mathlib.Algebra.GroupWithZero.Nat

/-! # Caches — a cached block is one that the region would have lent

    A miss stocks the region as a request without a cache does, and then
    moves a batch of its free blocks into the list.  So both give the same
    block or are refused with the same error, if the batch is not empty.
    The batch is as long as the table says, and a table may say zero: then
    nothing is moved, and a thread is told that the region is exhausted
    while it has free blocks (`Balanced.ends_takeCached`).  Giving blocks
    back does not trust the table there, and counts with a batch of one
    block at least (`Balanced.endsOrStops_returnCached`).

    What any run keeps is `Balanced`.  Nothing is assumed of the regions but
    that there is one for each class, and nothing of the addresses that are
    given back. -/

namespace GuardedHeap.Heap

open Act

variable {h : Heap} {c : Nat} {r : Region} {α : Type}

/-! ## What a cache sees of a heap -/

/-- What does not change: the table, and how many regions there are and of which size. -/
def build (h : Heap) : SizeClasses × Nat × Nat :=
  (h.classes, h.regionSize, h.regions.size)

theorem build_setRegion (h : Heap) (c : Nat) (r : Region) : (h.setRegion c r).build = h.build := by
  unfold build
  rw [size_setRegion]
  rfl

theorem fixes_build_onPages {act : Act MapError Pages α} : Fixes build (onPages act) :=
  Fixes.mapError (fixes_onPart fun _ _ => rfl)

theorem fixes_build_poison {addr size : Nat} {why : Shadow.Magic} : Fixes build (poison addr size why) :=
  Fixes.mapError (fixes_onPart fun _ _ => rfl)

theorem fixes_build_region : Fixes build (region c) :=
  fixes_region.comp

theorem fixes_build_putRegion : Fixes build (putRegion c r) :=
  fixes_modify fun h => build_setRegion h c r

theorem fixes_build_commitRegion {reach : Reach} : Fixes build (commitRegion c reach) := by
  refine fixes_get_bind fun h => (fixes_build_region.bind fun r => ?_) h
  refine fixes_build_onPages.bind fun _ => fixes_build_onPages.bind fun _ => ?_
  exact fixes_ite (fixes_build_poison.bind fun _ => fixes_build_putRegion) fixes_build_putRegion

/-- Carving slots builds nothing anew. -/
theorem fixes_build_populate : Fixes build (populate c) := by
  refine fixes_get_bind fun h => (fixes_build_region.bind fun r => ?_) h
  refine fixes_ite (fixes_refuse.bind fun _ => ?_) ?_
  all_goals
    exact fixes_ite
      (fixes_build_commitRegion.bind fun _ => fixes_build_region.bind fun _ => fixes_build_putRegion)
      (fixes_build_region.bind fun _ => fixes_build_putRegion)

theorem fixes_build_stockedRegion : Fixes build (stockedRegion c) :=
  fixes_build_region.bind fun _ =>
    fixes_ite (fixes_build_populate.bind fun _ => fixes_build_region) fixes_pure

/-- An allocation of a slot builds nothing anew. -/
theorem fixes_build_allocateSmall {size alignment : Nat} : Fixes build (allocateSmall size alignment) := by
  refine fixes_get_bind fun h => fixes_ite (fixes_refuse.bind fun _ => ?_) ?_ h
  all_goals
    refine fixes_orRefuse.bind fun classId => fixes_build_stockedRegion.bind fun r => ?_
    split
    · exact fixes_refuse
    · exact fixes_build_putRegion.bind fun _ => fixes_pure

theorem fixes_build_takeBatch : Fixes build (takeBatch c) :=
  fixes_build_stockedRegion.bind fun _ => fixes_get.bind fun _ =>
    fixes_build_putRegion.bind fun _ => fixes_pure

theorem fixes_build_returnBatch {blocks : List Nat} : Fixes build (returnBatch c blocks) :=
  fixes_build_region.bind fun _ => fixes_build_putRegion

theorem fixes_build_freeSmall {p : Nat} : Fixes build (freeSmall p) :=
  (fixes_get.bind fun _ => fixes_liftM.bind fun _ => fixes_pure).bind fun _ =>
    fixes_build_region.bind fun _ => fixes_build_putRegion

/-- No call on slots builds anything anew. -/
theorem SmallCall.fixes_build (call : SmallCall) : Fixes build call.perform := by
  cases call with
  | allocate size alignment => exact fixes_build_allocateSmall.map
  | deallocate p => exact fixes_build_freeSmall
  | bulkAllocate c => exact fixes_build_takeBatch.map
  | bulkDeallocate c blocks => exact fixes_build_returnBatch
  | schedule failures => exact fixes_modify fun _ => rfl

/-! ## Stock without any order -/

/-- A heap that was built alike has the same regions. -/
theorem exists_region_of_build {t : Heap} (hbuild : t.build = h.build) (hc : c < h.regions.size) :
    ∃ r, t.regions[c]? = some r := by
  have hsize : t.regions.size = h.regions.size := congrArg (·.2.2) hbuild
  exact ⟨_, Array.getElem?_eq_getElem (hsize ▸ hc)⟩

/-- Committing pages is done or refused, whatever the region is like. -/
theorem ends_commitRegion_any (hr : h.regions[c]? = some r) (reach : Reach) :
    Ends (commitRegion c reach) h (fun _ _ => True) fun _ _ => True := by
  have hcommit : ∀ (h : Heap) (addr size : Nat),
      Ends (onPages (Pages.commit addr size)) h (fun _ _ => True) fun _ _ => True := by
    intro h addr size
    rw [ends_onPages]
    unfold Pages.commit
    split
    · exact trivial
    · exact Pages.ends_call (fun _ _ _ => trivial) fun _ _ _ _ => trivial
  unfold commitRegion
  simp only [ends_bind, ends_get]
  refine ends_region hr ?_
  refine (hcommit _ _ _).imp (fun _ _ _ => ?_) fun _ _ _ => trivial
  refine (hcommit _ _ _).imp (fun _ _ _ => ?_) fun _ _ _ => trivial
  split
  · rw [ends_bind]
    exact ends_poison.imp (fun _ _ _ => trivial) fun _ _ _ => trivial
  · exact trivial

/-- A region that is there can be populated, or that is refused. -/
theorem ends_populate_any (hc : c < h.regions.size) :
    Ends (populate c) h (fun _ t => ∃ q, t.regions[c]? = some q ∧ q.freeList ≠ []) fun _ _ => True := by
  obtain ⟨r, hr⟩ := exists_region_of_build rfl hc
  have hcarve : ∀ t : Heap, t.build = h.build → Ends (region c >>= fun q => putRegion c
      (Region.carve q (h.regionBegin c) (h.classes.size c) (Region.nextReach r (h.classes.size c)))) t
      (fun _ t => ∃ q, t.regions[c]? = some q ∧ q.freeList ≠ []) fun _ _ => True := by
    intro t hbuild
    obtain ⟨q, hq⟩ := exists_region_of_build hbuild hc
    rw [ends_bind]
    refine ends_region hq (ends_modify.mpr ?_)
    refine ⟨_, (regions_setRegion (lt_size_of_region hq)).trans (if_pos rfl), ?_⟩
    have hpos : carveCount (h.classes.size c) ≠ 0 :=
      Nat.ne_of_gt (Nat.lt_of_lt_of_le Nat.one_pos (Nat.le_max_right _ _))
    refine List.append_ne_nil_of_left_ne_nil ?_ _
    rwa [ne_eq, List.map_eq_nil_iff, List.range_eq_nil]
  unfold populate
  simp only [ends_bind, ends_get]
  refine ends_region hr ?_
  split
  · rw [ends_bind]
    exact trivial
  split
  · rw [ends_bind]
    exact (ends_commitRegion_any hr _).imp_eq
      (fun _ t hok _ => hcarve t (fixes_build_commitRegion.of_ok hok)) fun _ _ _ _ => trivial
  · exact hcarve h rfl

/-- A stocked region has a free block; being refused one changes nothing that a cache sees. -/
theorem ends_stockedRegion_any (hc : c < h.regions.size) :
    Ends (stockedRegion c) h
      (fun q t => (t.regions[c]? = some q ∧ q.freeList ≠ []) ∧ t.build = h.build)
      fun _ t => True ∧ t.build = h.build := by
  refine Ends.and_leaves ?_ (fixes_build_stockedRegion.leaves_eq rfl)
  obtain ⟨r, hr⟩ := exists_region_of_build rfl hc
  unfold stockedRegion
  rw [ends_bind]
  refine ends_region hr ?_
  by_cases hempty : r.freeList.isEmpty = true
  · rw [if_pos hempty, ends_bind]
    refine (ends_populate_any hc).imp ?_ fun _ _ _ => trivial
    rintro - t ⟨q, hq, hstocked⟩
    exact ends_region hq ⟨hq, hstocked⟩
  · rw [if_neg hempty]
    exact ends_pure.mpr ⟨hr, fun hnil => hempty (List.isEmpty_iff.mpr hnil)⟩

/-- A request for the size of a class is one for the next block of its region. -/
theorem allocateSmall_eq (hlawful : h.classes.Lawful) (hc : c < h.classes.count) :
    allocateSmall (h.classes.size c) Shadow.granule h = (stockedRegion c >>= fun r =>
      match r.freeList with
      | [] => refuse (.regionExhausted c h.regionSize)
      | p :: rest => putRegion c { r with freeList := rest } >>= fun _ => pure p) h := by
  have hfits : h.canAllocateSmall (h.classes.size c) Shadow.granule = true := by
    unfold canAllocateSmall
    rw [Bool.and_eq_true, decide_eq_true_eq, decide_eq_true_eq]
    exact ⟨hlawful.size_le_maxSize hc, by decide⟩
  unfold allocateSmall
  rw [Act.get_bind, if_neg (by rw [hfits]; decide), hlawful.classOf?_size hc]
  rfl

end GuardedHeap.Heap

/-! ## Lists and their total -/

namespace GuardedHeap

namespace Cache

variable {cache : Cache} {c total : Nat} {l old : List Nat}

/-- The number of blocks in all lists, counted list by list. -/
def stock (cache : Cache) : Nat :=
  (cache.lists.toList.map List.length).sum

/-- The stock grows by what a list gains. -/
theorem stock_update (h : cache.lists[c]? = some old) (l : List Nat) (total : Nat) :
    (cache.update c l total).stock + old.length = cache.stock + l.length := by
  unfold stock update
  rw [Array.toList_setIfInBounds]
  exact sum_map_set List.length l (by rwa [Array.getElem?_toList])

/-- A list holds no more than the stock. -/
theorem length_le_stock (h : cache.lists[c]? = some old) : old.length ≤ cache.stock := by
  have hempty := stock_update h [] 0
  rw [List.length_nil] at hempty
  omega

/-- The last change of a list counts. -/
theorem update_update {l' : List Nat} {total' : Nat} :
    (cache.update c l' total').update c l total = cache.update c l total := by
  unfold update
  rw [Array.setIfInBounds_setIfInBounds]

/-- A change of a list leaves the others alone. -/
theorem getElem?_update {c' : Nat} (hc : c < cache.lists.size) :
    (cache.update c l total).lists[c']? = if c' = c then some l else cache.lists[c']? := by
  show (cache.lists.setIfInBounds c l)[c']? = _
  rw [Array.getElem?_setIfInBounds]
  by_cases hcc : c' = c
  · subst hcc
    rw [if_pos rfl, if_pos rfl, if_pos hc]
  · rw [if_neg (Ne.symm hcc), if_neg hcc]

/-- A new cache has no stock. -/
theorem stock_new (classes : Nat) : (new classes).stock = 0 := by
  unfold stock new
  rw [Array.toList_replicate, List.map_replicate, List.sum_replicate]
  exact Nat.mul_zero classes

end Cache

namespace Heap.Session

open Act

variable {h : Heap} {s t : Session} {c p : Nat}

/-- There are a list and a region for each class, no list has come to two batches, and the total is the
    number of blocks in the lists. -/
structure Balanced (s : Session) : Prop where
  lawful : s.heap.classes.Lawful
  regions : s.heap.regions.size = s.heap.classes.count
  lists : s.cache.lists.size = s.heap.classes.count
  total_eq : s.cache.total = s.cache.stock
  bound : ∀ (c : Nat) l, s.cache.lists[c]? = some l → l.length < 2 * max (s.heap.classes.maxCached c) 1

/-- What the balance of a session rests on. -/
def books (s : Session) : Cache × SizeClasses × Nat × Nat :=
  (s.cache, s.heap.build)

/-- What builds nothing anew on the heap leaves the books of the session alone. -/
theorem fixes_onHeap {ε α : Type} {act : Act ε Heap α} (h : Fixes build act) : Fixes books (onHeap act) :=
  h.onPart fun s _ hbuild => congrArg (s.cache, ·) hbuild

/-- There is no looking into a list that is not there. -/
theorem list_eq_stopped (hl : s.cache.lists[c]? = none) : list c s = .error .stopped s := by
  show (orStop s.cache.lists[c]? : Act AllocError Session (List Nat)) s = _
  rw [hl]
  rfl

namespace Balanced

/-- A session is balanced if its books are. -/
theorem of_books (hs : s.Balanced) (h : t.books = s.books) : t.Balanced := by
  obtain ⟨hcache, hbuild⟩ := Prod.mk.inj h
  obtain ⟨hclasses, hrest⟩ := Prod.mk.inj hbuild
  have hregions : t.heap.regions.size = s.heap.regions.size := (Prod.mk.inj hrest).2
  constructor
  · rw [hclasses]
    exact hs.lawful
  · rw [hclasses, hregions]
    exact hs.regions
  · rw [hclasses, hcache]
    exact hs.lists
  · rw [hcache]
    exact hs.total_eq
  · rw [hclasses, hcache]
    exact hs.bound

/-- There is a list for each class. -/
theorem exists_list (hs : s.Balanced) (hc : c < s.heap.classes.count) : ∃ l, s.cache.lists[c]? = some l :=
  ⟨_, Array.getElem?_eq_getElem (hs.lists ▸ hc)⟩

/-- Nothing is in the lists of a new cache. -/
theorem new {classes : Nat} (hlawful : h.classes.Lawful) (hregions : h.regions.size = h.classes.count)
    (hclasses : classes = h.classes.count) : Balanced ⟨h, Cache.new classes⟩ := by
  refine ⟨hlawful, hregions, Array.size_replicate.trans hclasses, (Cache.stock_new classes).symm,
    fun c l hl => ?_⟩
  have hl' : (Array.replicate classes ([] : List Nat))[c]? = some l := hl
  rw [Array.getElem?_replicate] at hl'
  split at hl'
  · obtain rfl := Option.some.inj hl'
    exact Nat.mul_pos (by decide) (Nat.lt_of_lt_of_le Nat.one_pos (Nat.le_max_right _ _))
  · exact nomatch hl'

/-- A list may be replaced by one that has not come to two batches, if the total follows. -/
theorem update (hs : s.Balanced) {old l : List Nat} {total : Nat} (hold : s.cache.lists[c]? = some old)
    (hlength : l.length < 2 * max (s.heap.classes.maxCached c) 1)
    (htotal : total + old.length = s.cache.total + l.length) :
    Balanced { s with cache := s.cache.update c l total } := by
  have hc : c < s.cache.lists.size := (Array.getElem?_eq_some_iff.mp hold).1
  have hstock := Cache.stock_update hold l total
  refine ⟨hs.lawful, hs.regions, size_update.trans hs.lists, ?_, fun c' l' hl' => ?_⟩
  · have hsum := hs.total_eq
    show total = (s.cache.update c l total).stock
    omega
  · rw [Cache.getElem?_update hc] at hl'
    by_cases hcc : c' = c
    · rw [if_pos hcc] at hl'
      obtain rfl := Option.some.inj hl'
      exact hcc ▸ hlength
    · rw [if_neg hcc] at hl'
      exact hs.bound c' l' hl'

/-- The newest block of a list may go. -/
theorem pop (hs : s.Balanced) {rest : List Nat} (hl : s.cache.lists[c]? = some (p :: rest)) :
    Balanced { s with cache := s.cache.update c rest (s.cache.total - 1) } := by
  have hlength := hs.bound c _ hl
  have htotal := hs.total_eq ▸ Cache.length_le_stock hl
  rw [List.length_cons] at hlength htotal
  refine hs.update hl (Nat.lt_of_succ_lt hlength) ?_
  rw [List.length_cons]
  omega

end Balanced

/-! ## Taking -/

/-- A refilled list begins with the block that a request without a cache would get, unless the batches of
    the class are empty; what such a request is refused with, refilling is refused with. -/
theorem Balanced.ends_refill (hs : s.Balanced) (hc : c < s.heap.classes.count)
    (hl : s.cache.lists[c]? = some []) :
    Ends (refill c) s
      (fun _ t => Balanced t ∧ t.heap.regionSize = s.heap.regionSize
        ∧ ∃ p h, allocateSmall (s.heap.classes.size c) Shadow.granule s.heap = .ok p h
          ∧ ((s.heap.classes.maxCached c = 0 ∧ t.cache.lists[c]? = some [])
            ∨ s.heap.classes.maxCached c ≠ 0 ∧ ∃ rest, t.cache.lists[c]? = some (p :: rest)))
      fun e t => Balanced t
        ∧ ∃ h, allocateSmall (s.heap.classes.size c) Shadow.granule s.heap = .error (.refused e) h := by
  have hplain := allocateSmall_eq hs.lawful hc
  unfold refill takeBatch
  rw [ends_bind, ends_onHeap, ends_bind]
  refine (ends_stockedRegion_any (hs.regions ▸ hc)).imp_eq (fun q t hok hstock => ?_)
    fun e t hno hbuild => ?_
  case refine_2 =>
    rw [bind_of_error hno] at hplain
    exact ⟨hs.of_books (congrArg (s.cache, ·) hbuild.2), _, hplain⟩
  obtain ⟨⟨-, hstocked⟩, hbuild⟩ := hstock
  obtain ⟨p, rest, hlist⟩ := List.exists_cons_of_ne_nil hstocked
  rw [bind_of_ok hok, hlist] at hplain
  have hclasses : t.classes = s.heap.classes := congrArg (·.1) hbuild
  have hsize : t.regionSize = s.heap.regionSize := congrArg (·.2.1) hbuild
  simp only [ends_bind, ends_get]
  refine ends_modify.mpr (ends_pure.mpr (ends_modify.mpr ?_))
  rw [hclasses]
  -- The batch is moved from the region, of which the balance only knows that it is there.
  have hheap : ∀ list, Balanced { s with heap := t.setRegion c { q with freeList := list } } :=
    fun list => hs.of_books (congrArg (s.cache, ·) ((build_setRegion t c _).trans hbuild))
  have hthere : ∀ (batch : List Nat) (total : Nat), (s.cache.update c batch total).lists[c]? = some batch :=
    fun _ _ => (Cache.getElem?_update (hs.lists ▸ hc)).trans (if_pos rfl)
  have hlength := List.length_take_le (s.heap.classes.maxCached c) q.freeList
  refine ⟨(hheap _).update hl ?_ rfl, hsize, p, _, hplain, ?_⟩
  · show (q.freeList.take _).length < 2 * max (t.classes.maxCached c) 1
    rw [hclasses]
    omega
  · rw [hlist]
    cases s.heap.classes.maxCached c with
    | zero => exact .inl ⟨rfl, hthere [] _⟩
    | succ n => exact .inr ⟨nofun, rest.take n, hthere _ _⟩

/-- A thread takes the newest block of its list, or the one that a request without a cache would get.  It is
    refused only if its list is empty, and then with the error that such a request would be refused with,
    unless the batches of the class are empty. -/
theorem Balanced.ends_takeCached (hs : s.Balanced) (hc : c < s.heap.classes.count) :
    Ends (takeCached c) s
      (fun p t => Balanced t ∧ ((∃ rest, s.cache.lists[c]? = some (p :: rest))
        ∨ s.cache.lists[c]? = some [] ∧ s.heap.classes.maxCached c ≠ 0
          ∧ ∃ h, allocateSmall (s.heap.classes.size c) Shadow.granule s.heap = .ok p h))
      fun e t => Balanced t ∧ s.cache.lists[c]? = some []
        ∧ ((∃ h, allocateSmall (s.heap.classes.size c) Shadow.granule s.heap = .error (.refused e) h)
          ∨ s.heap.classes.maxCached c = 0 ∧ e = .regionExhausted c s.heap.regionSize
            ∧ ∃ p h, allocateSmall (s.heap.classes.size c) Shadow.granule s.heap = .ok p h) := by
  obtain ⟨l, hl⟩ := hs.exists_list hc
  unfold takeCached
  rw [ends_bind]
  refine ends_listed hl ?_
  cases l with
  | cons p rest =>
      rw [if_neg (by rw [List.isEmpty_cons]; decide), ends_bind]
      exact ends_listed hl ⟨hs.pop hl, .inl ⟨rest, hl⟩⟩
  | nil =>
      rw [if_pos List.isEmpty_nil, ends_bind]
      refine (hs.ends_refill hc hl).imp ?_ fun e t hno => ⟨hno.1, hl, .inl hno.2⟩
      rintro - t ⟨ht, hsize, p, h, hplain, ⟨hzero, hempty⟩ | ⟨hsome, rest, hrefilled⟩⟩
      all_goals rw [ends_bind]
      · -- Nothing was moved, and the empty list is taken for an exhausted region.
        exact ends_listed hempty ⟨ht, hl, .inr ⟨hzero, congrArg _ hsize, p, h, hplain⟩⟩
      · exact ends_listed hrefilled ⟨ht.pop hrefilled, .inr ⟨hl, hsome, h, hplain⟩⟩

/-! ## Giving back -/

/-- Giving a block back leaves the balance, whatever its address is. -/
theorem Balanced.endsOrStops_returnCached (hs : s.Balanced) (c p : Nat) :
    EndsOrStops (returnCached c p) s (fun _ t => Balanced t) fun _ t => Balanced t := by
  unfold returnCached
  rw [endsOrStops_bind]
  refine endsOrStops_get.mpr ?_
  cases hl : s.cache.lists[c]? with
  | none =>
      unfold EndsOrStops
      rw [bind_of_error (list_eq_stopped hl)]
      exact trivial
  | some l =>
      have hlength := hs.bound c l hl
      have htotal := hs.total_eq ▸ Cache.length_le_stock hl
      simp only [endsOrStops_bind, endsOrStops_get]
      refine (ends_listed hl ?_).orStops
      generalize hbatch : max (s.heap.classes.maxCached c) 1 = batch at hlength ⊢
      have hone : 1 ≤ batch := hbatch ▸ Nat.le_max_right _ _
      refine (ends_modify.mpr ?_).orStops
      refine endsOrStops_liftM.mpr fun limit hlimit => ?_
      obtain ⟨-, rfl⟩ := Word.mul_eq_ok.mp hlimit
      split
      case isTrue hfull =>
        -- The list has come to two batches, and keeps one of them.
        rw [List.length_cons] at hfull
        rw [endsOrStops_bind]
        refine (ends_modify.mpr ?_).orStops
        refine (Fixes.leaves (fixes_onHeap fixes_build_returnBatch) _).orStops.imp ?_ ?_
        all_goals
          intro _ t hbooks
          refine Balanced.of_books ?_ hbooks
          show Balanced { s with cache := (s.cache.update c _ _).update c _ _ }
          rw [Cache.update_update]
          refine hs.update hl ?_ ?_
          · rw [List.length_drop, List.length_cons, hbatch]
            omega
          · rw [List.length_drop, List.length_cons]
            omega
      case isFalse hfits =>
        rw [List.length_cons, ge_iff_le, Nat.not_le] at hfits
        refine hs.update hl (hbatch ▸ hfits) ?_
        rw [List.length_cons]
        omega

/-- Lists that are returned change no books. -/
theorem fixes_returnLists {lists : List (List Nat)} : Fixes books (returnLists c lists) := by
  induction lists generalizing c with
  | nil => exact fixes_pure
  | cons list rest ih =>
      unfold returnLists
      exact fixes_ite ((fixes_onHeap fixes_build_returnBatch).bind fun _ => ih) ih

/-- Draining leaves empty lists. -/
theorem Balanced.endsOrStops_drain (hs : s.Balanced) :
    EndsOrStops drain s (fun _ t => Balanced t) fun _ t => Balanced t := by
  unfold drain
  rw [endsOrStops_bind]
  refine endsOrStops_get.mpr ?_
  rw [endsOrStops_bind]
  refine (Fixes.leaves fixes_returnLists s).orStops.imp (fun _ t hbooks => ?_) fun _ t hbooks =>
    hs.of_books hbooks
  have ht := hs.of_books hbooks
  refine (ends_modify.mpr ?_).orStops
  exact Balanced.new ht.lawful ht.regions ht.lists

/-! ## Runs -/

/-- A call on a cache, or one that goes to the regions without it. -/
inductive CacheCall where
  | allocate (classId : Nat)
  | deallocate (classId p : Nat)
  | drain
  | uncached (call : SmallCall)

namespace CacheCall

/-- Make the call and drop what it returns. -/
def perform : CacheCall → Act AllocError Session Unit
  | allocate classId => (fun _ => ()) <$> takeCached classId
  | deallocate classId p => returnCached classId p
  | drain => Session.drain
  | uncached call => onHeap call.perform

/-- What the call leaves, whether it returns or is refused; there is nothing behind a call that stops. -/
def next? (call : CacheCall) (s : Session) : Option Session :=
  match call.perform s with
  | .ok _ t | .error (.refused _) t => some t
  | .error .stopped _ => none

theorem of_next? {call : CacheCall} {P : Session → Prop}
    (h : EndsOrStops call.perform s (fun _ t => P t) fun _ t => P t) (hnext : call.next? s = some t) : P t := by
  refine h.of_left? (Eq.trans ?_ hnext)
  unfold left? next?
  cases call.perform s with
  | ok a u => rfl
  | error e u => cases e <;> rfl

/-- Every call leaves the balance. -/
theorem endsOrStops_perform (hs : s.Balanced) (call : CacheCall) :
    EndsOrStops call.perform s (fun _ t => Balanced t) fun _ t => Balanced t := by
  cases call with
  | allocate c =>
      refine endsOrStops_map.mpr ?_
      by_cases hc : c < s.heap.classes.count
      · exact ((hs.ends_takeCached hc).imp (fun _ _ hok => hok.1) fun _ _ hno => hno.1).orStops
      · -- There is no list to look into.
        have hnone : s.cache.lists[c]? = none :=
          Array.getElem?_eq_none (hs.lists ▸ Nat.le_of_not_lt hc)
        unfold EndsOrStops takeCached
        rw [bind_of_error (list_eq_stopped hnone)]
        exact trivial
  | deallocate c p => exact hs.endsOrStops_returnCached c p
  | drain => exact hs.endsOrStops_drain
  | uncached call =>
      exact (Fixes.leaves (fixes_onHeap call.fixes_build) s).orStops.imp
        (fun _ _ hbooks => hs.of_books hbooks) fun _ _ hbooks => hs.of_books hbooks

end CacheCall

/-- What a heap and a cache get to.  The heap may have been used before the cache is made. -/
inductive CacheRun : Session → Prop where
  | fresh {h : Heap} (hclasses : h.classes.Accepted) (hregions : h.regions.size = h.classes.count) :
      CacheRun ⟨h, Cache.new h.classes.count⟩
  | call {s t : Session} (hrun : CacheRun s) (call : CacheCall) (hnext : call.next? s = some t) : CacheRun t

/-- Every run leaves a balanced session. -/
theorem CacheRun.balanced (hrun : CacheRun s) : Balanced s := by
  induction hrun with
  | fresh hclasses hregions => exact Balanced.new hclasses.lawful hregions rfl
  | call _ call hnext ih => exact CacheCall.of_next? (call.endsOrStops_perform ih) hnext

/-- The session after calls on a heap that was made on fresh pages, and on a new cache. -/
def visited (classes : SizeClasses) (log secondaryLog : Nat) (calls : List CacheCall) : Option Session :=
  (returned? (create classes log secondaryLog) {}).bind fun made =>
    calls.foldlM (fun s call => call.next? s) ⟨made.1, Cache.new made.1.classes.count⟩

/-- A run goes on with calls that are made one after the other. -/
theorem CacheRun.calls (hrun : CacheRun s) {calls : List CacheCall}
    (hcalls : calls.foldlM (fun s call => call.next? s) s = some t) : CacheRun t := by
  induction calls generalizing s with
  | nil => exact Option.some.inj hcalls ▸ hrun
  | cons call rest ih =>
      rw [List.foldlM_cons] at hcalls
      obtain ⟨u, hnext, hrest⟩ := Option.bind_eq_some_iff.mp hcalls
      exact ih (hrun.call call hnext) hrest

/-- A session that passes a check can be found by running. -/
theorem CacheRun.of_visited {classes : SizeClasses} {log secondaryLog : Nat} {calls : List CacheCall}
    {check : Session → Bool} (hclasses : classes.Accepted) (hge : 20 ≤ log) (hle : log ≤ 36)
    (hcheck : (visited classes log secondaryLog calls).any check = true) :
    ∃ s, CacheRun s ∧ check s = true := by
  obtain ⟨s, hs, hcheck⟩ := (Option.any_eq_true _ _).mp hcheck
  obtain ⟨⟨h, q⟩, hcreate, hcalls⟩ := Option.bind_eq_some_iff.mp hs
  have hnew := (unused_of_create hclasses hge hle (of_returned? hcreate)).1
  have hregions : h.regions.size = h.classes.count := by
    rw [hnew.regions, Array.size_replicate]
  exact ⟨s, (CacheRun.fresh hnew.classes hregions).calls hcalls, hcheck⟩

/-- After any run the total is the number of blocks in the lists, and no list has come to two batches of its
    class or, if those are empty, to two blocks.  A thread that asks for a block gets the newest of its list;
    with an empty list it gets the block that a request without a cache would get, or is refused with the
    error of that request.  But if the batches of the class are empty and the list is, the thread is told
    that the region is exhausted when the request without a cache would be served. -/
theorem CacheRun.serves (hrun : CacheRun s) :
    s.cache.total = s.cache.stock
    ∧ (∀ (c : Nat) l, s.cache.lists[c]? = some l → l.length < 2 * max (s.heap.classes.maxCached c) 1)
    ∧ ∀ c < s.heap.classes.count, Ends (takeCached c) s
      (fun p _ => (∃ rest, s.cache.lists[c]? = some (p :: rest))
        ∨ s.cache.lists[c]? = some [] ∧ s.heap.classes.maxCached c ≠ 0
          ∧ ∃ h, allocateSmall (s.heap.classes.size c) Shadow.granule s.heap = .ok p h)
      fun e _ => s.cache.lists[c]? = some []
        ∧ ((∃ h, allocateSmall (s.heap.classes.size c) Shadow.granule s.heap = .error (.refused e) h)
          ∨ s.heap.classes.maxCached c = 0 ∧ e = .regionExhausted c s.heap.regionSize
            ∧ ∃ p h, allocateSmall (s.heap.classes.size c) Shadow.granule s.heap = .ok p h) :=
  have hs := hrun.balanced
  ⟨hs.total_eq, hs.bound, fun _ hc =>
    (hs.ends_takeCached hc).imp (fun _ _ hok => hok.2) fun _ _ hno => hno.2⟩

/-- One class has three blocks in its list.  Of another all blocks are lent, and a thread is refused as it
    would be without a cache. -/
theorem CacheRun.serves_exhausted :
    ∃ s, CacheRun s ∧ s.cache.stock = 3
      ∧ (∃ p rest t, takeCached 30 s = .ok p t ∧ s.cache.lists[30]? = some (p :: rest))
      ∧ ∃ e t h, takeCached 31 s = .error (.refused e) t ∧ s.cache.lists[31]? = some []
        ∧ allocateSmall (s.heap.classes.size 31) Shadow.granule s.heap = .error (.refused e) h := by
  obtain ⟨s, hrun, hcheck⟩ := CacheRun.of_visited SizeClasses.accepted_compact
    (show 20 ≤ 20 by decide) (by decide)
    (show (visited .compact 20 24
      (.allocate 30 :: List.replicate 8 (.uncached (.bulkAllocate 31)))).any
      (fun s => decide (s.cache.total = 3 ∧ s.heap.classes.count = 32 ∧ s.heap.classes.maxCached 31 = 4
        ∧ s.cache.lists[30]? ≠ some []
        ∧ outcome? (takeCached 30) s = some (.ok 17592217530368)
        ∧ outcome? (takeCached 31) s = some (.error (.regionExhausted 31 1048576)))) = true by decide +kernel)
  obtain ⟨htotal, hcount, hbatch, hlisted, htake, hrefuse⟩ := of_decide_eq_true hcheck
  obtain ⟨hstock, -, hends⟩ := hrun.serves
  obtain ⟨t, htake⟩ := of_outcome?_ok htake
  obtain ⟨u, hrefuse⟩ := of_outcome?_error hrefuse
  refine ⟨s, hrun, hstock.symm.trans htotal, ?_, ?_⟩
  · rcases (hends 30 (by rw [hcount]; decide)).of_ok htake with ⟨rest, hl⟩ | ⟨hl, -⟩
    · exact ⟨_, rest, t, htake, hl⟩
    · exact absurd hl hlisted
  · obtain ⟨hl, ⟨h, hplain⟩ | ⟨hzero, -⟩⟩ := (hends 31 (by rw [hcount]; decide)).of_refused hrefuse
    · exact ⟨_, u, h, hrefuse, hl, hplain⟩
    · rw [hbatch] at hzero
      exact nomatch hzero

/-- The compact spline, but nothing is cached of the smallest sizes. -/
def unbatched : SizeClass.Spline :=
  { SizeClass.Spline.compact with maxCached := #v[0, 128, 64, 16, 4] }

/-- A table that is accepted may leave a thread without a block that a request without a cache gets. -/
theorem CacheRun.refused_unbatched :
    ∃ s, CacheRun s ∧ 0 < s.heap.classes.count ∧ s.cache.lists[0]? = some []
      ∧ (∃ t, takeCached 0 s = .error (.refused (.regionExhausted 0 s.heap.regionSize)) t)
      ∧ ∃ p h, allocateSmall (s.heap.classes.size 0) Shadow.granule s.heap = .ok p h := by
  have haccepted : (SizeClasses.ofSpline unbatched).Accepted :=
    SizeClasses.accepted_of_fault? (by constructor <;> decide) (by decide)
  obtain ⟨s, hrun, hcheck⟩ := CacheRun.of_visited haccepted (show 20 ≤ 22 by decide) (by decide)
    (show (visited (SizeClasses.ofSpline unbatched) 22 24 []).any
      (fun s => decide (0 < s.heap.classes.count ∧ s.cache.lists[0]? = some []
        ∧ outcome? (takeCached 0) s = some (.error (.regionExhausted 0 s.heap.regionSize))
        ∧ outcome? (allocateSmall (s.heap.classes.size 0) Shadow.granule) s.heap
          = some (.ok s.heap.space.begin))) = true by decide +kernel)
  obtain ⟨hcount, hl, hrefuse, hplain⟩ := of_decide_eq_true hcheck
  exact ⟨s, hrun, hcount, hl, of_outcome?_error hrefuse, _, of_outcome?_ok hplain⟩

end Heap.Session

end GuardedHeap
