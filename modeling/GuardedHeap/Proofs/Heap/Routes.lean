import GuardedHeap.Proofs.Heap.Outstanding
import GuardedHeap.Proofs.Heap.Requests
import GuardedHeap.Proofs.Heap.Sites
import GuardedHeap.Proofs.SizeClass.Tables

/-! # Routes — which block a request gets, whoever asked before

    Any number of threads use a heap, each with a cache of its own, through
    their caches or past them (`Reaches`).  Whatever they did, a free block
    in a list begins a slot of the class of the list (`Stands`): blocks only
    come from regions, and only slots are given back.  A request therefore
    gets a slot of the class that it was routed to, and how slots lie says
    the rest, the alignment of the address and the size of the block
    (`Session.Stands.ends_allocate`). -/

namespace GuardedHeap.Heap

open Act

variable {h t : Heap} {c p : Nat} {blocks : List Nat}

/-! ## Slots by their addresses -/

namespace SlotAt

theorem lt_count (hp : h.SlotAt c p) (ht : h.Tracts) : c < h.classes.count := by
  obtain ⟨slot, ⟨r, hr, -⟩, -⟩ := hp
  exact ht.regions ▸ lt_size_of_region hr

/-- The address tells the slot. -/
theorem locate?_eq (hp : h.SlotAt c p) (ht : h.Tracts) :
    h.isPrimary p = true ∧ h.classOf p = c ∧ ∃ slot, h.locate? p = some ⟨c, slot⟩ := by
  have hpos := ht.size_pos c (ht.regions ▸ hp.lt_count ht)
  obtain ⟨slot, hcarved, rfl⟩ := hp
  obtain ⟨hprimary, hclass, hlocate⟩ := ht.locate?_eq hcarved
    (a := h.slotBegin ⟨c, slot⟩) ⟨Nat.le_refl _, Nat.lt_add_of_pos_right hpos⟩
  exact ⟨hprimary, hclass, slot, hlocate⟩

/-- Slots lie at the multiples of what divides their size and a page. -/
theorem dvd (hp : h.SlotAt c p) (ht : h.Tracts) {alignment : Nat} (hpage : alignment ∣ Pages.pageSize)
    (hsize : alignment ∣ h.classes.size c) : alignment ∣ p := by
  obtain ⟨slot, -, rfl⟩ := hp
  have hbegin : Pages.pageSize ∣ h.regionBegin c :=
    Nat.dvd_add ht.begin_dvd (Nat.dvd_mul_left_of_dvd ht.region_dvd c)
  exact Nat.dvd_add (Nat.dvd_trans hpage hbegin) (Nat.dvd_mul_left_of_dvd hsize slot)

end SlotAt

/-- A block that begins at its address in a region is a slot. -/
theorem Tracts.slotAt (ht : h.Tracts) (hprimary : h.isPrimary p = true) (hbegin : h.blockBegin? p = some p) :
    h.SlotAt (h.classOf p) p := by
  unfold blockBegin? at hbegin
  rw [if_pos hprimary] at hbegin
  obtain ⟨s, hlocate, hp⟩ := Option.map_eq_some_iff.mp hbegin
  obtain ⟨hcarved, hin, -⟩ := ht.of_locate? hlocate
  obtain ⟨-, hclass, -⟩ := ht.locate?_eq hcarved hin
  rw [hclass]
  exact ⟨s.slot, hcarved, hp.symm⟩

/-! ## Past the caches -/

/-- What the call gives back begins a slot of the class that it goes to. -/
def SmallCall.Fits (h : Heap) : SmallCall → Prop
  | deallocate p => ∃ c, h.SlotAt c p
  | bulkDeallocate c blocks => ∀ p ∈ blocks, h.SlotAt c p
  | _ => True

namespace Sited

variable (hs : h.Sited)

include hs

theorem leaves_stocked_bind {α : Type} {next : Region → Act AllocError Heap α}
    (hnext : ∀ q t, Moves h t → t.regions[c]? = some q → Leaves (Moves h) (next q) t) :
    Leaves (Moves h) (stockedRegion c >>= next) h := by
  by_cases hc : c < h.classes.count
  · exact (hs.ends_stockedRegion hc).leaves_bind (fun q t hok => hnext q t hok.1 hok.2.1) fun _ _ hno => hno
  · unfold stockedRegion
    rw [bind_assoc]
    exact leaves_region_bind hs.moves fun r hr => absurd (hs.tracts.regions ▸ lt_size_of_region hr) hc

theorem leaves_allocateSmall (size alignment : Nat) :
    Leaves (Moves h) (allocateSmall size alignment) h := by
  unfold allocateSmall
  refine leaves_get_bind ?_
  by_cases hfits : (!h.canAllocateSmall size alignment) = true
  · rw [if_pos hfits]
    exact hs.moves
  rw [if_neg hfits]
  cases h.classes.classOf? size with
  | none => exact hs.moves
  | some c =>
      show Leaves (Moves h) (stockedRegion c >>= _) h
      refine hs.leaves_stocked_bind fun q t hmoves hq => ?_
      cases hlist : q.freeList with
      | nil => exact hmoves
      | cons p rest =>
          refine hmoves.trans (hmoves.1.setFreeList hq fun a ha => hmoves.1.free c q hq a ?_)
          rw [hlist]
          exact List.mem_cons_of_mem p ha

theorem leaves_takeBatch (c : Nat) : Leaves (Moves h) (takeBatch c) h := by
  unfold takeBatch
  refine hs.leaves_stocked_bind fun q t hmoves hq => ?_
  exact hmoves.trans (hmoves.1.setFreeList hq fun a ha => hmoves.1.free c q hq a (List.mem_of_mem_drop ha))

theorem leaves_returnBatch (hblocks : ∀ p ∈ blocks, h.SlotAt c p) :
    Leaves (Moves h) (returnBatch c blocks) h := by
  unfold returnBatch
  refine leaves_region_bind hs.moves fun r hr => hs.setFreeList hr fun p hp => ?_
  rcases List.mem_append.mp hp with hback | hold
  · exact hblocks p hback
  · exact hs.free c r hr p hold

theorem leaves_freeSmall (hp : h.SlotAt c p) : Leaves (Moves h) (freeSmall p) h := by
  obtain ⟨hprimary, hclass, -⟩ := hp.locate?_eq hs.tracts
  have hsub : Word.sub p h.space.begin = .ok (p - h.space.begin) :=
    Word.sub_eq_ok.mpr ⟨(isPrimary_iff.mp hprimary).1, rfl⟩
  unfold freeSmall classOfPlace
  rw [bind_assoc]
  refine leaves_get_bind ?_
  rw [hsub]
  show Leaves (Moves h) (Heap.region (h.classOf p) >>= _) h
  rw [hclass]
  refine leaves_region_bind hs.moves fun r hr => hs.setFreeList hr fun a ha => ?_
  rcases List.mem_cons.mp ha with rfl | hold
  · exact hp
  · exact hs.free c r hr a hold

theorem withPages {pages : Pages} (shadow : Shadow)
    (hwritable : ∀ a, a < h.primaryEnd → h.pages.Writable a → pages.Writable a) :
    Moves h { h with pages, shadow } :=
  hs.withLarge shadow hwritable hs.large hs.counted rfl rfl

/-- No call past the caches leaves a block in a list that begins no slot of it. -/
theorem leaves_smallCall (call : SmallCall) (hfits : call.Fits h) : Leaves (Moves h) call.perform h := by
  cases call with
  | allocate size alignment => exact (hs.leaves_allocateSmall size alignment).map
  | deallocate p =>
      obtain ⟨c, hp⟩ := hfits
      exact hs.leaves_freeSmall hp
  | bulkAllocate c => exact (hs.leaves_takeBatch c).map
  | bulkDeallocate c blocks => exact hs.leaves_returnBatch hfits
  | schedule failures => exact hs.withPages h.shadow fun _ _ hw => hw

end Sited

end GuardedHeap.Heap

/-! ## Through a cache -/

namespace GuardedHeap.Heap.Session

open Act

variable {s t u : Session} {c p : Nat} {l : List Nat}

/-- The blocks in each list begin slots of its class. -/
def Listed (s : Session) : Prop :=
  ∀ c l, s.cache.lists[c]? = some l → ∀ p ∈ l, s.heap.SlotAt c p

/-- Heap and cache are in order, and free blocks begin slots. -/
structure Stands (s : Session) : Prop where
  sited : s.heap.Sited
  balanced : s.Balanced
  listed : s.Listed

/-- What a call on a session may come to. -/
def Steps (s t : Session) : Prop :=
  t.Stands ∧ s.heap.Extends t.heap

theorem Steps.trans (h : Steps s t) (h' : Steps t u) : Steps s u :=
  ⟨h'.1, h.2.trans h'.2⟩

/-! ### Lists -/

namespace Listed

variable (hlisted : s.Listed)

include hlisted

theorem withHeap {h : Heap} (hextends : s.heap.Extends h) : Listed { s with heap := h } :=
  fun c l hl p hp => hextends.slots c p (hlisted c l hl p hp)

/-- A list may be replaced by one of other slots. -/
theorem update {total : Nat} (hl : ∀ p ∈ l, s.heap.SlotAt c p) :
    Listed { s with cache := s.cache.update c l total } := by
  intro d l' hl' p hp
  change (s.cache.lists.setIfInBounds c l)[d]? = some l' at hl'
  rw [Array.getElem?_setIfInBounds] at hl'
  split at hl'
  case isTrue hcd =>
    split at hl'
    · obtain rfl := Option.some.inj hl'
      exact hcd ▸ hl p hp
    · exact nomatch hl'
  case isFalse => exact hlisted d l' hl' p hp

theorem ends_takeListed (hl : s.cache.lists[c]? = some l) :
    Ends (takeListed c) s (fun p t => t.heap = s.heap ∧ t.Listed ∧ s.heap.SlotAt c p) fun _ t => t = s := by
  have hslots := hlisted c l hl
  unfold takeListed
  rw [ends_bind]
  refine ends_listed hl ?_
  cases l with
  | nil => exact rfl
  | cons p rest =>
      obtain ⟨hp, hrest⟩ := List.forall_mem_cons.mp hslots
      exact ⟨rfl, hlisted.update hrest, hp⟩

end Listed

namespace Stands

variable (hs : s.Stands)

include hs

theorem steps : Steps s s :=
  ⟨hs, .refl s.heap⟩

/-- A step of the heap alone. -/
theorem of_heap {h : Heap} (hmoves : Moves s.heap h) : Steps s { s with heap := h } :=
  ⟨⟨hmoves.1, hs.balanced.of_books (congrArg (s.cache, ·) hmoves.2.build), hs.listed.withHeap hmoves.2⟩,
    hmoves.2⟩

theorem leaves_onHeap {α : Type} {act : Act AllocError Heap α} (h : Leaves (Moves s.heap) act s.heap) :
    Leaves (Steps s) (onHeap act) s :=
  Leaves.onPart (show Leaves (fun h => Steps s { s with heap := h }) act s.heap from hs.of_heap h)

/-! ### Taking and giving back -/

/-- A block that is taken begins a slot of the class. -/
theorem ends_takeCached (hc : c < s.heap.classes.count) :
    Ends (takeCached c) s (fun p t => Steps s t ∧ t.heap.SlotAt c p) fun _ t => Steps s t := by
  have hlists : Ends (takeCached c) s
      (fun p t => (Moves s.heap t.heap ∧ t.Listed) ∧ t.heap.SlotAt c p)
      fun _ t => Moves s.heap t.heap ∧ t.Listed := by
    obtain ⟨l, hl⟩ := hs.balanced.exists_list hc
    have htake : ∀ {t : Session} {l : List Nat}, t.cache.lists[c]? = some l → Moves s.heap t.heap → t.Listed →
        Ends (takeListed c) t (fun p u => (Moves s.heap u.heap ∧ u.Listed) ∧ u.heap.SlotAt c p)
          fun _ u => Moves s.heap u.heap ∧ u.Listed := by
      intro t l hl hmoves hlisted
      refine (hlisted.ends_takeListed hl).imp ?_ ?_
      · rintro p u ⟨hheap, hlisted', hp⟩
        rw [hheap]
        exact ⟨⟨hmoves, hlisted'⟩, hp⟩
      · rintro - _ rfl
        exact ⟨hmoves, hlisted⟩
    unfold takeCached
    rw [ends_bind]
    refine ends_listed hl ?_
    by_cases hempty : l.isEmpty = true
    case neg =>
      rw [if_neg hempty]
      exact htake hl hs.sited.moves hs.listed
    rw [if_pos hempty, ends_bind]
    unfold refill
    rw [ends_bind, ends_onHeap]
    refine (hs.sited.ends_takeBatch hc).imp ?_ ?_
    · rintro batch h ⟨hmoves, hbatch⟩
      refine ends_bind.mpr (ends_get.mpr (ends_modify.mpr ?_))
      refine htake (l := batch) ?_ hmoves ((hs.listed.withHeap hmoves.2).update hbatch)
      exact (Cache.getElem?_update (hs.balanced.lists ▸ hc)).trans (if_pos rfl)
    · rintro - h hmoves
      exact ⟨hmoves, hs.listed.withHeap hmoves.2⟩
  refine ((hs.balanced.ends_takeCached hc).and_endsOrStops hlists.orStops).imp ?_ ?_
  · rintro p t ⟨⟨hbalanced, -⟩, ⟨hmoves, hlisted⟩, hp⟩
    exact ⟨⟨⟨hmoves.1, hbalanced, hlisted⟩, hmoves.2⟩, hp⟩
  · rintro - t ⟨⟨hbalanced, -⟩, hmoves, hlisted⟩
    exact ⟨⟨hmoves.1, hbalanced, hlisted⟩, hmoves.2⟩

/-- A slot may be given back to the list of its class. -/
theorem endsOrStops_returnCached (hp : s.heap.SlotAt c p) :
    EndsOrStops (returnCached c p) s (fun _ t => Steps s t) fun _ t => Steps s t := by
  have hlists : EndsOrStops (returnCached c p) s (fun _ t => Moves s.heap t.heap ∧ t.Listed)
      fun _ t => Moves s.heap t.heap ∧ t.Listed := by
    obtain ⟨l, hl⟩ := hs.balanced.exists_list (hp.lt_count hs.sited.tracts)
    have hslots : ∀ q ∈ p :: l, s.heap.SlotAt c q := List.forall_mem_cons.mpr ⟨hp, hs.listed c l hl⟩
    unfold returnCached
    simp only [endsOrStops_bind, endsOrStops_get]
    refine (ends_listed hl ?_).orStops
    refine (ends_modify.mpr ?_).orStops
    refine endsOrStops_liftM.mpr fun limit _ => ?_
    split
    case isFalse => exact ⟨hs.sited.moves, hs.listed.update hslots⟩
    rw [endsOrStops_bind]
    refine (ends_modify.mpr ?_).orStops
    have hkept : Listed ⟨s.heap, (s.cache.update c (p :: l) (s.cache.total + 1)).update c
        ((p :: l).drop (max (s.heap.classes.maxCached c) 1))
        (s.cache.total + 1 - max (s.heap.classes.maxCached c) 1)⟩ :=
      (hs.listed.update hslots).update fun q hq => hslots q (List.mem_of_mem_drop hq)
    have hback : Leaves (Moves s.heap) (returnBatch c ((p :: l).take (max (s.heap.classes.maxCached c) 1)))
        s.heap := hs.sited.leaves_returnBatch fun q hq => hslots q (List.mem_of_mem_take hq)
    unfold onHeap
    rw [endsOrStops_onPart]
    exact hback.orStops.imp (fun _ h hmoves => ⟨hmoves, hkept.withHeap hmoves.2⟩)
      fun _ h hmoves => ⟨hmoves, hkept.withHeap hmoves.2⟩
  refine ((hs.balanced.endsOrStops_returnCached c p).and hlists).imp ?_ ?_
  all_goals
    rintro - t ⟨hbalanced, hmoves, hlisted⟩
    exact ⟨⟨hmoves.1, hbalanced, hlisted⟩, hmoves.2⟩

/-- Lists of slots may be given back, class by class. -/
theorem leaves_returnLists {lists : List (List Nat)}
    (hlists : ∀ (i : Nat) l, lists[i]? = some l → ∀ p ∈ l, s.heap.SlotAt (c + i) p) :
    Leaves (Steps s) (returnLists c lists) s := by
  induction lists generalizing c s with
  | nil => exact hs.steps
  | cons list rest ih =>
      have hrest : ∀ {t : Session}, Steps s t → Leaves (Steps s) (returnLists (c + 1) rest) t := by
        intro t hsteps
        have hleft : Leaves (Steps t) (returnLists (c + 1) rest) t := by
          refine ih hsteps.1 fun i l hl p hp => hsteps.2.slots _ p ?_
          rw [Nat.add_assoc, Nat.add_comm 1 i]
          exact hlists (i + 1) l hl p hp
        exact hsteps.trans hleft
      unfold returnLists
      split
      · refine (hs.leaves_onHeap ?_).bind fun _ t _ hsteps => hrest hsteps
        exact hs.sited.leaves_returnBatch fun p hp => hlists 0 list rfl p hp
      · exact hrest hs.steps

omit hs in
/-- Nothing is in the lists of a new cache. -/
theorem new {h : Heap} (hsited : h.Sited) : Stands ⟨h, Cache.new h.classes.count⟩ := by
  refine ⟨hsited, Balanced.new hsited.classes.lawful hsited.tracts.regions rfl, fun d l hl p hp => ?_⟩
  have hnew : (Array.replicate h.classes.count ([] : List Nat))[d]? = some l := hl
  rw [Array.getElem?_replicate] at hnew
  split at hnew
  · obtain rfl := Option.some.inj hnew
    exact nomatch hp
  · exact nomatch hnew

/-- Draining leaves empty lists. -/
theorem leaves_drain : Leaves (Steps s) drain s := by
  unfold drain
  refine leaves_get_bind ((hs.leaves_returnLists fun i l hl p hp => ?_).bind fun _ t _ hsteps => ?_)
  · rw [Nat.zero_add]
    rw [Array.getElem?_toList] at hl
    exact hs.listed i l hl p hp
  · refine leaves_modify ⟨?_, hsteps.2⟩
    rw [hsteps.1.balanced.lists]
    exact .new hsteps.1.sited

/-- Whatever address is freed, a slot goes back to its list or a mapping is unmapped, if anything is done. -/
theorem endsOrStops_free (p : Nat) :
    EndsOrStops (free p) s (fun _ t => Steps s t) fun _ t => Steps s t := by
  unfold free
  by_cases hzero : p = 0
  · rw [if_pos hzero]
    exact hs.steps
  rw [if_neg hzero, endsOrStops_bind]
  refine endsOrStops_get.mpr ?_
  by_cases hprimary : s.heap.isPrimary p = true
  · rw [if_pos hprimary]
    by_cases hbegin : s.heap.blockBegin? p = some p
    · simp only [hbegin, ne_eq, not_true_eq_false, if_false]
      exact hs.endsOrStops_returnCached (hs.sited.tracts.slotAt hprimary hbegin)
    · rw [if_pos hbegin]
      exact hs.steps
  · rw [if_neg hprimary]
    exact (hs.leaves_onHeap (hs.sited.leaves_freeLarge p)).orStops

end Stands

end GuardedHeap.Heap.Session

/-! ## Requests -/

namespace GuardedHeap.Heap

open Act

/-- The block at `p` is one for `size` bytes at a multiple of `alignment`, and a small one is of the least
    class that has blocks for the rounded size at such multiples. -/
structure Serves (h : Heap) (size alignment p : Nat) : Prop where
  aligned : alignment ∣ p
  room : ∃ n, h.actualSize? p = some n ∧ max size 1 ≤ n
  least : h.isPrimary p = true →
    IsLeast {c | c < h.classes.count ∧ Word.roundUp (max size 1) alignment ≤ h.classes.size c
      ∧ alignment ∣ h.classes.size c} (h.classOf p)

/-- A block for the size rounded up is one for the size. -/
theorem Serves.of_le {h : Heap} {size n alignment p : Nat} (h' : h.Serves n alignment p) (hle : max size 1 ≤ n)
    (hround : Word.roundUp (max n 1) alignment = Word.roundUp (max size 1) alignment) :
    h.Serves size alignment p where
  aligned := h'.aligned
  room := by
    obtain ⟨actual, hactual, hroom⟩ := h'.room
    exact ⟨actual, hactual, by omega⟩
  least := hround ▸ h'.least

namespace Session

variable {s t : Session} {c p size alignment : Nat}

namespace Stands

variable (hs : s.Stands)

include hs

/-- A size that was rounded has a class or leaves the small blocks. -/
theorem ends_allocateRounded (hsize : 0 < size) (halign : Word.isPowerOfTwo alignment = true)
    (hdvd : size ≤ s.heap.classes.maxSize → alignment ∣ s.heap.classes.maxSize) :
    Ends (allocateRounded size alignment) s (fun p t => Steps s t ∧ t.heap.Serves size alignment p)
      fun e t => Steps s t ∧ ¬ e.Misroutes := by
  have hpos : 0 < alignment := by
    obtain ⟨k, rfl⟩ := Word.isPowerOfTwo_iff.mp halign
    exact Word.powerOfTwo_pos k
  have hone : max size 1 = size := Nat.max_eq_left hsize
  unfold allocateRounded
  rw [ends_bind, ends_get]
  -- Small requests are served by the least class that fits, all others by a mapping.
  by_cases hsmall : size ≤ s.heap.classes.maxSize ∧ alignment ≤ Pages.pageSize
  · obtain ⟨c, hc, ⟨hcount, hholds, haligned⟩, hleast⟩ :=
      hs.balanced.lawful.isLeast_alignedClassOf? hpos hsmall.1 (hdvd hsmall.1)
    rw [if_pos (by simpa [canAllocateSmall] using hsmall), hc]
    refine ((hs.ends_takeCached hcount).and_endsOrStops ((raises_takeCached c).endsOrStops s)).imp ?_ ?_
    · rintro p t ⟨⟨hsteps, hp⟩, -⟩
      have hclasses := hsteps.2.ground.classes
      obtain ⟨hprimary, hclass, slot, hlocate⟩ := hp.locate?_eq hsteps.1.sited.tracts
      refine ⟨hsteps, ?_, ?_, fun _ => ?_⟩
      · refine hp.dvd hsteps.1.sited.tracts (Word.dvd_of_powerOfTwo_le halign (by decide) hsmall.2) ?_
        rw [hclasses]
        exact haligned
      · refine ⟨t.heap.classes.size c, ?_, ?_⟩
        · unfold actualSize?
          rw [if_pos hprimary, hlocate]
          rfl
        · rw [hone, hclasses]
          exact hholds
      · rw [hone, hclass, hclasses]
        refine ⟨⟨hcount, Word.roundUp_le hpos haligned hholds, haligned⟩, ?_⟩
        rintro d ⟨hd, hle, haligned'⟩
        exact hleast ⟨hd, Nat.le_trans Word.le_roundUp hle, haligned'⟩
    · rintro e t ⟨hsteps, hdue⟩
      refine ⟨hsteps, fun hmis => hdue ?_⟩
      cases e <;> first | exact hmis | exact trivial
  · rw [if_neg (by simpa [canAllocateSmall] using hsmall), ends_onHeap]
    refine (hs.sited.ends_allocateLarge hsize halign).imp ?_ fun e h hno => ⟨hs.of_heap hno.1, hno.2⟩
    rintro user h ⟨hmoves, hbehind, hmultiple, hactual⟩
    have hprimary : ¬ h.isPrimary user = true := by
      rw [isPrimary_iff, hmoves.2.primaryEnd]
      omega
    have hpage : Word.isPowerOfTwo Pages.pageSize = true := by decide
    refine ⟨hs.of_heap hmoves, ?_, ⟨Word.roundUp size Pages.pageSize, ?_, ?_⟩, fun h' => absurd h' hprimary⟩
    · refine Nat.dvd_trans ?_ hmultiple
      exact Word.dvd_of_powerOfTwo_le halign (isPowerOfTwo_max halign hpage) (Nat.le_max_left _ _)
    · unfold actualSize?
      rw [if_neg hprimary]
      exact hactual
    · rw [hone]
      exact Word.le_roundUp

/-- A request at a power of two comes to a block that serves it, or is refused for want of room. -/
theorem ends_allocate_powerOfTwo (size : Nat) (halign : Word.isPowerOfTwo alignment = true) :
    Ends (allocate size alignment) s (fun p t => Steps s t ∧ t.heap.Serves size alignment p)
      fun e t => Steps s t ∧ ¬ e.Misroutes := by
  have hpos : 0 < alignment := by
    obtain ⟨k, rfl⟩ := Word.isPowerOfTwo_iff.mp halign
    exact Word.powerOfTwo_pos k
  have hone : 1 ≤ max size 1 := Nat.le_max_right size 1
  have hrounded : ∀ n, max size 1 ≤ n →
      Word.roundUp (max n 1) alignment = Word.roundUp (max size 1) alignment →
      (n ≤ s.heap.classes.maxSize → alignment ∣ s.heap.classes.maxSize) →
      Ends (allocateRounded n alignment) s (fun p t => Steps s t ∧ t.heap.Serves size alignment p)
        fun e t => Steps s t ∧ ¬ e.Misroutes := by
    intro n hle hround hdvd
    refine (hs.ends_allocateRounded (Nat.lt_of_lt_of_le hone hle) halign hdvd).imp ?_ fun _ _ hno => hno
    rintro p t ⟨hsteps, hserves⟩
    exact ⟨hsteps, hserves.of_le hle hround⟩
  unfold allocate
  simp only [halign, Bool.not_true, Bool.false_eq_true, if_false]
  cases hadd : Word.add? (max size 1) alignment with
  | none => exact ⟨hs.steps, id⟩
  | some sum =>
      obtain ⟨hlt, rfl⟩ := Word.add?_eq_some.mp hadd
      simp only [Option.isNone_some, Bool.false_eq_true, if_false]
      by_cases hgranule : alignment > Shadow.granule
      · have hupper := Word.roundUp_lt (n := max size 1) hpos
        have hround : max size 1 ≤ Word.roundUp (max size 1) alignment := Word.le_roundUp
        rw [if_pos hgranule, ends_bind, ends_liftM]
        refine ⟨_, Word.nextMultiple_eq_ok.mpr ⟨hpos, by omega, rfl⟩, hrounded _ hround ?_ fun hfits => ?_⟩
        · rw [Nat.max_eq_left (Nat.le_trans hone hround), Word.roundUp_of_dvd hpos (Word.dvd_roundUp hpos)]
        · -- A size that is rounded up is at least as large as the alignment.
          refine hs.sited.classes.dvd_maxSize halign (Nat.le_trans ?_ hfits)
          exact Nat.le_of_dvd (Nat.lt_of_lt_of_le hone hround) (Word.dvd_roundUp hpos)
      · rw [if_neg hgranule, ends_bind, ends_pure]
        refine hrounded _ (Nat.le_refl _) (by rw [Nat.max_eq_left hone]) fun _ => ?_
        -- All classes have the alignments that are no more than a granule.
        have hlawful := hs.balanced.lawful
        refine Nat.dvd_trans ?_ (hlawful.dvd_size (Nat.sub_one_lt (Nat.ne_of_gt hlawful.count_pos)))
        exact Word.dvd_of_powerOfTwo_le halign (by decide) (Nat.not_lt.mp hgranule)

/-- Every request comes to a block that serves it, or is refused for a reason of its own; an alignment is
    refused if and only if it is no power of two. -/
theorem ends_allocate (size alignment : Nat) :
    Ends (allocate size alignment) s
      (fun p t => Steps s t ∧ Word.isPowerOfTwo alignment = true ∧ t.heap.Serves size alignment p)
      fun e t => Steps s t ∧ (∀ n, e ≠ .noSizeClass n)
        ∧ ((∃ a, e = .invalidAlignment a) ↔ ¬ Word.isPowerOfTwo alignment = true) := by
  by_cases halign : Word.isPowerOfTwo alignment = true
  · refine (hs.ends_allocate_powerOfTwo size halign).imp ?_ ?_
    · rintro p t ⟨hsteps, hserves⟩
      exact ⟨hsteps, halign, hserves⟩
    · rintro e t ⟨hsteps, hroutes⟩
      refine ⟨hsteps, fun n he => hroutes (he ▸ trivial), iff_of_false ?_ fun hnot => hnot halign⟩
      rintro ⟨a, rfl⟩
      exact hroutes trivial
  · have hnot : Word.isPowerOfTwo alignment = false := Bool.not_eq_true _ ▸ halign
    unfold allocate
    rw [hnot]
    exact ⟨hs.steps, nofun, iff_of_true ⟨alignment, rfl⟩ (by decide)⟩

/-- A block is moved to one that serves, or stays. -/
theorem endsOrStops_reallocate (p size alignment : Nat) :
    EndsOrStops (reallocate p size alignment) s (fun _ t => Steps s t) fun _ t => Steps s t := by
  have hallocate : Ends (allocate size alignment) s (fun _ t => Steps s t) fun _ t => Steps s t :=
    (hs.ends_allocate size alignment).imp (fun _ _ hok => hok.1) fun _ _ hno => hno.1
  by_cases hzero : p = 0
  · unfold reallocate
    rw [if_pos hzero]
    exact hallocate.orStops
  by_cases hsize : size = 0
  · unfold reallocate
    rw [if_neg hzero, if_pos hsize, endsOrStops_bind]
    exact hs.endsOrStops_free p
  rw [reallocate_eq hzero hsize, endsOrStops_bind]
  refine endsOrStops_get.mpr ?_
  cases s.heap.actualSize? p with
  | none => exact hs.steps
  | some oldSize =>
      rw [endsOrStops_bind, endsOrStops_orRefuse_some, endsOrStops_bind]
      refine hallocate.orStops.imp (fun fresh t hsteps => ?_) fun _ _ hno => hno
      unfold moveTo
      rw [endsOrStops_bind]
      refine (ends_modify.mpr ?_).orStops
      have hmoves : Moves t.heap { t.heap with pages := t.heap.pages.copy p fresh (min oldSize size) } :=
        hsteps.1.sited.withPages t.heap.shadow fun _ _ hw => hw
      have hcopied := hsteps.1.of_heap hmoves
      rw [endsOrStops_bind]
      exact (hcopied.1.endsOrStops_free p).imp (fun _ u hfree => hsteps.trans (hcopied.trans hfree))
        fun _ u hfree => hsteps.trans (hcopied.trans hfree)

end Stands

/-! ## All calls -/

namespace CacheCall

/-- What the call gives back begins a slot of the class that it goes to. -/
def Fits (h : Heap) : CacheCall → Prop
  | deallocate c p => h.SlotAt c p
  | uncached call => call.Fits h
  | _ => True

/-- No call on a cache leaves a block in a list that begins no slot of it. -/
theorem endsOrStops_fits (hs : s.Stands) (call : CacheCall) (hfits : call.Fits s.heap) :
    EndsOrStops call.perform s (fun _ t => Steps s t) fun _ t => Steps s t := by
  cases call with
  | allocate c =>
      refine endsOrStops_map.mpr ?_
      by_cases hc : c < s.heap.classes.count
      · exact ((hs.ends_takeCached hc).imp (fun _ _ hok => hok.1) fun _ _ hno => hno).orStops
      · have hnone : s.cache.lists[c]? = none :=
          Array.getElem?_eq_none (hs.balanced.lists ▸ Nat.le_of_not_lt hc)
        unfold EndsOrStops takeCached
        rw [bind_of_error (list_eq_stopped hnone)]
        exact trivial
  | deallocate c p => exact hs.endsOrStops_returnCached hfits
  | drain => exact hs.leaves_drain.orStops
  | uncached call => exact (hs.leaves_onHeap (hs.sited.leaves_smallCall call hfits)).orStops

end CacheCall

end Session

open Session (Stands Steps)

/-- A call of a thread: for a block of any kind, through its cache or past it, or for a large block alone. -/
inductive Request where
  | block (call : Session.Call)
  | cached (call : Session.CacheCall)
  | map (size alignment : Nat)
  | unmap (p : Nat)

namespace Request

/-- Make the call and drop what it returns. -/
def perform : Request → Act AllocError Session Unit
  | block call => (fun _ => ()) <$> call.perform
  | cached call => call.perform
  | map size alignment => (fun _ => ()) <$> Session.onHeap (allocateLarge size alignment)
  | unmap p => Session.onHeap (freeLarge p)

/-- What goes past all checks is in order: it gives back slots to their classes, and large blocks have bytes
    and an alignment. -/
def Fits (h : Heap) : Request → Prop
  | cached call => call.Fits h
  | map size alignment => 0 < size ∧ Word.isPowerOfTwo alignment = true
  | _ => True

/-- Every call leaves all in order. -/
theorem endsOrStops_perform {s : Session} (hs : s.Stands) (request : Request) (hfits : request.Fits s.heap) :
    EndsOrStops request.perform s (fun _ t => Steps s t) fun _ t => Steps s t := by
  cases request with
  | block call =>
      refine endsOrStops_map.mpr ?_
      cases call with
      | allocate size alignment =>
          exact ((hs.ends_allocate size alignment).imp (fun _ _ hok => hok.1) fun _ _ hno => hno.1).orStops
      | free p => exact endsOrStops_bind.mpr (hs.endsOrStops_free p)
      | reallocate p size alignment => exact hs.endsOrStops_reallocate p size alignment
  | cached call => exact call.endsOrStops_fits hs hfits
  | map size alignment =>
      have hmap := (hs.sited.ends_allocateLarge hfits.1 hfits.2).imp (fun _ _ hok => hok.1)
        fun _ _ hno => hno.1
      exact (hs.leaves_onHeap hmap.leaves).map.orStops
  | unmap p => exact (hs.leaves_onHeap (hs.sited.leaves_freeLarge p)).orStops

end Request

/-- A heap and the caches of all threads, after any calls.  Anything else may happen to pages as long as the
    regions keep theirs, and the records of blocks and the shadow may be anything. -/
inductive Reaches : Heap → List Cache → Prop where
  | created {classes : SizeClasses} {log secondaryLog : Nat} {p q : Pages} {h : Heap}
      (hclasses : classes.Accepted) (hge : 20 ≤ log) (hle : log ≤ 36)
      (hact : create classes log secondaryLog p = .ok h q) : Reaches h []
  | cache {h : Heap} {caches : List Cache} (hrun : Reaches h caches) :
      Reaches h (caches ++ [Cache.new h.classes.count])
  | request {h : Heap} {caches : List Cache} {i : Nat} {cache : Cache} {request : Request} {t : Session}
      (hrun : Reaches h caches) (hcache : caches[i]? = some cache) (hfits : request.Fits h)
      (hleft : Act.left? request.perform ⟨h, cache⟩ = some t) : Reaches t.heap (caches.set i t.cache)
  | record {h : Heap} {caches : List Cache} (hrun : Reaches h caches) (block : Nat) (record : ChunkRecord) :
      Reaches (h.setRecord block record) caches
  | elsewhere {h : Heap} {caches : List Cache} {pages : Pages} (hrun : Reaches h caches) (shadow : Shadow)
      (hkept : ∀ a < h.primaryEnd, h.pages.Writable a → pages.Writable a) :
      Reaches { h with pages, shadow } caches

namespace Reaches

variable {caches : List Cache} {i : Nat} {cache : Cache}

/-- After any calls the heap is in order with every cache. -/
theorem stands (hrun : Reaches h caches) : h.Sited ∧ ∀ cache ∈ caches, Stands ⟨h, cache⟩ := by
  have hmove : ∀ {h t : Heap} {caches : List Cache}, (h.Sited ∧ ∀ cache ∈ caches, Stands ⟨h, cache⟩) →
      Moves h t → t.Sited ∧ ∀ cache ∈ caches, Stands ⟨t, cache⟩ := fun ih hmoves =>
    ⟨hmoves.1, fun cache hcache => ((ih.2 cache hcache).of_heap hmoves).1⟩
  induction hrun with
  | created hclasses hge hle hact => exact ⟨.of_create hclasses hge hle hact, nofun⟩
  | @cache h caches _ ih =>
      refine ⟨ih.1, fun cache hcache => ?_⟩
      rcases List.mem_append.mp hcache with hold | hnew
      · exact ih.2 cache hold
      · obtain rfl := List.mem_singleton.mp hnew
        exact .new ih.1
  | @request h caches i cache request t _ hcache hfits hleft ih =>
      obtain ⟨ht, hextends⟩ :=
        (request.endsOrStops_perform (ih.2 cache (List.mem_of_getElem? hcache)) hfits).of_left? hleft
      refine ⟨ht.sited, fun other hother => ?_⟩
      rcases List.mem_or_eq_of_mem_set hother with hold | rfl
      · exact (hmove ih ⟨ht.sited, hextends⟩).2 other hold
      · exact ht
  | record _ block record ih => exact hmove ih (ih.1.setRecord block record)
  | elsewhere _ shadow hkept ih => exact hmove ih (ih.1.withPages shadow hkept)

end Reaches

end GuardedHeap.Heap
