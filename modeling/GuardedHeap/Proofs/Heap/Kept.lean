import GuardedHeap.Proofs.Heap.Session

/-! # Kept facts — what allocating and freeing leave of a heap

    Small blocks come out of regions and go back into them, so what a change
    of a region keeps is kept by all that is done to small blocks; of what
    is done to large ones, by mapping and unmapping.  An allocation keeps
    what committing and mapping keep besides (`Session.leaves_allocate`).
    Marks are the first use of this: what is marked while a block is looked
    for was not committed before, so committed addresses have the shadow
    bytes that they had (`WF.leaves_allocate`). -/

namespace GuardedHeap

open Act

namespace Heap

variable {h : Heap} {c a addr size alignment : Nat} {ε α : Type}

/-! ## What touches no shadow -/

theorem leaves_onPages {act : Act MapError Pages α} {P : Heap → Prop}
    (hp : ∀ pages, P { h with pages }) : Leaves P (onPages act) h :=
  Leaves.mapError (Leaves.onPart (hp _))

theorem fixes_onShadow {f : ShadowError → ε} {act : Act ShadowError Shadow α}
    (hact : Fixes (·.code a) act) : Fixes (·.shadow.code a) (onShadow f act) :=
  (hact.onPart fun _ _ hshadow => hshadow).mapError

theorem fixes_poison {why : Shadow.Magic} (ha : a < Word.limit)
    (hout : ¬ (addr ≤ a ∧ a < Word.roundUp (addr + size) Shadow.granule)) :
    Fixes (·.shadow.code a) (poison addr size why) :=
  fixes_onShadow (Shadow.fixes_poison ha hout)

/-- Looking a region up changes nothing. -/
theorem fixes_region : Fixes id (region c) :=
  fixes_get.bind fun _ => fixes_orStop

/-- A region that is there is found. -/
theorem of_region {r : Region} (hact : region c h = .ok r h) : h.regions[c]? = some r := by
  obtain ⟨_, _, hget, hfound⟩ := bind_eq_ok.mp hact
  obtain ⟨rfl, rfl⟩ := get_eq_ok.mp hget
  exact (orStop_eq_ok.mp hfound).1

/-! ## Committing and mapping -/

/-- Pages that are committed for a class were not committed before. -/
theorem WF.leaves_commitRegion (hwf : h.WF) (ha : a ∈ h.committed) (c : Nat) (reach : Reach) :
    Leaves (fun t => t.shadow.code a = h.shadow.code a) (commitRegion c reach) h := by
  refine leaves_get_bind (.read_bind fixes_region rfl fun r hr => ?_)
  have hr := of_region hr
  have hregion := hwf.region c r hr
  have hbegin := hwf.layout.regionBegin_dvd c
  have hdvd : Pages.pageSize ∣ max (min (Word.roundUp reach.user commitBytes) h.regionSize) r.mappedUser :=
    dvd_max (dvd_min (Nat.dvd_trans (by decide) (Word.dvd_roundUp (by decide))) hwf.layout.region_dvd)
      hregion.mappedUser_dvd
  have hle : max (min (Word.roundUp reach.user commitBytes) h.regionSize) r.mappedUser ≤ h.regionSize :=
    Nat.max_le.mpr ⟨Nat.min_le_right _ _, hregion.mappedUser_le⟩
  generalize max (min (Word.roundUp reach.user commitBytes) h.regionSize) r.mappedUser = user at *
  have hput : ∀ {t : Heap} (r : Region), t.shadow.code a = h.shadow.code a →
      Leaves (fun t => t.shadow.code a = h.shadow.code a) (putRegion c r) t := fun _ ht => ht
  refine (leaves_onPages fun _ => rfl).bind fun _ t _ ht => (leaves_onPages fun _ => ht).bind fun _ u _ hu => ?_
  by_cases hmore : user > r.mappedUser
  · rw [if_pos hmore]
    -- The new pages begin where the committed ones of the region end.
    have hlast : Shadow.granule ∣ h.regionBegin c + r.mappedUser + (user - r.mappedUser) := by
      refine Nat.dvd_trans granule_dvd_pageSize ?_
      rw [show h.regionBegin c + r.mappedUser + (user - r.mappedUser) = h.regionBegin c + user by omega]
      exact Nat.dvd_add hbegin hdvd
    have hout : ¬ (h.regionBegin c + r.mappedUser ≤ a
        ∧ a < Word.roundUp (h.regionBegin c + r.mappedUser + (user - r.mappedUser)) Shadow.granule) := by
      rw [Word.roundUp_of_dvd (by decide) hlast]
      exact fun hin => hwf.not_committed hr hin.1 (by omega) ha
    exact Leaves.bind ((fixes_poison (hwf.lt_limit ha) hout u).trans hu) fun _ v _ hv => hput _ hv
  · rw [if_neg hmore]
    exact hput _ hu

/-- A span is taken from those that are free. -/
theorem of_takeSpan {size mapSize begin : Nat} {t : Heap}
    (hact : takeSpan size mapSize h = .ok begin t) :
    ∃ spans, h.large.spans.alloc mapSize = some (begin, spans)
      ∧ t = { h with large := { h.large with spans } } := by
  obtain ⟨_, _, hget, hrest⟩ := bind_eq_ok.mp hact
  obtain ⟨rfl, rfl⟩ := get_eq_ok.mp hget
  obtain ⟨found, _, hfound, hrest⟩ := bind_eq_ok.mp hrest
  obtain ⟨halloc, rfl⟩ := orRefuse_eq_ok.mp hfound
  obtain ⟨_, _, hset, hrest⟩ := bind_eq_ok.mp hrest
  obtain ⟨rfl, rfl⟩ := pure_eq_ok.mp hrest
  exact ⟨found.2, halloc, (modify_eq_ok.mp hset).symm⟩

/-- The mapping of a large block was not committed before. -/
theorem WF.leaves_allocateLarge (hwf : h.WF) (ha : a ∈ h.committed) (size : Nat)
    (halign : Word.isPowerOfTwo alignment = true) :
    Leaves (fun t => t.shadow.code a = h.shadow.code a) (allocateLarge size alignment) h := by
  refine .read_bind fixes_orRefuse rfl fun mapSize hmapSize => ?_
  obtain ⟨hmapdvd, -⟩ := mapSizeFor?_spec halign (orRefuse_eq_ok.mp hmapSize).1
  refine Leaves.bind ?_ fun mapBegin t htake ht => ?_
  · exact leaves_get_bind (.read_bind fixes_orRefuse rfl fun _ _ => rfl)
  obtain ⟨spans, halloc, rfl⟩ := of_takeSpan htake
  obtain ⟨-, -, hbegin, hlo, -, hfree, -⟩ := Spans.alloc_spec hwf.large.spans hmapdvd halloc
  refine Leaves.bind (.attempt (leaves_onPages fun _ => rfl)) fun result u _ hu => ?_
  cases result with
  | error e => exact Leaves.bind hu fun _ _ _ hv => hv
  | ok _ =>
      have hlast : Shadow.granule ∣ mapBegin + mapSize :=
        Nat.dvd_trans granule_dvd_pageSize (Nat.dvd_add hbegin hmapdvd)
      have hout : ¬ (mapBegin ≤ a ∧ a < Word.roundUp (mapBegin + mapSize) Shadow.granule) := by
        rw [Word.roundUp_of_dvd (by decide) hlast]
        exact fun hin => hwf.free_not_committed (Nat.le_trans hlo hin.1) (hfree a hin.1 hin.2) ha
      refine Leaves.bind ((fixes_poison (hwf.lt_limit ha) hout u).trans hu) fun _ v _ hv => ?_
      exact .read_bind fixes_liftM hv fun _ _ => Leaves.bind hv fun _ _ _ hw => hw

/-! ## Small blocks and others -/

section Kept

variable {P : Heap → Prop} (hregion : ∀ h c r, P h → P (h.setRegion c r))

include hregion

/-- A region that is put back leaves the rest. -/
theorem leaves_putRegion (hs : P h) (r : Region) : Leaves P (putRegion c r) h :=
  hregion h c r hs

/-- Carving slots leaves what commits and regions leave. -/
theorem leaves_populate (hs : P h) (hcommit : ∀ reach, Leaves P (commitRegion c reach) h) :
    Leaves P (populate c) h := by
  have hput : ∀ {t : Heap} {f : Heap → Region → Region}, P t →
      Leaves P (do putRegion c (f h (← region c))) t := fun ht =>
    .read_bind fixes_region ht fun r _ => leaves_putRegion hregion ht _
  refine leaves_get_bind (.read_bind fixes_region hs fun r _ => leaves_ite (fun _ => ?_) fun _ => ?_)
  · exact .read_bind fixes_refuse hs fun _ hact => (refuse_eq_ok.mp hact).elim
  · refine leaves_ite (fun _ => ?_) fun _ => ?_
    · exact (hcommit _).bind fun _ t _ ht => hput (f := fun h r' => Region.carve r' _ _ _) ht
    · exact hput (f := fun h r' => Region.carve r' _ _ _) hs

/-- Stocking a region leaves what commits leave. -/
theorem leaves_stockedRegion (hs : P h) (hcommit : ∀ reach, Leaves P (commitRegion c reach) h) :
    Leaves P (stockedRegion c) h := by
  refine .read_bind fixes_region hs fun r _ => leaves_ite (fun _ => ?_) fun _ => hs
  refine (leaves_populate hregion hs hcommit).bind fun _ t _ ht => ?_
  show P ((region c).after t)
  rwa [show (region c).after t = t from fixes_region t]

/-- Taking a batch leaves what commits leave. -/
theorem leaves_takeBatch (hs : P h) (hcommit : ∀ reach, Leaves P (commitRegion c reach) h) :
    Leaves P (takeBatch c) h :=
  (leaves_stockedRegion hregion hs hcommit).bind fun _ _ _ ht => leaves_get_bind <|
    (leaves_putRegion hregion ht _).bind fun _ _ _ hu => hu

namespace Session

variable {s : Session}

omit hregion in
theorem fixes_list : Fixes id (list c) :=
  fixes_get.bind fun _ => fixes_orStop

/-- Taking a cached slot leaves what commits leave. -/
theorem leaves_takeCached (hs : P s.heap)
    (hcommit : ∀ reach, Leaves P (commitRegion c reach) s.heap) :
    Leaves (fun t => P t.heap) (takeCached c) s := by
  have htake : ∀ {t : Session}, P t.heap → Leaves (fun t => P t.heap) (takeListed c) t := by
    intro t ht
    refine .read_bind fixes_list ht fun l _ => ?_
    cases l with
    | nil => exact leaves_get_bind ht
    | cons p rest => exact leaves_get_bind (Leaves.bind ht fun _ _ _ hu => hu)
  refine .read_bind fixes_list hs fun l _ => leaves_ite (fun _ => ?_) fun _ => htake hs
  have hbatch : Leaves (fun t => P t.heap) (onHeap (takeBatch c)) s :=
    Leaves.onPart (leaves_takeBatch hregion hs hcommit)
  have hrefill : Leaves (fun t => P t.heap) (refill c) s :=
    hbatch.bind fun _ t _ ht => leaves_get_bind ht
  exact hrefill.bind fun _ t _ ht => htake ht

/-- Allocating keeps what committing and mapping keep. -/
theorem leaves_allocate (hs : P s.heap)
    (hcommit : ∀ c reach, Leaves P (commitRegion c reach) s.heap) (size alignment : Nat)
    (hmap : Word.isPowerOfTwo alignment = true →
      ∀ size, Leaves P (allocateLarge size alignment) s.heap) :
    Leaves (fun t => P t.heap) (allocate size alignment) s := by
  have hrefused : ∀ {β : Type} {e : AllocError} {next : Unit → Act AllocError Session β},
      Leaves (fun t => P t.heap) (refuse e >>= next) s := fun {_ _ _} =>
    .read_bind fixes_refuse hs fun _ hact => (refuse_eq_ok.mp hact).elim
  unfold allocate
  refine leaves_ite (fun _ => hrefused) fun hpower => ?_
  have hpower : Word.isPowerOfTwo alignment = true := by simpa using hpower
  have hrounded : ∀ n, Leaves (fun t => P t.heap) (allocateRounded n alignment) s := by
    refine fun n => leaves_get_bind (leaves_ite (fun _ => ?_) fun _ => Leaves.onPart (hmap hpower n))
    refine .read_bind fixes_liftM hs fun found _ => ?_
    cases found with
    | none => exact hs
    | some c => exact leaves_takeCached hregion hs (hcommit c)
  refine leaves_ite (fun _ => hrefused) fun _ => leaves_ite (fun _ => ?_) fun _ => hrounded _
  exact .read_bind fixes_liftM hs fun n _ => hrounded n

/-! ## Giving back -/

omit hregion in
theorem leaves_putList (hs : P s.heap) (l : List Nat) (total : Nat) :
    Leaves (fun t => P t.heap) (putList c l total) s := hs

/-- A batch that is returned leaves the rest. -/
theorem leaves_returnBatch (hs : P h) (blocks : List Nat) : Leaves P (returnBatch c blocks) h :=
  .read_bind fixes_region hs fun _ _ => leaves_putRegion hregion hs _

theorem leaves_returnCached (hs : P s.heap) (p : Nat) :
    Leaves (fun t => P t.heap) (returnCached c p) s := by
  refine leaves_get_bind (.read_bind fixes_list hs fun l _ => leaves_get_bind ?_)
  refine (leaves_putList hs _ _).bind fun _ t _ ht => .read_bind fixes_liftM ht fun n _ => ?_
  refine leaves_ite (fun _ => ?_) fun _ => ht
  exact (leaves_putList ht _ _).bind fun _ u _ hu =>
    Leaves.onPart (leaves_returnBatch hregion hu _)

theorem leaves_returnLists (hs : P s.heap) (lists : List (List Nat)) :
    Leaves (fun t => P t.heap) (returnLists c lists) s := by
  induction lists generalizing s c with
  | nil => exact hs
  | cons l rest ih =>
      unfold returnLists
      by_cases hempty : (!l.isEmpty) = true
      · rw [if_pos hempty]
        exact (Leaves.onPart (leaves_returnBatch hregion hs _)).bind fun _ t _ ht => ih ht
      · rw [if_neg hempty]
        exact ih hs

/-- A cache that is drained leaves the rest. -/
theorem leaves_drain (hs : P s.heap) : Leaves (fun t => P t.heap) drain s :=
  leaves_get_bind <| (leaves_returnLists hregion hs _).bind fun _ _ _ ht => ht

/-- Freeing keeps what unmapping keeps. -/
theorem leaves_free (hs : P s.heap) {p : Nat} (hunmap : Leaves P (freeLarge p) s.heap) :
    Leaves (fun t => P t.heap) (free p) s := by
  refine leaves_ite (fun _ => hs) fun _ => leaves_get_bind (leaves_ite (fun _ => ?_) fun _ => ?_)
  · refine leaves_ite (fun _ => ?_) fun _ => leaves_returnCached hregion hs _
    exact .read_bind fixes_refuse hs fun _ hact => (refuse_eq_ok.mp hact).elim
  · exact Leaves.onPart hunmap

end Session

end Kept

/-- The shadow bytes of committed addresses are as before. -/
theorem WF.leaves_allocate {s : Session} (hwf : s.heap.WF) (ha : a ∈ s.heap.committed)
    (size alignment : Nat) :
    Leaves (fun t => t.heap.shadow.code a = s.heap.shadow.code a) (Session.allocate size alignment) s :=
  Session.leaves_allocate (P := fun h => h.shadow.code a = s.heap.shadow.code a) (fun _ _ _ hs => hs)
    rfl (fun c reach => hwf.leaves_commitRegion ha c reach) size alignment fun halign size =>
      hwf.leaves_allocateLarge ha size halign

end Heap

end GuardedHeap
