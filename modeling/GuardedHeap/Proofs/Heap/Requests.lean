import GuardedHeap.Proofs.Redzone

/-! # Requests — which allocations are never granted

    A request whose alignment is no power of two, or whose chunk does not
    fit a machine word with all that goes around it, is undue: every heap
    refuses it for what it is.  All other requests are refused for want of
    room alone (`Judges`). -/

namespace GuardedHeap

namespace Heap

/-- The bytes to map for a block: its pages, one for the header, and slack for an alignment beyond a
    page. -/
def mapSize (size alignment : Nat) : Nat :=
  Word.roundUp size Pages.pageSize + Pages.pageSize
    + if Pages.pageSize < alignment then alignment else 0

/-- There is a mapping for a block unless its size leaves the word. -/
theorem mapSizeFor?_eq_none {size alignment : Nat} :
    mapSizeFor? size alignment = none ↔ Word.limit ≤ mapSize size alignment := by
  unfold mapSizeFor? mapSize Word.nextMultiple? Word.add?
  rw [if_neg (by decide)]
  simp only [Option.bind_eq_bind]
  by_cases hround : Word.roundUp size Pages.pageSize < Word.limit
  case neg =>
    rw [if_neg hround]
    exact ⟨fun _ => by omega, fun _ => rfl⟩
  rw [if_pos hround, Option.bind_some]
  by_cases hheader : Word.roundUp size Pages.pageSize + Pages.pageSize < Word.limit
  case neg =>
    rw [if_neg hheader]
    exact ⟨fun _ => by omega, fun _ => rfl⟩
  rw [if_pos hheader, Option.bind_some]
  by_cases halign : Pages.pageSize < alignment
  · rw [if_pos halign, if_pos halign]
    split
    · exact ⟨fun h => (nomatch h), fun h => by omega⟩
    · exact ⟨fun _ => by omega, fun _ => rfl⟩
  · rw [if_neg halign, if_neg halign]
    exact ⟨fun h => (nomatch h), fun h => by omega⟩

/-! ## For want of room -/

section Raises

open Act

variable {c : Nat}

theorem raises_onShadow {f : ShadowError → AllocError} {α : Type} {act : Act ShadowError Shadow α}
    (h : ∀ e, ¬ (f e).Undue) : Raises (¬ ·.Undue) (onShadow f act) :=
  .mapError h

theorem raises_poison (addr size : Nat) (why : Shadow.Magic) :
    Raises (¬ ·.Undue) (poison addr size why) :=
  raises_onShadow fun _ h => h

theorem raises_onPages {α : Type} {act : Act MapError Pages α} :
    Raises (¬ ·.Undue) (onPages act) :=
  .mapError fun _ h => h

theorem raises_region (c : Nat) : Raises (¬ ·.Undue) (region c) :=
  raises_get.bind fun _ => raises_orStop

theorem raises_commitRegion (c : Nat) (reach : Reach) :
    Raises (¬ ·.Undue) (commitRegion c reach) :=
  raises_get.bind fun _ => (raises_region c).bind fun _ => raises_onPages.bind fun _ =>
    raises_onPages.bind fun _ => .ite ((raises_poison _ _ _).bind fun _ => raises_modify) raises_modify

/-- Carving slots refuses no request as undue. -/
theorem raises_populate (c : Nat) : Raises (¬ ·.Undue) (populate c) := by
  unfold populate
  refine raises_get.bind fun h => (raises_region c).bind fun r => ?_
  dsimp only
  refine .ite ((raises_refuse fun h => h).bind fun _ => ?_) ?_
  all_goals
    refine .ite ((raises_commitRegion _ _).bind fun _ => ?_) ?_
    all_goals exact (raises_region c).bind fun _ => raises_modify

/-- Stocking a region refuses no request as undue. -/
theorem raises_stockedRegion (c : Nat) : Raises (¬ ·.Undue) (stockedRegion c) :=
  (raises_region c).bind fun _ =>
    .ite ((raises_populate c).bind fun _ => raises_region c) raises_pure

theorem raises_takeBatch (c : Nat) : Raises (¬ ·.Undue) (takeBatch c) :=
  (raises_stockedRegion c).bind fun _ => raises_get.bind fun _ => raises_modify.bind fun _ => raises_pure

/-- A span refuses no request as undue. -/
theorem raises_takeSpan (size mapSize : Nat) : Raises (¬ ·.Undue) (takeSpan size mapSize) :=
  raises_get.bind fun _ => (raises_orRefuse fun h => h).bind fun _ => raises_modify.bind fun _ => raises_pure

namespace Session

theorem raises_onHeap {α : Type} {act : Act AllocError Heap α} (h : Raises (¬ ·.Undue) act) :
    Raises (¬ ·.Undue) (onHeap act) :=
  h.onPart

theorem raises_list (c : Nat) : Raises (¬ ·.Undue) (list c) :=
  raises_get.bind fun _ => raises_orStop

theorem raises_takeListed (c : Nat) : Raises (¬ ·.Undue) (takeListed c) := by
  unfold takeListed
  refine (raises_list c).bind fun l => ?_
  cases l with
  | nil => exact raises_get.bind fun _ => raises_refuse fun h => h
  | cons p rest => exact raises_get.bind fun _ => raises_modify.bind fun _ => raises_pure

/-- A cached slot refuses no request as undue. -/
theorem raises_takeCached (c : Nat) : Raises (¬ ·.Undue) (takeCached c) := by
  refine (raises_list c).bind fun _ => .ite (Raises.bind ?_ fun _ => raises_takeListed c)
    (raises_takeListed c)
  exact (raises_onHeap (raises_takeBatch c)).bind fun _ => raises_get.bind fun _ => raises_modify

end Session

end Raises

/-! ## Undue requests -/

open Act

/-- The action is refused as undue if and only if it is, unless it is stopped. -/
def Judges {σ α : Type} (act : Act AllocError σ α) (s : σ) (undue : Prop) : Prop :=
  EndsOrStops act s (fun _ _ => ¬ undue) fun e _ => e.Undue ↔ undue

section Judges

variable {σ α : Type} {act : Act AllocError σ α} {s : σ} {undue : Prop}

/-- What never refuses a request as undue judges the due ones. -/
theorem judges_of_raises (h : Raises (¬ ·.Undue) act) (hdue : ¬ undue) : Judges act s undue :=
  (h.endsOrStops s).imp (fun _ _ _ => hdue) fun _ _ he => iff_of_false he hdue

/-- What refuses a request as undue judges the undue ones. -/
theorem judges_refuse {e : AllocError} (he : e.Undue) (hundue : undue) :
    Judges (refuse e : Act AllocError σ α) s undue :=
  show _ ↔ _ from iff_of_true he hundue

/-- A judgement is one of whatever is the same. -/
theorem Judges.congr {other : Prop} (h : Judges act s undue) (hiff : undue ↔ other) :
    Judges act s other :=
  EndsOrStops.imp h (fun _ _ hdue => fun hother => hdue (hiff.mpr hother)) fun _ _ he => he.trans hiff

end Judges

variable {size alignment : Nat}

/-- A mapping is refused as undue if its size is not a word. -/
theorem judges_allocateLarge (h : Heap) :
    Judges (allocateLarge size alignment) h (Word.limit ≤ mapSize size alignment) := by
  unfold allocateLarge
  cases hmap : mapSizeFor? size alignment with
  | none => exact judges_refuse trivial (mapSizeFor?_eq_none.mp hmap)
  | some mapped =>
      have hdue : ¬ Word.limit ≤ mapSize size alignment := fun hle => by
        rw [mapSizeFor?_eq_none.mpr hle] at hmap
        cases hmap
      unfold Judges
      rw [endsOrStops_bind, endsOrStops_orRefuse_some, endsOrStops_bind]
      refine ((raises_takeSpan size mapped).endsOrStops h).imp (fun mapBegin t _ => ?_)
        fun _ _ he => iff_of_false he hdue
      rw [endsOrStops_bind, endsOrStops_attempt]
      refine (raises_onPages.endsOrStops t).imp (fun _ u _ => ?_) fun e u he => iff_of_false he hdue
      exact judges_of_raises ((raises_poison _ _ _).bind fun _ => raises_liftM.bind fun _ =>
        raises_modify.bind fun _ => raises_pure) hdue

namespace Session

variable {s : Session}

/-- A small block can be mapped. -/
theorem mapSize_lt (hcoarse : s.heap.classes.Coarse)
    (hsmall : size ≤ s.heap.classes.maxSize ∧ alignment ≤ Pages.pageSize) :
    mapSize size alignment < Word.limit := by
  have hle := Nat.le_trans hsmall.1 hcoarse.maxSize_le
  have hround := Word.roundUp_lt (n := size) (m := Pages.pageSize) (by decide)
  have hroom : Word.halfLimit + Pages.pageSize + Pages.pageSize < Word.limit := by decide
  unfold mapSize
  rw [if_neg (Nat.not_lt.mpr hsmall.2)]
  omega

/-- A block is refused as undue if it cannot be mapped. -/
theorem judges_allocateRounded (hcoarse : s.heap.classes.Coarse)
    (halign : Word.isPowerOfTwo alignment = true) :
    Judges (allocateRounded size alignment) s (Word.limit ≤ mapSize size alignment) := by
  unfold allocateRounded Judges
  rw [endsOrStops_bind, endsOrStops_get]
  by_cases hsmall : size ≤ s.heap.classes.maxSize ∧ alignment ≤ Pages.pageSize
  · obtain ⟨c, hc⟩ := hcoarse.alignedClassOf? hsmall.1
      (Word.dvd_of_powerOfTwo_le halign (by decide) hsmall.2)
    rw [if_pos (by simpa [canAllocateSmall] using hsmall), hc]
    exact judges_of_raises (raises_takeCached c) (Nat.not_le.mpr (mapSize_lt hcoarse hsmall))
  · rw [if_neg (by simpa [canAllocateSmall] using hsmall)]
    unfold onHeap
    rw [endsOrStops_onPart]
    exact judges_allocateLarge s.heap

/-- Rounding up to a part of a page does not change the pages. -/
theorem mapSize_roundUp (h : alignment ∣ Pages.pageSize) :
    mapSize (Word.roundUp size alignment) alignment = mapSize size alignment := by
  have hpos : 0 < alignment := Nat.pos_of_dvd_of_pos h (by decide)
  have hround : Word.roundUp (Word.roundUp size alignment) Pages.pageSize =
      Word.roundUp size Pages.pageSize := by
    refine Nat.le_antisymm (Word.roundUp_le (by decide) (Word.dvd_roundUp (by decide)) ?_)
      (Word.roundUp_mono (by decide) Word.le_roundUp)
    exact Word.roundUp_le hpos (Nat.dvd_trans h (Word.dvd_roundUp (by decide))) Word.le_roundUp
  unfold mapSize
  rw [hround]

/-- A block of a size that leaves the word with its alignment cannot be mapped. -/
theorem le_mapSize (size alignment : Nat) :
    size + alignment ≤ mapSize size alignment := by
  have hround := Word.le_roundUp (n := size) (m := Pages.pageSize)
  unfold mapSize
  split <;> omega

/-- Bytes are refused as undue if their block cannot be mapped. -/
theorem judges_allocate (hcoarse : s.heap.classes.Coarse)
    (halign : Word.isPowerOfTwo alignment = true) (hsize : 0 < size) :
    Judges (allocate size alignment) s
      (Word.limit ≤ mapSize (Word.roundUp size alignment) alignment) := by
  have hpos : 0 < alignment := by
    obtain ⟨k, rfl⟩ := Word.isPowerOfTwo_iff.mp halign
    exact Word.powerOfTwo_pos k
  have hround : size ≤ Word.roundUp size alignment := Word.le_roundUp
  have hmap := le_mapSize (Word.roundUp size alignment) alignment
  unfold allocate
  simp only [halign, Bool.not_true, Bool.false_eq_true, if_false, Nat.max_eq_left hsize]
  cases hadd : Word.add? size alignment with
  | none =>
      have hle : Word.limit ≤ size + alignment := by
        unfold Word.add? at hadd
        split at hadd
        · cases hadd
        · omega
      exact judges_refuse trivial (by omega)
  | some sum =>
      obtain ⟨hlt, rfl⟩ := Word.add?_eq_some.mp hadd
      simp only [Option.isNone_some, Bool.false_eq_true, if_false]
      by_cases hgranule : alignment > Shadow.granule
      · have hupper := Word.roundUp_lt (n := size) hpos
        have hnext : Word.nextMultiple size alignment = .ok (Word.roundUp size alignment) :=
          Word.nextMultiple_eq_ok.mpr ⟨hpos, by omega, rfl⟩
        rw [if_pos hgranule, hnext]
        exact judges_allocateRounded hcoarse halign
      · rw [if_neg hgranule]
        have hdvd : alignment ∣ Pages.pageSize :=
          Word.dvd_of_powerOfTwo_le halign (by decide) (by
            have : Shadow.granule ≤ Pages.pageSize := by decide
            omega)
        rw [mapSize_roundUp hdvd]
        exact judges_allocateRounded hcoarse halign

end Session

end Heap

/-! ## Chunks -/

open Heap (Session Judges mapSize)

/-- The bytes to map for a chunk with its redzones. -/
def RedzoneOptions.mapSize (o : RedzoneOptions) (size alignment : Nat) : Nat :=
  let alignment := max alignment Shadow.granule
  Heap.mapSize (Word.roundUp (max o.redzone alignment + size + o.redzone) alignment) alignment

/-- No heap has room for the chunk: with all that goes around it it leaves the word. -/
def RedzoneOptions.Overflows (o : RedzoneOptions) (size alignment : Nat) : Prop :=
  Word.limit ≤ o.mapSize size alignment

namespace Redzone

variable {o : RedzoneOptions} {s : Session}

/-- Marks refuse no request as undue. -/
theorem raises_mark (block actual left size : Nat) :
    Act.Raises (¬ ·.Undue) (mark block actual left size) :=
  (Heap.raises_poison _ _ _).bind fun _ => (Heap.raises_onShadow (f := .shadow) fun _ h => h).bind fun _ =>
    Act.raises_liftM.bind fun _ => Act.raises_liftM.bind fun _ => Heap.raises_poison _ _ _

/-- A chunk is refused as undue if its alignment is no power of two or it overflows. -/
theorem judges_allocate (ho : o.Valid) (hcoarse : s.heap.classes.Coarse) (size alignment : Nat)
    (api : Api) (origin : Origin) :
    Judges (allocate o size alignment api origin) s
      (Word.isPowerOfTwo alignment = false ∨ o.Overflows size alignment) := by
  unfold allocate
  by_cases hpower : Word.isPowerOfTwo alignment = true
  case neg =>
    rw [Bool.not_eq_true] at hpower
    rw [hpower]
    exact Heap.judges_refuse trivial (.inl rfl)
  simp only [hpower, Bool.not_true, Bool.false_eq_true, if_false, Bool.true_eq_false, false_or]
  have halign : Word.isPowerOfTwo (max alignment Shadow.granule) = true :=
    isPowerOfTwo_max hpower (by decide)
  unfold RedzoneOptions.Overflows RedzoneOptions.mapSize
  dsimp only
  -- The alignment is at least a granule, whatever was asked for.
  generalize max alignment Shadow.granule = a at halign
  have hmap := Heap.Session.le_mapSize (Word.roundUp (max o.redzone a + size + o.redzone) a) a
  have hround : max o.redzone a + size + o.redzone ≤ Word.roundUp (max o.redzone a + size + o.redzone) a :=
    Word.le_roundUp
  cases hpadded : (Word.add? (max o.redzone a) size).bind (Word.add? · o.redzone) with
  | none =>
      have hle : Word.limit ≤ max o.redzone a + size + o.redzone := by
        unfold Word.add? at hpadded
        split at hpadded
        · rw [Option.bind_some] at hpadded
          split at hpadded
          · cases hpadded
          · omega
        · omega
      exact Heap.judges_refuse trivial (by omega)
  | some padded =>
      obtain ⟨sum, hsum, hadd⟩ := Option.bind_eq_some_iff.mp hpadded
      obtain ⟨-, rfl⟩ := Word.add?_eq_some.mp hsum
      obtain ⟨-, rfl⟩ := Word.add?_eq_some.mp hadd
      have hpos : 0 < max o.redzone a + size + o.redzone :=
        Nat.lt_of_lt_of_le (Nat.lt_of_lt_of_le (by decide) ho.granule_le) (Nat.le_add_left _ _)
      unfold Judges
      rw [Act.endsOrStops_bind, Act.endsOrStops_orRefuse_some, Act.endsOrStops_bind]
      refine (Heap.Session.judges_allocate hcoarse halign hpos).imp (fun block t hdue => ?_) fun _ _ he => he
      refine Heap.judges_of_raises (Act.raises_get.bind fun _ => ?_) hdue
      exact (Act.raises_orRefuse fun h => h).bind fun _ => (Act.raises_orRefuse fun h => h).bind fun _ =>
        (Heap.Session.raises_onHeap ((raises_mark _ _ _ _).bind fun _ => Act.raises_modify)).bind fun _ =>
          Act.raises_pure

/-- Zeroed bytes are refused as undue if their number or their chunk overflows. -/
theorem judges_allocateZeroed (ho : o.Valid) (hcoarse : s.heap.classes.Coarse) (count size : Nat)
    (origin : Origin) :
    Judges (allocateZeroed o count size origin) s
      (Word.limit ≤ count * size ∨ o.Overflows (count * size) Shadow.granule) := by
  unfold allocateZeroed
  cases hmul : Word.mul? count size with
  | none =>
      refine Heap.judges_refuse trivial (.inl ?_)
      unfold Word.mul? at hmul
      split at hmul
      · cases hmul
      · omega
  | some total =>
      obtain ⟨hlt, rfl⟩ := Word.mul?_eq_some.mp hmul
      unfold Judges
      rw [Act.endsOrStops_bind, Act.endsOrStops_orRefuse_some, Act.endsOrStops_bind]
      have hallocate := (judges_allocate ho hcoarse (count * size) Shadow.granule .malloc origin).congr
        (or_congr_left (show _ ↔ Word.limit ≤ count * size from
          iff_of_false (by decide) (Nat.not_le.mpr hlt)))
      exact hallocate.imp (fun _ _ hdue => hdue) fun _ _ he => he

end Redzone

end GuardedHeap
