import GuardedHeap.Pages
import GuardedHeap.Shadow.Byte
import GuardedHeap.SizeClass
import Mathlib.Data.List.Basic

/-! # Size classes — what a heap relies on

    A heap works with any table that is sorted and whose sizes are positive
    multiples of a granule (`Valid`); the two tables that a configuration
    can ask for are. -/

namespace GuardedHeap.SizeClasses

open SizeClass

/-- A table that a heap can work with. -/
structure Valid (t : SizeClasses) : Prop where
  sorted : t.entries.toList.Pairwise (·.size < ·.size)
  pos : ∀ e ∈ t.entries.toList, 0 < e.size
  dvd : ∀ e ∈ t.entries.toList, Shadow.granule ∣ e.size
  batch_pos : ∀ e ∈ t.entries.toList, 0 < e.maxCached
  batch : ∀ e ∈ t.entries.toList, e.maxCached < Word.halfLimit
  count_le : t.count ≤ maxClasses

/-- A list is sorted if every entry is smaller than the next one. -/
theorem sorted_of_isChain {l : List Entry} (h : l.IsChain (·.size < ·.size)) :
    l.Pairwise (·.size < ·.size) :=
  have : Trans (fun e f : Entry => e.size < f.size) (fun e f : Entry => e.size < f.size)
      fun e f : Entry => e.size < f.size := ⟨Nat.lt_trans⟩
  List.isChain_iff_pairwise.mp h

theorem valid_default : default.Valid where
  sorted := sorted_of_isChain (by decide +kernel)
  pos := by decide +kernel
  dvd := by decide +kernel
  batch_pos := by decide +kernel
  batch := by decide +kernel
  count_le := by decide +kernel

theorem valid_compact : compact.Valid where
  sorted := sorted_of_isChain (by decide +kernel)
  pos := by decide +kernel
  dvd := by decide +kernel
  batch_pos := by decide +kernel
  batch := by decide +kernel
  count_le := by decide +kernel

/-- The largest class is made of whole pages, which every alignment up to a page divides. -/
structure Coarse (t : SizeClasses) : Prop where
  count_pos : 0 < t.count
  maxSize_dvd : Pages.pageSize ∣ t.maxSize
  maxSize_le : t.maxSize ≤ Word.halfLimit

theorem coarse_default : default.Coarse := by
  constructor <;> decide +kernel

theorem coarse_compact : compact.Coarse := by
  constructor <;> decide +kernel

variable {t : SizeClasses} {id : Nat}

theorem size_eq (h : id < t.count) : ∃ e ∈ t.entries.toList, t.size id = e.size := by
  refine ⟨t.entries[id], Array.mem_toList_iff.mpr (Array.getElem_mem h), ?_⟩
  rw [size, Array.getElem?_eq_getElem h]
  rfl

theorem Valid.size_pos (hv : t.Valid) (h : id < t.count) : 0 < t.size id := by
  obtain ⟨e, he, heq⟩ := size_eq h
  rw [heq]
  exact hv.pos e he

theorem Valid.size_dvd (hv : t.Valid) (h : id < t.count) : Shadow.granule ∣ t.size id := by
  obtain ⟨e, he, heq⟩ := size_eq h
  rw [heq]
  exact hv.dvd e he

theorem Valid.maxCached_pos (hv : t.Valid) (h : id < t.count) : 0 < t.maxCached id := by
  unfold maxCached
  rw [Array.getElem?_eq_getElem h]
  exact hv.batch_pos _ (Array.mem_toList_iff.mpr (Array.getElem_mem h))

theorem Valid.maxCached_lt (hv : t.Valid) (id : Nat) : t.maxCached id < Word.halfLimit := by
  unfold maxCached
  cases hget : t.entries[id]? with
  | none => exact by decide
  | some e =>
      obtain ⟨hlt, rfl⟩ := Array.getElem?_eq_some_iff.mp hget
      exact hv.batch _ (by simp)

/-- In a sorted list every element behind the smaller ones is not smaller. -/
theorem le_of_countP_le (size : Nat) {l : List Entry} (h : l.Pairwise (·.size < ·.size)) {i : Nat}
    (hi : i < l.length) (hcount : l.countP (·.size < size) ≤ i) : size ≤ l[i].size := by
  induction l generalizing i with
  | nil => exact absurd hi (Nat.not_lt_zero i)
  | cons e rest ih =>
      obtain ⟨hhead, htail⟩ := List.pairwise_cons.mp h
      by_cases hlt : e.size < size
      · rw [List.countP_cons_of_pos (by simpa using hlt)] at hcount
        obtain ⟨j, rfl⟩ : ∃ j, i = j + 1 := ⟨i - 1, by omega⟩
        exact ih htail (Nat.lt_of_succ_lt_succ hi) (by omega)
      · cases i with
        | zero => exact Nat.le_of_not_lt hlt
        | succ j =>
            have hj : j < rest.length := Nat.lt_of_succ_lt_succ hi
            have := hhead rest[j] (List.getElem_mem hj)
            show size ≤ rest[j].size
            omega

/-- A class that is found for an alignment is the one of the size or a later one. -/
theorem of_alignedClassOf? {size alignment : Nat} (h : t.alignedClassOf? size alignment = .ok (some id)) :
    ∃ first, t.classOf? size = some first ∧ first ≤ id ∧ id < t.count ∧ alignment ∣ t.size id := by
  unfold alignedClassOf? at h
  cases hclass : t.classOf? size with
  | none =>
      rw [hclass] at h
      exact nomatch h
  | some first =>
      rw [hclass] at h
      dsimp only at h
      by_cases hzero : alignment = 0
      · rw [if_pos hzero] at h
        exact nomatch h
      · rw [if_neg hzero] at h
        have hfound := List.mem_of_find?_eq_some (Except.ok.inj h)
        have hmod := List.find?_some (Except.ok.inj h)
        obtain ⟨j, hj, rfl⟩ := List.mem_map.mp hfound
        have hlt := List.mem_range.mp hj
        exact ⟨first, rfl, Nat.le_add_right _ _, by omega, Nat.dvd_of_mod_eq_zero (of_decide_eq_true hmod)⟩

/-- A class that is found for a size holds it. -/
theorem Valid.alignedClassOf?_spec (hv : t.Valid) {size alignment : Nat}
    (h : t.alignedClassOf? size alignment = .ok (some id)) :
    id < t.count ∧ size ≤ t.size id := by
  obtain ⟨first, hclass, hle, hlt, -⟩ := of_alignedClassOf? h
  refine ⟨hlt, ?_⟩
  have hfirst : first = t.entries.toList.countP (·.size < size) := by
    unfold classOf? at hclass
    split at hclass
    · exact nomatch hclass
    · exact (Option.some.inj hclass).symm
  have hholds := le_of_countP_le size hv.sorted (i := id) hlt (hfirst ▸ hle)
  rw [SizeClasses.size, Array.getElem?_eq_getElem hlt]
  exact hholds

/-- The size of a class that is found for an alignment is a multiple of it. -/
theorem alignedClassOf?_dvd {size alignment : Nat}
    (h : t.alignedClassOf? size alignment = .ok (some id)) : alignment ∣ t.size id := by
  obtain ⟨-, -, -, -, hdvd⟩ := of_alignedClassOf? h
  exact hdvd

/-- Looking a class up for a positive alignment does not overrun. -/
theorem alignedClassOf?_eq_ok (t : SizeClasses) (size : Nat) {alignment : Nat} (h : 0 < alignment) :
    ∃ found, t.alignedClassOf? size alignment = .ok found := by
  unfold alignedClassOf?
  cases t.classOf? size with
  | none => exact ⟨none, rfl⟩
  | some first => exact ⟨_, if_neg (Nat.ne_of_gt h)⟩

/-- Every size up to the largest has a class, whatever the alignment is up to a page. -/
theorem Coarse.alignedClassOf? (hv : t.Coarse) {size alignment : Nat} (hsize : size ≤ t.maxSize)
    (halign : alignment ∣ Pages.pageSize) :
    ∃ id, t.alignedClassOf? size alignment = .ok (some id) := by
  have hpos : 0 < alignment := Nat.pos_of_dvd_of_pos halign (by decide)
  have hcount := hv.count_pos
  have hlast : t.count - 1 < t.entries.toList.length := by
    show t.count - 1 < t.entries.size
    exact Nat.sub_one_lt (Nat.ne_of_gt hcount)
  -- The largest class is not among the smaller ones.
  have hfirst : t.entries.toList.countP (·.size < size) ≤ t.count - 1 := by
    have hsplit : (t.entries.toList.take (t.count - 1) ++ t.entries.toList.drop (t.count - 1)).countP
          (·.size < size) =
        (t.entries.toList.take (t.count - 1)).countP (·.size < size)
          + (t.entries.toList.drop (t.count - 1)).countP (·.size < size) := List.countP_append
    rw [List.take_append_drop, List.drop_eq_getElem_cons hlast,
      List.drop_eq_nil_of_le (Nat.le_of_eq (Nat.sub_add_cancel hcount).symm),
      List.countP_cons_of_neg, List.countP_nil, Nat.add_zero] at hsplit
    · rw [hsplit]
      exact Nat.le_trans List.countP_le_length (List.length_take_le _ _)
    · have heq : t.maxSize = t.entries.toList[t.count - 1].size := by
        unfold maxSize SizeClasses.size
        rw [Array.getElem?_eq_getElem hlast]
        rfl
      simpa using Nat.le_trans hsize (Nat.le_of_eq heq)
  unfold SizeClasses.alignedClassOf? classOf?
  rw [if_neg (Nat.not_lt.mpr hsize)]
  dsimp only
  rw [if_neg (Nat.ne_of_gt hpos)]
  cases hfind : ((List.range (t.count - t.entries.toList.countP (·.size < size))).map
      (t.entries.toList.countP (·.size < size) + ·)).find? fun id => t.size id % alignment = 0 with
  | some id => exact ⟨id, rfl⟩
  | none =>
      refine absurd (Nat.mod_eq_zero_of_dvd (Nat.dvd_trans halign hv.maxSize_dvd)) ?_
      have hall := List.find?_eq_none.mp hfind (t.count - 1) ?_
      · simpa [maxSize] using hall
      · refine List.mem_map.mpr ⟨t.count - 1 - t.entries.toList.countP (·.size < size), ?_, ?_⟩
        · exact List.mem_range.mpr (by omega)
        · exact Nat.add_sub_cancel' hfirst

end GuardedHeap.SizeClasses
