import GuardedHeap.Proofs.Heap.InWords
import GuardedHeap.Proofs.Kernel

/-! # Ground — how a new heap lies in its range

    A heap is laid out once, when it is made, and everything that is said
    of places later on rests on that.  The system may place its mappings at
    any pages.  Wherever the reserved range begins, the regions begin at
    multiples of their size, the secondary range follows the last of them
    without a gap and ends where the range ends, and the shadow has a byte
    for each address (`Founded`). -/

namespace GuardedHeap

open Pages (pageSize)

namespace Mapping

/-- Ranges of one size follow one another. -/
theorem tiles_steps (lo size n : Nat) :
    Tiles lo (lo + n * size) ((List.range n).map fun c => ⟨lo + c * size, size⟩) := by
  induction n with
  | zero =>
      rw [Nat.zero_mul]
      exact .nil lo
  | succ n ih =>
      have hlast : Tiles (lo + n * size) (lo + (n + 1) * size) [⟨lo + n * size, size⟩] := by
        have hend : (⟨lo + n * size, size⟩ : Mapping).endAddr = lo + (n + 1) * size := by
          unfold endAddr
          rw [Nat.succ_mul, Nat.add_assoc]
        refine .cons ⟨lo + n * size, size⟩ ?_
        rw [hend]
        exact .nil _
      rw [List.range_succ, List.map_append]
      exact ih.append hlast

end Mapping

/-! ## The shadow -/

namespace Shadow

/-- The shadow bytes of all tracked addresses lie in an array that has one for each granule. -/
theorem contains_toShadow {s : Shadow} {array : Mapping} {a : Nat}
    (hoffset : s.offset = Word.wrapSub array.begin (s.appBegin / granule)) (haligned : granule ∣ s.appBegin)
    (harray : array.endAddr < Word.limit) (hsize : s.appEnd - s.appBegin ≤ granule * array.size)
    (ha : s.isTracked a = true) :
    array.contains (s.toShadow a) = true := by
  obtain ⟨hlo, hhi⟩ := isTracked_iff.mp ha
  have hplace : s.toShadow a = array.begin + (a - s.appBegin) / granule := by
    unfold toShadow Word.wrapAdd
    rw [hoffset]
    unfold Word.wrapSub
    unfold Mapping.endAddr at harray
    simp only [granule, Word.limit] at *
    omega
  rw [hplace, Mapping.contains_iff]
  unfold Mapping.endAddr
  simp only [granule] at *
  omega

end Shadow

namespace Kernel

variable {σ : Type} {k : Kernel σ} {begin size : Nat} {s t : σ} {m : Mapping}

theorem of_anonymous (h : k.anonymous size s = .ok m t) :
    k.map m.size .writable s = .ok m.begin t ∧ size ≤ m.size := by
  obtain ⟨rounded, _, hact, h⟩ := Act.bind_eq_ok.mp h
  obtain ⟨hrounded, rfl⟩ := Act.liftM_eq_ok.mp hact
  obtain ⟨-, -, rfl⟩ := Word.nextMultiple_eq_ok.mp hrounded
  obtain ⟨begin, u, hmap, h⟩ := Act.bind_eq_ok.mp h
  obtain ⟨rfl, rfl⟩ := Act.pure_eq_ok.mp h
  refine ⟨hmap, ?_⟩
  show size ≤ Word.roundUp (Nat.max size 1) pageSize
  exact Nat.le_trans (Nat.le_max_left _ _) Word.le_roundUp

/-- The number of bytes of the shadow of a range. -/
def shadowBytes (size : Nat) : Nat :=
  (size + (Shadow.granule - 1)) / Shadow.granule

/-- A shadow tracks the range that it is made for, and its bytes are in the array that was mapped. -/
theorem of_createShadow {shadow : Shadow} (hk : k.Lawful) (h : k.createShadow begin size s = .ok shadow t) :
    shadow.appBegin = begin ∧ shadow.appEnd = begin + size
      ∧ ∃ array u, k.anonymous (shadowBytes size) u = .ok array t
        ∧ ∀ a, shadow.isTracked a = true → array.contains (shadow.toShadow a) = true := by
  unfold createShadow at h
  by_cases haligned : begin % Shadow.granule ≠ 0
  · rw [if_pos haligned] at h
    obtain ⟨_, _, hrefuse, -⟩ := Act.bind_eq_ok.mp h
    exact (Act.refuse_eq_ok.mp hrefuse).elim
  rw [if_neg haligned] at h
  obtain ⟨past, _, hact, h⟩ := Act.bind_eq_ok.mp h
  obtain ⟨hpast, rfl⟩ := Act.orRefuse_eq_ok.mp hact
  obtain ⟨-, rfl⟩ := Word.add?_eq_some.mp hpast
  obtain ⟨array, u, hact, h⟩ := Act.bind_eq_ok.mp h
  have harray := Act.mapError_eq_ok.mp hact
  obtain ⟨rfl, rfl⟩ := Act.pure_eq_ok.mp h
  obtain ⟨hmap, hsize⟩ := of_anonymous harray
  refine ⟨rfl, rfl, array, s, harray, fun a ha => ?_⟩
  refine Shadow.contains_toShadow rfl (Nat.dvd_of_mod_eq_zero (not_not.mp haligned))
    ((hk.ends_map _ _ _).of_ok hmap).2 ?_ ha
  show begin + size - begin ≤ Shadow.granule * array.size
  simp only [Shadow.granule] at *
  omega

end Kernel

/-! ## The heap -/

namespace Heap

/-- The addresses of a region. -/
def regionRange (h : Heap) (c : Nat) : Mapping :=
  ⟨h.regionBegin c, h.regionSize⟩

/-- The addresses for large blocks. -/
def secondaryRange (h : Heap) : Mapping :=
  ⟨h.large.begin, h.large.past - h.large.begin⟩

/-- How a heap lies in its range when it is made, with the bytes of its shadow in `array`. -/
structure Founded (classes : SizeClasses) (regionLog secondaryLog : Nat) (array : Mapping) (h : Heap) : Prop where
  regions : h.regions.size = classes.count
  regionSize : h.regionSize = Word.powerOfTwo regionLog
  region_dvd : ∀ c < h.regions.size, h.regionSize ∣ h.regionBegin c
  region_words : ∀ c < h.regions.size, h.regionBeginInWords c = .ok (h.regionBegin c)
  secondary : h.secondaryRange = ⟨h.primaryEnd, Word.powerOfTwo secondaryLog⟩
  tiles : Mapping.Tiles h.space.begin h.space.endAddr
    ((List.range h.regions.size).map h.regionRange ++ [h.secondaryRange])
  past_lt : h.space.endAddr < Word.limit
  shadowed : ∀ a, h.space.contains a = true →
    h.shadow.isTracked a = true ∧ array.contains (h.shadow.toShadow a) = true

variable {h : Heap} {classes : SizeClasses} {regionLog secondaryLog : Nat} {array : Mapping}

/-- The regions follow one another from the beginning of the range. -/
theorem tiles_regions (h : Heap) :
    Mapping.Tiles h.space.begin h.primaryEnd ((List.range h.regions.size).map h.regionRange) :=
  Mapping.tiles_steps h.space.begin h.regionSize h.regions.size

/-- A heap whose range is exactly as long as its parts, and begins at a multiple of a region. -/
theorem Founded.of_range (hregions : h.regions.size = classes.count)
    (hsize : h.regionSize = Word.powerOfTwo regionLog)
    (hlarge : h.large = Large.new h.primaryEnd (Word.powerOfTwo secondaryLog))
    (hdvd : h.regionSize ∣ h.space.begin) (hend : h.space.endAddr = h.primaryEnd + Word.powerOfTwo secondaryLog)
    (hpast : h.space.endAddr < Word.limit)
    (hshadowed : ∀ a, h.space.contains a = true →
      h.shadow.isTracked a = true ∧ array.contains (h.shadow.toShadow a) = true) :
    Founded classes regionLog secondaryLog array h := by
  have hsecondary : h.secondaryRange = ⟨h.primaryEnd, Word.powerOfTwo secondaryLog⟩ := by
    unfold secondaryRange
    rw [hlarge]
    exact congrArg (Mapping.mk h.primaryEnd) (Nat.add_sub_cancel_left _ _)
  refine ⟨hregions, hsize, fun c _ => Nat.dvd_add hdvd (Nat.dvd_mul_left _ c), fun c hc => ?_, hsecondary, ?_,
    hpast, hshadowed⟩
  · -- A region begins where those before it end, within the range.
    have hle : c * h.regionSize ≤ h.regions.size * h.regionSize := Nat.mul_le_mul_right _ (Nat.le_of_lt hc)
    rw [hend] at hpast
    unfold primaryEnd at hpast
    have hmul : Word.mul c h.regionSize = .ok (c * h.regionSize) := Word.mul_eq_ok.mpr ⟨by omega, rfl⟩
    unfold regionBeginInWords
    rw [hmul]
    exact Word.add_eq_ok.mpr ⟨by omega, rfl⟩
  · refine (tiles_regions h).append ?_
    rw [hsecondary, hend]
    exact .cons ⟨h.primaryEnd, Word.powerOfTwo secondaryLog⟩ (.nil _)

end Heap

namespace Kernel

open Heap (Founded)

variable {k : Kernel Pages} {classes : SizeClasses} {regionLog secondaryLog : Nat} {p : Pages}

/-- Wherever the system places the mappings of a heap, its parts lie as they have to. -/
theorem ends_founded (hk : k.Lawful) (hclasses : classes.Accepted) (hge : 20 ≤ regionLog) (hle : regionLog ≤ 36)
    (hge' : 24 ≤ secondaryLog) (hle' : secondaryLog ≤ 40) :
    Act.Ends (k.createHeap classes regionLog secondaryLog) p
      (fun h q => ∃ array u, k.anonymous (shadowBytes h.space.size) u = .ok array q
        ∧ Founded classes regionLog secondaryLog array h)
      fun e _ => (∃ m, e = .map m) ∨ ∃ m, e = .shadow (.map m) := by
  have htotal : classes.count * Word.powerOfTwo regionLog + Word.powerOfTwo secondaryLog < Word.limit :=
    Nat.lt_of_le_of_lt (Nat.add_le_add (Nat.mul_le_mul hclasses.lawful.count_le (Word.powerOfTwo_le hle))
      (Word.powerOfTwo_le hle')) (by decide)
  have hpage : pageSize ∣ Word.powerOfTwo regionLog := Word.powerOfTwo_dvd (j := 12) (by omega)
  refine (hk.ends_createHeap (by omega) (by omega) hpage htotal).imp_eq (fun h q hmade _ => ?_) fun _ _ _ he => he
  obtain ⟨space, shadow, u, hspace, hshadow, rfl⟩ := of_createHeap (by omega) hmade
  obtain ⟨hbegin, hsize, hpast⟩ := (hk.ends_reserve _ _).of_ok hspace
  obtain ⟨hfrom, hto, array, v, harray, hplaces⟩ := of_createShadow hk hshadow
  -- Both parts are whole pages, so that rounding the range up adds nothing.
  have hpage' : pageSize ∣ Word.powerOfTwo secondaryLog := Word.powerOfTwo_dvd (j := 12) (by omega)
  rw [Word.roundUp_of_dvd (by decide) (Nat.dvd_add (Nat.dvd_mul_left_of_dvd hpage _) hpage')] at hsize
  rw [Nat.max_eq_left (Nat.le_of_dvd (Word.powerOfTwo_pos _) hpage)] at hbegin
  refine ⟨array, v, harray, .of_range Array.size_replicate rfl ?_ hbegin ?_ hpast fun a ha => ?_⟩
  · rw [primaryEnd_heapIn]
    rfl
  · rw [primaryEnd_heapIn, Nat.add_assoc, ← hsize]
    rfl
  · have htracked : shadow.isTracked a = true := by
      rw [Shadow.isTracked_iff, hfrom, hto]
      exact Mapping.contains_iff.mp ha
    exact ⟨htracked, hplaces a htracked⟩

/-- Wherever the system places mappings: a reservation is refused before anything is mapped if it asks
    for more than a word, and is cut at pages into an aligned range and what is given back if not.  A heap
    that is made of such a range has its regions at multiples of their size, the secondary range
    right behind them, and a shadow for all of it; only the system refuses to make it. -/
theorem reservations_lie_aligned :
    (machine.Lawful ∧ machine.reserve = Pages.reserve ∧ machine.createHeap = Heap.create)
    ∧ (∀ size align, Word.limit ≤ request size align → ∀ {σ : Type} (k : Kernel σ) (s : σ),
        k.reserve size align s = .error (.refused ⟨.mmap, 0, size, Pages.outOfMemory⟩) s)
    ∧ (∀ size align raw l, Word.isPowerOfTwo align = true → pageSize ∣ raw →
        raw + request size align < Word.limit → ∃ m rest,
          (granting raw).reserve size align l
            = .ok m ((l.mapping ⟨raw, request size align⟩).unmapping rest)
          ∧ Trimmed size align raw m rest)
    ∧ ∀ (k : Kernel Pages) classes regionLog secondaryLog p, k.Lawful → classes.Accepted →
        20 ≤ regionLog → regionLog ≤ 36 → 24 ≤ secondaryLog → secondaryLog ≤ 40 →
        Act.Ends (k.createHeap classes regionLog secondaryLog) p
          (fun h q => ∃ array u, k.anonymous (shadowBytes h.space.size) u = .ok array q
            ∧ Founded classes regionLog secondaryLog array h)
          fun e _ => (∃ m, e = .map m) ∨ ∃ m, e = .shadow (.map m) := by
  refine ⟨⟨lawful_machine, reserve_machine, createHeap_machine⟩, ?_, ?_, ?_⟩
  · intro size align hlimit σ k s
    exact reserve_of_limit_le hlimit
  · intro size align raw l halign hraw hroom
    exact ⟨kept raw size align, spare raw size align, reserve_granting hroom, trimmed halign hraw⟩
  · intro k classes regionLog secondaryLog p hk hclasses hge hle hge' hle'
    exact ends_founded hk hclasses hge hle hge' hle'

/-- Four pages at a multiple of sixteen megabytes, cut out of a mapping that begins with the eighth page; more than
    there is; and a heap in the slots of the machine. -/
theorem reservations_lie_aligned_in_slots :
    Word.limit ≤ request Word.max 1
    ∧ machine.reserve Word.max 1 {} = .error (.refused ⟨.mmap, 0, Word.max, Pages.outOfMemory⟩) {}
    ∧ (Word.isPowerOfTwo 0x1000000 = true ∧ pageSize ∣ 0x7000 ∧ 0x7000 + request 12289 0x1000000 < Word.limit)
    ∧ (∃ m rest, (granting 0x7000).reserve 12289 0x1000000 {}
          = .ok m ((({} : Ledger).mapping ⟨0x7000, request 12289 0x1000000⟩).unmapping rest)
        ∧ Trimmed 12289 0x1000000 0x7000 m rest)
    ∧ ∃ h q, machine.createHeap .compact 20 24 {} = .ok h q
      ∧ ∃ array u, machine.anonymous (shadowBytes h.space.size) u = .ok array q
        ∧ Founded .compact 20 24 array h := by
  have hlimit : Word.limit ≤ request Word.max 1 := by decide
  have hroom : 0x7000 + request 12289 0x1000000 < Word.limit := by decide
  have hmade : (Act.returned? (machine.createHeap .compact 20 24) {}).isSome = true := by decide +kernel
  obtain ⟨⟨h, q⟩, hmade⟩ := Option.isSome_iff_exists.mp hmade
  have hmade := Act.of_returned? hmade
  refine ⟨hlimit, reservations_lie_aligned.2.1 Word.max 1 hlimit machine {}, ⟨by decide, by decide, hroom⟩,
    reservations_lie_aligned.2.2.1 12289 0x1000000 0x7000 {} (by decide) (by decide) hroom, h, q, hmade, ?_⟩
  exact (reservations_lie_aligned.2.2.2 machine .compact 20 24 {} lawful_machine SizeClasses.accepted_compact
    (by decide) (by decide) (by decide) (by decide)).of_ok hmade

end Kernel

end GuardedHeap
