import GuardedHeap.Heap.Basic
import GuardedHeap.Proofs.Pages

/-! # Kernels — reservations wherever the system places a mapping

    The machine of `Pages` places a mapping where its policy says, if there
    is room.  Here all of this is left to a `Kernel`, of which only as much
    is known as a system promises: a mapping begins with a page, and ends
    before the end of the address space.  `machine` is the kernel that
    makes the reservations of `Pages`, and the heaps on them.

    A reservation asks for more than it needs and gives the rest back.
    With a kernel that grants an address and keeps a `Ledger` of its calls
    all of it can be told (`reserve_granting`): a request that is no word
    is refused before anything is mapped, and any other is cut into what
    is kept, what lies before it and what lies behind it (`Trimmed`). -/

namespace GuardedHeap

/-! ## Ranges that follow one another -/

namespace Mapping

/-- The ranges follow one another without a gap, from `lo` up to `hi`. -/
inductive Tiles : Nat → Nat → List Mapping → Prop where
  | nil (lo : Nat) : Tiles lo lo []
  | cons (x : Mapping) {hi : Nat} {rest : List Mapping} (hrest : Tiles x.endAddr hi rest) :
      Tiles x.begin hi (x :: rest)

variable {lo mid hi a : Nat} {x : Mapping} {l l' : List Mapping}

/-- A range covers the addresses from its beginning to its end. -/
theorem contains_iff : x.contains a = true ↔ x.begin ≤ a ∧ a < x.endAddr := by
  unfold contains
  rw [Bool.and_eq_true, decide_eq_true_eq, decide_eq_true_eq]

/-- No address lies in both ranges. -/
def Apart (x y : Mapping) : Prop :=
  ∀ a, ¬ (x.contains a = true ∧ y.contains a = true)

theorem Apart.symm {y : Mapping} (h : Apart x y) : Apart y x :=
  fun a ⟨hy, hx⟩ => h a ⟨hx, hy⟩

namespace Tiles

/-- Ranges that follow one another end behind where they begin. -/
theorem le (h : Tiles lo hi l) : lo ≤ hi := by
  induction h with
  | nil lo => exact Nat.le_refl lo
  | cons x _ ih => exact Nat.le_trans (Nat.le_add_right _ _) ih

/-- Ranges that follow others follow them. -/
theorem append (h : Tiles lo mid l) (h' : Tiles mid hi l') : Tiles lo hi (l ++ l') := by
  induction h with
  | nil lo => exact h'
  | cons x _ ih => exact cons x (ih h')

/-- Each of the ranges lies between the ends. -/
theorem inside (h : Tiles lo hi l) (hx : x ∈ l) : lo ≤ x.begin ∧ x.endAddr ≤ hi := by
  induction h with
  | nil lo => exact nomatch hx
  | cons y hrest ih =>
      rcases List.mem_cons.mp hx with rfl | hx
      · exact ⟨Nat.le_refl _, hrest.le⟩
      · obtain ⟨hbegin, hend⟩ := ih hx
        exact ⟨Nat.le_trans (Nat.le_add_right _ _) hbegin, hend⟩

/-- Ranges that follow one another are apart. -/
theorem apart (h : Tiles lo hi l) : l.Pairwise Apart := by
  induction h with
  | nil lo => exact .nil
  | cons x hrest ih =>
      refine List.pairwise_cons.mpr ⟨fun y hy a ⟨hx, hin⟩ => ?_, ih⟩
      -- A range ends before those behind it begin.
      have hbegin := (hrest.inside hy).1
      rw [contains_iff] at hx hin
      omega

/-- The addresses of the ranges are those between where the first begins and the last ends. -/
theorem covers_iff (h : Tiles lo hi l) : (∃ x ∈ l, x.contains a = true) ↔ lo ≤ a ∧ a < hi := by
  induction h with
  | nil lo => simp
  | cons x hrest ih =>
      have hle := hrest.le
      have hx : x.begin ≤ x.endAddr := Nat.le_add_right _ _
      simp only [List.mem_cons, exists_eq_or_imp, ih]
      rw [contains_iff]
      omega

end Tiles

/-- The addresses from `lo` to `hi` as at most one range. -/
def between (lo hi : Nat) : List Mapping :=
  if hi > lo then [⟨lo, hi - lo⟩] else []

/-- One range reaches from `lo` to `hi`. -/
theorem tiles_between (h : lo ≤ hi) : Tiles lo hi (between lo hi) := by
  have hend : (⟨lo, hi - lo⟩ : Mapping).endAddr = hi := Nat.add_sub_cancel' h
  unfold between
  by_cases hlt : hi > lo
  · rw [if_pos hlt]
    have hnil : Tiles (⟨lo, hi - lo⟩ : Mapping).endAddr hi [] := by
      rw [hend]
      exact .nil hi
    exact .cons ⟨lo, hi - lo⟩ hnil
  · rw [if_neg hlt, Nat.le_antisymm h (Nat.not_lt.mp hlt)]
    exact .nil hi

/-- It is not empty. -/
theorem mem_between (h : x ∈ between lo hi) : x.begin = lo ∧ x.size = hi - lo ∧ 0 < x.size := by
  unfold between at h
  split at h
  · rename_i hlt
    obtain rfl := List.mem_singleton.mp h
    exact ⟨rfl, rfl, Nat.sub_pos_of_lt hlt⟩
  · exact nomatch h

end Mapping

/-! ## Systems -/

/-- The calls that place mappings and remove them, of a system with states `σ`. -/
structure Kernel (σ : Type) where
  map : Nat → Access → Act MapError σ Nat
  unmap : Nat → Nat → Act MapError σ Unit

namespace Kernel

open Pages (pageSize)

variable {σ : Type} {k : Kernel σ} {raw total size align begin : Nat} {s t : σ} {m : Mapping}

/-- Keep `[begin, begin + size)` of a mapping of `total` bytes at `raw` and unmap what lies behind it. -/
def cutBehind (k : Kernel σ) (raw total begin size : Nat) : Act MapError σ Mapping := do
  let mappedEnd ← Word.add raw total
  let usedEnd ← Word.add begin size
  let tail ← Word.sub mappedEnd usedEnd
  if tail > 0 then
    k.unmap usedEnd tail
  return { begin, size }

/-- Keep the first `size` aligned bytes of a mapping of `total` bytes at `raw` and unmap the rest. -/
def trim (k : Kernel σ) (raw total size align : Nat) : Act MapError σ Mapping := do
  let begin ← Word.nextMultiple raw align
  if begin > raw then
    k.unmap raw (begin - raw)
  k.cutBehind raw total begin size

/-- `Pages.reserve` with the calls of a kernel. -/
def reserve (k : Kernel σ) (size align : Nat) : Act MapError σ Mapping := do
  let align := Nat.max align pageSize
  let overflow : MapError := ⟨.mmap, 0, size, Pages.outOfMemory⟩
  let size ← Act.orRefuse overflow (Word.nextMultiple? size pageSize)
  let total ← Act.orRefuse overflow (Word.add? size align)
  let raw ← k.map total .reserved
  k.trim raw total size align

/-- `Pages.anonymous` with the calls of a kernel. -/
def anonymous (k : Kernel σ) (size : Nat) : Act MapError σ Mapping := do
  let size ← Word.nextMultiple (Nat.max size 1) pageSize
  let begin ← k.map size .writable
  return { begin, size }

/-- `Pages.drop` with the calls of a kernel. -/
def drop (k : Kernel σ) (m : Mapping) (s : σ) : σ :=
  match k.unmap m.begin m.size s with
  | .ok _ t => t
  | .error _ t => t

/-- What a system promises: its calls return or are refused, and what it maps begins with a page and
    ends before the end of the address space. -/
structure Lawful (k : Kernel σ) : Prop where
  ends_map : ∀ size access s,
    Act.Ends (k.map size access) s (fun raw _ => pageSize ∣ raw ∧ raw + size < Word.limit) fun _ _ => True
  ends_unmap : ∀ addr size s, Act.Ends (k.unmap addr size) s (fun _ _ => True) fun _ _ => True

/-- The kernel of the machine. -/
def machine : Kernel Pages where
  map := Pages.map
  unmap := Pages.unmap

/-- The machine keeps what a system promises. -/
theorem lawful_machine : machine.Lawful where
  ends_map size access p := by
    refine ((Pages.ends_map size access).and_endsOrStops (Pages.ends_map_dvd size access).orStops).imp ?_
      fun _ _ _ => trivial
    rintro raw q ⟨⟨-, hroom, -⟩, hdvd⟩
    exact ⟨hdvd, Nat.lt_trans hroom (by decide)⟩
  ends_unmap addr size p := (Pages.ends_unmap addr size).imp (fun _ _ _ => trivial) fun _ _ _ => trivial

theorem reserve_machine : machine.reserve = Pages.reserve := rfl

theorem anonymous_machine : machine.anonymous = Pages.anonymous := rfl

theorem drop_machine : machine.drop = Pages.drop := by
  funext m p
  unfold drop Pages.drop
  unfold machine
  dsimp only
  cases Pages.unmap m.begin m.size p with
  | ok _ q => rfl
  | error _ q => rfl

/-- `Shadow.create` with the calls of a kernel. -/
def createShadow (k : Kernel σ) (appBegin appSize : Nat) : Act ShadowError σ Shadow := do
  if appBegin % Shadow.granule ≠ 0 then
    Act.refuse (.unaligned appBegin)
  let appEnd ← Act.orRefuse (.invalidRange appBegin appSize 0 Word.max) (Word.add? appBegin appSize)
  let array ← Act.mapError .map (k.anonymous ((appSize + (Shadow.granule - 1)) / Shadow.granule))
  return {
    appBegin
    appEnd
    offset := Word.wrapSub array.begin (appBegin / Shadow.granule)
    bytes := .const 0
  }

/-- `Heap.create` with the calls of a kernel. -/
def createHeap (k : Kernel Pages) (classes : SizeClasses) (regionLog secondaryLog : Nat) :
    Act AllocError Pages Heap := do
  let primarySize ← Word.shiftLeft classes.count regionLog
  let secondarySize ← Word.shiftLeft 1 secondaryLog
  let size ← Word.add primarySize secondarySize
  let regionSize ← Word.shiftLeft 1 regionLog
  let space ← Act.mapError .map (k.reserve size regionSize)
  match ← Act.attempt (k.createShadow space.begin space.size) with
  | .error e =>
    modify (k.drop space)
    Act.refuse (.shadow e)
  | .ok shadow =>
    return {
      pages := ← get
      shadow
      space
      regionSize
      classes
      regions := Array.replicate classes.count {}
      large := Large.new (space.begin + primarySize) secondarySize
    }

theorem createShadow_machine : machine.createShadow = Shadow.create := by
  unfold createShadow Shadow.create
  rewrite [anonymous_machine]
  rfl

theorem createHeap_machine : machine.createHeap = Heap.create := by
  unfold createHeap Heap.create
  rewrite [reserve_machine, createShadow_machine, drop_machine]
  rfl

/-! ## What a reservation keeps -/

/-- The bytes that are mapped to reserve `size` bytes: whole pages, and room to move them to an aligned address. -/
def request (size align : Nat) : Nat :=
  Word.roundUp size pageSize + max align pageSize

/-- The range that is kept of a mapping at `raw`: whole pages from its first aligned address on. -/
def kept (raw size align : Nat) : Mapping :=
  ⟨Word.roundUp raw (max align pageSize), Word.roundUp size pageSize⟩

/-- The ranges that are not kept of a mapping at `raw`: what lies before the aligned range, and what lies behind it. -/
def spare (raw size align : Nat) : List Mapping :=
  Mapping.between raw (kept raw size align).begin
    ++ Mapping.between (kept raw size align).endAddr (raw + request size align)

theorem boundary_pos (align : Nat) : 0 < max align pageSize :=
  Nat.lt_of_lt_of_le (by decide) (Nat.le_max_right _ _)

/-- What is aligned begins with a page. -/
theorem dvd_boundary (halign : Word.isPowerOfTwo align = true) : pageSize ∣ max align pageSize :=
  Word.dvd_of_powerOfTwo_le (by decide) (isPowerOfTwo_max halign (by decide)) (Nat.le_max_right _ _)

/-- The room is enough to move the range to an aligned address. -/
theorem kept_inside (raw size align : Nat) : raw ≤ (kept raw size align).begin
    ∧ (kept raw size align).endAddr ≤ raw + request size align := by
  have hlt := Word.roundUp_lt (n := raw) (boundary_pos align)
  refine ⟨Word.le_roundUp, ?_⟩
  show Word.roundUp raw (max align pageSize) + Word.roundUp size pageSize
    ≤ raw + (Word.roundUp size pageSize + max align pageSize)
  omega

section Lawful

variable (hk : k.Lawful)

include hk

/-- Whatever comes of what is unmapped, what is kept is what was to be kept. -/
theorem Lawful.ends_cutBehind (hroom : raw + total < Word.limit) (hfits : begin + size ≤ raw + total) :
    Act.Ends (k.cutBehind raw total begin size) s (fun m _ => m = ⟨begin, size⟩) fun _ _ => True := by
  unfold cutBehind
  rw [Act.ends_bind, Act.ends_liftM]
  refine ⟨_, Word.add_eq_ok.mpr ⟨hroom, rfl⟩, ?_⟩
  rw [Act.ends_bind, Act.ends_liftM]
  refine ⟨_, Word.add_eq_ok.mpr ⟨Nat.lt_of_le_of_lt hfits hroom, rfl⟩, ?_⟩
  rw [Act.ends_bind, Act.ends_liftM]
  refine ⟨_, Word.sub_eq_ok.mpr ⟨hfits, rfl⟩, ?_⟩
  by_cases htail : raw + total - (begin + size) > 0
  · rw [if_pos htail, Act.ends_bind]
    exact (hk.ends_unmap _ _ _).imp (fun _ _ _ => rfl) fun _ _ _ => trivial
  · rw [if_neg htail]
    exact rfl

/-- What is kept of a mapping is the range from its first aligned address on. -/
theorem Lawful.ends_trim (halign : 0 < align) (hroom : raw + total < Word.limit)
    (hfits : Word.roundUp raw align + size ≤ raw + total) :
    Act.Ends (k.trim raw total size align) s (fun m _ => m = ⟨Word.roundUp raw align, size⟩) fun _ _ => True := by
  have hlt : Word.roundUp raw align < Word.limit :=
    Nat.lt_of_le_of_lt (Nat.le_add_right _ size) (Nat.lt_of_le_of_lt hfits hroom)
  unfold trim
  rw [Act.ends_bind, Act.ends_liftM]
  refine ⟨_, Word.nextMultiple_eq_ok.mpr ⟨halign, hlt, rfl⟩, ?_⟩
  by_cases hgap : Word.roundUp raw align > raw
  · rw [if_pos hgap, Act.ends_bind]
    exact (hk.ends_unmap _ _ _).imp (fun _ _ _ => hk.ends_cutBehind hroom hfits) fun _ _ _ => trivial
  · rw [if_neg hgap]
    exact hk.ends_cutBehind hroom hfits

/-- Wherever a system that keeps its promises places the mapping, what is kept of it is aligned and ends in time. -/
theorem Lawful.ends_reserve (size align : Nat) :
    Act.Ends (k.reserve size align) s
      (fun m _ => max align pageSize ∣ m.begin ∧ m.size = Word.roundUp size pageSize ∧ m.endAddr < Word.limit)
      fun _ _ => True := by
  unfold reserve
  dsimp only
  rw [Act.ends_bind]
  refine Act.ends_orRefuse.mpr ⟨fun rounded hrounded => ?_, fun _ => trivial⟩
  obtain ⟨-, -, rfl⟩ := Word.nextMultiple?_eq_some.mp hrounded
  rw [Act.ends_bind]
  refine Act.ends_orRefuse.mpr ⟨fun total htotal => ?_, fun _ => trivial⟩
  obtain ⟨-, rfl⟩ := Word.add?_eq_some.mp htotal
  rw [Act.ends_bind]
  -- From here on both numbers are words; where the mapping begins is up to the kernel.
  refine (hk.ends_map _ _ _).imp ?_ fun _ _ _ => trivial
  rintro raw u ⟨-, hroom⟩
  have hfits := (kept_inside raw size align).2
  refine (hk.ends_trim (boundary_pos align) hroom hfits).imp ?_ fun _ _ _ => trivial
  rintro m t rfl
  exact ⟨Word.dvd_roundUp (boundary_pos align), rfl, Nat.lt_of_le_of_lt hfits hroom⟩

/-- Only the system refuses a mapping of a size that is a word. -/
theorem Lawful.ends_anonymous (hsize : size + pageSize < Word.limit) :
    Act.Ends (k.anonymous size) s (fun _ _ => True) fun _ _ => True := by
  have hmax : Nat.max size 1 ≤ size + 1 := Nat.max_le.mpr ⟨by omega, by omega⟩
  have hround := Word.roundUp_lt (n := Nat.max size 1) (m := pageSize) (by decide)
  unfold anonymous
  rw [Act.ends_bind, Act.ends_liftM]
  refine ⟨_, Word.nextMultiple_eq_ok.mpr ⟨by decide, by omega, rfl⟩, ?_⟩
  rw [Act.ends_bind]
  exact (hk.ends_map _ _ _).imp (fun _ _ _ => trivial) fun _ _ _ => trivial

/-- Only the system refuses a shadow for a range of granules of the address space. -/
theorem Lawful.ends_createShadow (hbegin : Shadow.granule ∣ begin) (hend : begin + size < Word.limit) :
    Act.Ends (k.createShadow begin size) s (fun _ _ => True) fun e _ => ∃ m, e = .map m := by
  have hroom : (size + (Shadow.granule - 1)) / Shadow.granule + pageSize < Word.limit := by
    have hbytes : (size + (Shadow.granule - 1)) / Shadow.granule ≤ (Word.limit + (Shadow.granule - 1)) / Shadow.granule :=
      Nat.div_le_div_right (by omega)
    have hlimit : (Word.limit + (Shadow.granule - 1)) / Shadow.granule + pageSize < Word.limit := by decide
    omega
  unfold createShadow
  rw [if_neg (not_not.mpr (Nat.mod_eq_zero_of_dvd hbegin)), Act.ends_bind]
  refine Act.ends_orRefuse.mpr ⟨fun past _ => ?_, fun hnone => ?_⟩
  · rw [Act.ends_bind, Act.ends_mapError]
    exact (hk.ends_anonymous hroom).imp (fun _ _ _ => trivial) fun e _ _ => ⟨e, rfl⟩
  · rw [Word.add?_eq_some.mpr ⟨hend, rfl⟩] at hnone
    exact nomatch hnone

end Lawful

/-! ## What a heap is made of -/

/-- The heap in a reserved range, as it is made. -/
def heapIn (space : Mapping) (shadow : Shadow) (classes : SizeClasses) (regionLog secondaryLog : Nat)
    (pages : Pages) : Heap where
  pages
  shadow
  space
  regionSize := Word.powerOfTwo regionLog
  classes
  regions := Array.replicate classes.count {}
  large := Large.new (space.begin + classes.count * Word.powerOfTwo regionLog) (Word.powerOfTwo secondaryLog)

theorem primaryEnd_heapIn (space : Mapping) (shadow : Shadow) (classes : SizeClasses)
    (regionLog secondaryLog : Nat) (pages : Pages) :
    (heapIn space shadow classes regionLog secondaryLog pages).primaryEnd
      = space.begin + classes.count * Word.powerOfTwo regionLog := by
  unfold Heap.primaryEnd heapIn
  dsimp only
  rw [Array.size_replicate]

/-- A heap is a reserved range for the regions and the secondary range, and a shadow of it. -/
theorem of_createHeap {k : Kernel Pages} {classes : SizeClasses} {regionLog secondaryLog : Nat} {p q : Pages}
    {h : Heap} (hcount : classes.count * Word.powerOfTwo regionLog < Word.limit)
    (hmade : k.createHeap classes regionLog secondaryLog p = .ok h q) : ∃ space shadow u,
      k.reserve (classes.count * Word.powerOfTwo regionLog + Word.powerOfTwo secondaryLog)
        (Word.powerOfTwo regionLog) p = .ok space u
      ∧ k.createShadow space.begin space.size u = .ok shadow q
      ∧ h = heapIn space shadow classes regionLog secondaryLog q := by
  obtain ⟨primarySize, _, hact, hmade⟩ := Act.bind_eq_ok.mp hmade
  obtain ⟨hshift, rfl⟩ := Act.liftM_eq_ok.mp hact
  obtain ⟨-, rfl⟩ := (Word.shiftLeft_eq_ok hcount).mp hshift
  obtain ⟨secondarySize, _, hact, hmade⟩ := Act.bind_eq_ok.mp hmade
  obtain ⟨hshift, rfl⟩ := Act.liftM_eq_ok.mp hact
  obtain ⟨-, rfl⟩ := Word.shiftLeft_one_eq_ok.mp hshift
  obtain ⟨size, _, hact, hmade⟩ := Act.bind_eq_ok.mp hmade
  obtain ⟨hsum, rfl⟩ := Act.liftM_eq_ok.mp hact
  obtain ⟨-, rfl⟩ := Word.add_eq_ok.mp hsum
  obtain ⟨regionSize, _, hact, hmade⟩ := Act.bind_eq_ok.mp hmade
  obtain ⟨hshift, rfl⟩ := Act.liftM_eq_ok.mp hact
  obtain ⟨-, rfl⟩ := Word.shiftLeft_one_eq_ok.mp hshift
  obtain ⟨space, u, hspace, hmade⟩ := Act.bind_eq_ok.mp hmade
  obtain ⟨attempt, t, hattempt, hmade⟩ := Act.bind_eq_ok.mp hmade
  cases attempt with
  | error e =>
      obtain ⟨_, _, -, hmade⟩ := Act.bind_eq_ok.mp hmade
      exact (Act.refuse_eq_ok.mp hmade).elim
  | ok shadow =>
      obtain ⟨pages, _, hget, hmade⟩ := Act.bind_eq_ok.mp hmade
      obtain ⟨rfl, rfl⟩ := Act.get_eq_ok.mp hget
      obtain ⟨rfl, rfl⟩ := Act.pure_eq_ok.mp hmade
      rcases Act.attempt_eq_ok.mp hattempt with ⟨_, heq, hshadow⟩ | ⟨_, hnot, -⟩
      · cases heq
        exact ⟨space, shadow, u, Act.mapError_eq_ok.mp hspace, hshadow, rfl⟩
      · exact nomatch hnot

/-- Only the system refuses a heap whose parts and range are words. -/
theorem Lawful.ends_createHeap {k : Kernel Pages} (hk : k.Lawful) {classes : SizeClasses}
    {regionLog secondaryLog : Nat} {p : Pages} (hregion : regionLog < 64) (hsecondary : secondaryLog < 64)
    (hpage : pageSize ∣ Word.powerOfTwo regionLog)
    (htotal : classes.count * Word.powerOfTwo regionLog + Word.powerOfTwo secondaryLog < Word.limit) :
    Act.Ends (k.createHeap classes regionLog secondaryLog) p (fun _ _ => True)
      fun e _ => (∃ m, e = .map m) ∨ ∃ m, e = .shadow (.map m) := by
  unfold createHeap
  rw [Act.ends_bind, Act.ends_liftM]
  refine ⟨_, (Word.shiftLeft_eq_ok (by omega)).mpr ⟨hregion, rfl⟩, ?_⟩
  rw [Act.ends_bind, Act.ends_liftM]
  refine ⟨_, Word.shiftLeft_one_eq_ok.mpr ⟨hsecondary, rfl⟩, ?_⟩
  rw [Act.ends_bind, Act.ends_liftM]
  refine ⟨_, Word.add_eq_ok.mpr ⟨htotal, rfl⟩, ?_⟩
  rw [Act.ends_bind, Act.ends_liftM]
  refine ⟨_, Word.shiftLeft_one_eq_ok.mpr ⟨hregion, rfl⟩, ?_⟩
  rw [Act.ends_bind, Act.ends_mapError]
  refine (hk.ends_reserve _ _).imp ?_ fun e _ _ => .inl ⟨e, rfl⟩
  rintro space q ⟨hdvd, -, hend⟩
  have hbegin : Shadow.granule ∣ space.begin :=
    Nat.dvd_trans (Nat.dvd_trans (by decide) (dvd_max hpage (Nat.dvd_refl _))) hdvd
  rw [Act.ends_bind, Act.ends_attempt]
  refine (hk.ends_createShadow hbegin hend).imp (fun _ _ _ => trivial) ?_
  rintro _ r ⟨m, rfl⟩
  exact .inr ⟨m, rfl⟩

/-! ## What a reservation gives back -/

/-- The calls that a kernel has met. -/
structure Ledger where
  mapped : List Mapping := []
  unmapped : List Mapping := []
  deriving DecidableEq, Repr

/-- Note ranges that were unmapped. -/
def Ledger.unmapping (l : Ledger) (ranges : List Mapping) : Ledger :=
  { l with unmapped := l.unmapped ++ ranges }

/-- Note a range that was mapped. -/
def Ledger.mapping (l : Ledger) (range : Mapping) : Ledger :=
  { l with mapped := l.mapped ++ [range] }

@[simp] theorem Ledger.unmapping_append (l : Ledger) (xs ys : List Mapping) :
    l.unmapping (xs ++ ys) = (l.unmapping xs).unmapping ys := by
  simp [unmapping]

/-- A kernel that places each mapping at `raw`, refuses nothing, and notes what it is asked. -/
def granting (raw : Nat) : Kernel Ledger where
  map size _ := do
    modify (·.mapping ⟨raw, size⟩)
    return raw
  unmap addr size := modify (·.unmapping [⟨addr, size⟩])

variable {l : Ledger}

/-- A range that is unmapped is noted. -/
theorem granting_unmap {lo hi : Nat} (h : hi > lo) :
    (granting raw).unmap lo (hi - lo) l = .ok () (l.unmapping (Mapping.between lo hi)) := by
  unfold Mapping.between
  rw [if_pos h]
  rfl

/-- What ends nowhere behind where it begins is not there. -/
theorem unmapping_between {lo hi : Nat} (h : ¬ hi > lo) : l.unmapping (Mapping.between lo hi) = l := by
  unfold Mapping.between Ledger.unmapping
  rw [if_neg h, List.append_nil]

/-- What lies behind the kept range is given back. -/
theorem cutBehind_granting (hroom : raw + total < Word.limit) (hfits : begin + size ≤ raw + total) :
    (granting raw).cutBehind raw total begin size l
      = .ok ⟨begin, size⟩ (l.unmapping (Mapping.between (begin + size) (raw + total))) := by
  unfold cutBehind
  rw [Act.checked_bind (Word.add_eq_ok.mpr ⟨hroom, rfl⟩),
    Act.checked_bind (Word.add_eq_ok.mpr ⟨Nat.lt_of_le_of_lt hfits hroom, rfl⟩),
    Act.checked_bind (Word.sub_eq_ok.mpr ⟨hfits, rfl⟩)]
  by_cases htail : raw + total > begin + size
  · rw [if_pos (Nat.sub_pos_of_lt htail), Act.bind_of_ok (granting_unmap htail)]
    rfl
  · have hnone : ¬ raw + total - (begin + size) > 0 := by omega
    rw [if_neg hnone, unmapping_between htail]
    rfl

/-- What lies before and behind the kept range is given back. -/
theorem trim_granting (halign : 0 < align) (hroom : raw + total < Word.limit)
    (hfits : Word.roundUp raw align + size ≤ raw + total) :
    (granting raw).trim raw total size align l = .ok ⟨Word.roundUp raw align, size⟩
      ((l.unmapping (Mapping.between raw (Word.roundUp raw align))).unmapping
        (Mapping.between (Word.roundUp raw align + size) (raw + total))) := by
  have hlt : Word.roundUp raw align < Word.limit :=
    Nat.lt_of_le_of_lt (Nat.le_add_right _ size) (Nat.lt_of_le_of_lt hfits hroom)
  unfold trim
  rw [Act.checked_bind (Word.nextMultiple_eq_ok.mpr ⟨halign, hlt, rfl⟩)]
  by_cases hgap : Word.roundUp raw align > raw
  · rw [if_pos hgap, Act.bind_of_ok (granting_unmap hgap)]
    exact cutBehind_granting hroom hfits
  · rw [if_neg hgap, unmapping_between hgap]
    exact cutBehind_granting hroom hfits

/-- A request that is no word is refused, and nothing has been mapped. -/
theorem reserve_of_limit_le (h : Word.limit ≤ request size align) :
    k.reserve size align s = .error (.refused ⟨.mmap, 0, size, Pages.outOfMemory⟩) s := by
  unfold request at h
  unfold reserve
  cases hrounded : Word.nextMultiple? size pageSize with
  | none => rfl
  | some rounded =>
      obtain ⟨-, -, rfl⟩ := Word.nextMultiple?_eq_some.mp hrounded
      have htotal : Word.add? (Word.roundUp size pageSize) (Nat.max align pageSize) = none := by
        unfold Word.add?
        exact if_neg (Nat.not_lt.mpr h)
      rw [Act.orRefuse_bind rfl, htotal]
      rfl

/-- A request that fits behind the granted address is made once, and what is not kept is given back. -/
theorem reserve_granting (hroom : raw + request size align < Word.limit) :
    (granting raw).reserve size align l = .ok (kept raw size align)
      ((l.mapping ⟨raw, request size align⟩).unmapping (spare raw size align)) := by
  have htotal : request size align < Word.limit := Nat.lt_of_le_of_lt (Nat.le_add_left _ _) hroom
  have hrounded : Word.roundUp size pageSize < Word.limit :=
    Nat.lt_of_le_of_lt (Nat.le_add_right _ _) htotal
  unfold reserve
  rw [Act.orRefuse_bind (Word.nextMultiple?_eq_some.mpr ⟨by decide, hrounded, rfl⟩),
    Act.orRefuse_bind (Word.add?_eq_some.mpr ⟨htotal, rfl⟩)]
  unfold spare
  rw [Ledger.unmapping_append]
  exact trim_granting (l := l.mapping ⟨raw, request size align⟩) (boundary_pos align) hroom
    (kept_inside raw size align).2

/-! ## How a mapping is cut -/

/-- A mapping of as many bytes as are requested, at `raw`, was cut into the range `m` that is kept
    and the ranges of `rest`. -/
structure Trimmed (size align raw : Nat) (m : Mapping) (rest : List Mapping) : Prop where
  begin_dvd : max align pageSize ∣ m.begin
  size_eq : m.size = Word.roundUp size pageSize
  inside : raw ≤ m.begin ∧ m.endAddr ≤ raw + request size align
  pages : ∀ x ∈ rest, pageSize ∣ x.begin ∧ pageSize ∣ x.size ∧ 0 < x.size
  apart : (m :: rest).Pairwise Mapping.Apart
  covered : ∀ a, (∃ x ∈ m :: rest, x.contains a = true) ↔ raw ≤ a ∧ a < raw + request size align

/-- What is kept lies between what is not. -/
theorem tiles_kept (raw size align : Nat) : Mapping.Tiles raw (raw + request size align)
    (Mapping.between raw (kept raw size align).begin ++ kept raw size align
      :: Mapping.between (kept raw size align).endAddr (raw + request size align)) := by
  obtain ⟨hlo, hhi⟩ := kept_inside raw size align
  exact (Mapping.tiles_between hlo).append (.cons _ (Mapping.tiles_between hhi))

/-- What is given back are whole pages. -/
theorem pages_spare (halign : Word.isPowerOfTwo align = true) (hraw : pageSize ∣ raw) {x : Mapping}
    (hx : x ∈ spare raw size align) : pageSize ∣ x.begin ∧ pageSize ∣ x.size ∧ 0 < x.size := by
  have hsize : pageSize ∣ Word.roundUp size pageSize := Word.dvd_roundUp (by decide)
  have hbegin : pageSize ∣ (kept raw size align).begin :=
    Nat.dvd_trans (dvd_boundary halign) (Word.dvd_roundUp (boundary_pos align))
  have hend : pageSize ∣ (kept raw size align).endAddr := Nat.dvd_add hbegin hsize
  have hpast : pageSize ∣ raw + request size align :=
    Nat.dvd_add hraw (Nat.dvd_add hsize (dvd_boundary halign))
  rcases List.mem_append.mp hx with hx | hx
  · obtain ⟨hfrom, hx, hpos⟩ := Mapping.mem_between hx
    exact ⟨hfrom ▸ hraw, hx ▸ Nat.dvd_sub hbegin hraw, hpos⟩
  · obtain ⟨hfrom, hx, hpos⟩ := Mapping.mem_between hx
    exact ⟨hfrom ▸ hend, hx ▸ Nat.dvd_sub hpast hend, hpos⟩

/-- A mapping is cut into what is kept and what is given back. -/
theorem trimmed (halign : Word.isPowerOfTwo align = true) (hraw : pageSize ∣ raw) :
    Trimmed size align raw (kept raw size align) (spare raw size align) := by
  have htiles := tiles_kept raw size align
  -- The kept range is listed first, not between the others.
  have hperm : (Mapping.between raw (kept raw size align).begin ++ kept raw size align
      :: Mapping.between (kept raw size align).endAddr (raw + request size align)).Perm
        (kept raw size align :: spare raw size align) := List.perm_middle
  refine ⟨Word.dvd_roundUp (boundary_pos align), rfl, kept_inside raw size align,
    fun x hx => pages_spare halign hraw hx, ?_, fun a => ?_⟩
  · exact (hperm.pairwise_iff Mapping.Apart.symm).mp htiles.apart
  · rw [← htiles.covers_iff]
    exact exists_congr fun x => and_congr_left' hperm.symm.mem_iff

end Kernel

end GuardedHeap
