import GuardedHeap.Proofs.Shadow
import GuardedHeap.Report.Kind
import GuardedHeap.Shadow.Window

/-! # Questions — what a shadow answers, and which questions stop it

    A question to a shadow is answered with plain sums, so it is stopped
    where one of them leaves the word: at the last granule of the address
    space (`firstBad_stopped_iff`), and for accesses of almost the whole
    of it (`explaining_stopped_iff`).  Windows are always there
    (`Mapped.window_ok`).

    Whether an access is bad is decided at all of its granules, but the
    shadow byte that explains it is looked for in the first one, in the
    next one if the first is accessible, and behind a partial one once
    more.  Where that search stops short the byte says that everything can
    be accessed (`explains_unless_overlooked`). -/

namespace GuardedHeap.Shadow

variable {s : Shadow} {addr size start : Nat} {k k' : UInt8}

/-! ## Marks by hand -/

/-- A call that marks a range. -/
inductive Marking where
  /-- The allocator gives a reason to poison, or none. -/
  | poison (addr size : Nat) (why : Option Magic)
  | unpoison (addr size : Nat)
  | poisonUser (addr size : Nat)
  | unpoisonUser (addr size : Nat)

/-- Carry the call out. -/
def Marking.perform : Marking → Act ShadowError Shadow Unit
  | poison addr size why => Shadow.poison addr size ((why.map Magic.byte).getD 0)
  | unpoison addr size => Shadow.unpoison addr size
  | poisonUser addr size => Shadow.poisonUser addr size
  | unpoisonUser addr size => Shadow.unpoisonUser addr size

/-- A shadow that was made and then marked; calls may be refused. -/
inductive Reached : Shadow → Prop where
  | create {begin size : Nat} {p q : Pages} {s : Shadow} (h : create begin size p = .ok s q) : Reached s
  | mark {s : Shadow} (h : Reached s) (m : Marking) : Reached (m.perform.after s)

/-- No call moves the shadow or what it is about. -/
theorem Marking.sameRange (m : Marking) (s : Shadow) : SameRange s (m.perform.after s) := by
  have hrefl : SameRange s s := ⟨rfl, rfl, rfl⟩
  have hpoison : ∀ addr size value, SameRange s ((Shadow.poison addr size value).after s) := by
    intro addr size value
    unfold Shadow.poison
    by_cases hsize : size = 0
    · rw [if_pos hsize]
      exact hrefl
    rw [if_neg hsize]
    by_cases hcovers : (!s.covers addr size) = true
    · show SameRange s (Act.after (if (!s.covers addr size) = true then _ else _) s)
      rw [if_pos hcovers]
      exact hrefl
    show SameRange s (Act.after (if (!s.covers addr size) = true then _ else _) s)
    rw [if_neg hcovers]
    by_cases haligned : addr % granule ≠ 0
    · rw [if_pos haligned]
      exact hrefl
    · rw [if_neg haligned]
      exact poisoned_sameRange s addr size value
  have huser : ∀ (mark : Shadow → Nat → Nat → Shadow) (addr size : Nat), SameRange s (mark s addr size) →
      SameRange s ((markUser mark addr size).after s) := by
    intro mark addr size hmark
    unfold markUser
    by_cases hsize : size = 0
    · rw [if_pos hsize]
      exact hrefl
    rw [if_neg hsize]
    by_cases hcovers : (!s.covers addr size) = true
    · show SameRange s (Act.after (if (!s.covers addr size) = true then _ else _) s)
      rw [if_pos hcovers]
      exact hrefl
    · show SameRange s (Act.after (if (!s.covers addr size) = true then _ else _) s)
      rw [if_neg hcovers]
      exact hmark
  cases m with
  | poison addr size why => exact hpoison addr size _
  | unpoison addr size => exact hpoison addr size 0
  | poisonUser addr size => exact huser _ addr size (userPoisoned_sameRange s addr size)
  | unpoisonUser addr size => exact huser _ addr size (userUnpoisoned_sameRange s addr size)

/-- A shadow made on fresh pages and then marked. -/
def marked (begin size : Nat) (marks : List Marking) : Option Shadow :=
  match create begin size {} with
  | .ok s _ => some (marks.foldl (fun s m => m.perform.after s) s)
  | .error _ _ => none

/-- A shadow goes on with marks that are made one after the other. -/
theorem Reached.marks (h : Reached s) (marks : List Marking) :
    Reached (marks.foldl (fun s m => m.perform.after s) s) := by
  induction marks generalizing s with
  | nil => exact h
  | cons m rest ih => exact ih (h.mark m)

/-- A shadow that passes a check can be found by marking. -/
theorem Reached.of_marked {begin size : Nat} {marks : List Marking} {check : Shadow → Bool}
    (h : (marked begin size marks).any check = true) : ∃ s, Reached s ∧ check s = true := by
  obtain ⟨s, hs, hcheck⟩ := (Option.any_eq_true _ _).mp h
  unfold marked at hs
  cases hcreate : Shadow.create begin size {} with
  | ok fresh q =>
      rw [hcreate] at hs
      exact ⟨s, Option.some.inj hs ▸ (Reached.create hcreate).marks marks, hcheck⟩
  | error e q =>
      rw [hcreate] at hs
      exact nomatch hs

/-- A shadow that is reached is mapped. -/
theorem Reached.mapped (h : Reached s) : s.Mapped := by
  induction h with
  | create h => exact ((endsOrStops_create _ _).of_ok h).2.2.1
  | mark _ m ih => exact ih.kept (m.sameRange _)

/-! ## Windows -/

/-- The offset leads from a tracked address to its place in the array, though it may wrap around. -/
theorem Mapped.toShadow_of_offset (h : s.Mapped) {array a : Nat}
    (hoffset : s.offset = Word.wrapSub array (s.appBegin / granule))
    (hroom : array + (s.appEnd - s.appBegin) / granule < Word.signLimit)
    (hlo : s.appBegin ≤ a) (hhi : a < s.appEnd) : s.toShadow a = array + (a - s.appBegin) / granule := by
  have haligned := h.aligned
  have hend := h.end_lt
  unfold toShadow Word.wrapAdd
  rw [hoffset]
  unfold Word.wrapSub
  simp only [granule, Word.limit, Word.signLimit] at *
  omega

/-- Where the shadow byte of a tracked address lies in the array. -/
theorem Mapped.toShadow_eq (h : s.Mapped) :
    ∃ array, array + (s.appEnd - s.appBegin) / granule < Word.signLimit
      ∧ ∀ a, s.appBegin ≤ a → a < s.appEnd → s.toShadow a = array + (a - s.appBegin) / granule := by
  obtain ⟨array, hoffset, hroom⟩ := h.array
  exact ⟨array, hroom, fun a hlo hhi => h.toShadow_of_offset hoffset hroom hlo hhi⟩

/-- The shadow address where the first row of a window begins, as if nothing were cut off. -/
def firstRow (s : Shadow) (addr : Nat) : Nat :=
  Word.roundDown (s.toShadow addr) Window.rowBytes - Window.rows / 2 * Window.rowBytes

/-- The shadow address where a window begins. -/
def windowBegin (s : Shadow) (addr : Nat) : Nat :=
  max (s.firstRow addr) (s.toShadow s.appBegin)

/-- The shadow address behind a window. -/
def windowPast (s : Shadow) (addr : Nat) : Nat :=
  min (s.firstRow addr + Window.rows * Window.rowBytes) (s.toShadow (s.appEnd - 1) + 1)

theorem isTracked_iff : s.isTracked addr = true ↔ s.appBegin ≤ addr ∧ addr < s.appEnd := by
  unfold isTracked
  rw [Bool.and_eq_true, decide_eq_true_eq, decide_eq_true_eq]

/-- A tracked address has its shadow byte in the window around it, whose bounds are words. -/
theorem Mapped.window_bounds (h : s.Mapped) (htracked : s.isTracked addr = true) :
    s.windowBegin addr ≤ s.toShadow addr ∧ s.toShadow addr < s.windowPast addr
      ∧ s.firstRow addr + Window.rows * Window.rowBytes < Word.limit
      ∧ s.toShadow (s.appEnd - 1) + 1 < Word.limit := by
  obtain ⟨hlo, hhi⟩ := isTracked_iff.mp htracked
  obtain ⟨array, hroom, hplace⟩ := h.toShadow_eq
  unfold windowBegin windowPast firstRow
  rw [hplace addr hlo hhi, hplace s.appBegin (Nat.le_refl _) (by omega),
    hplace (s.appEnd - 1) (by omega) (by omega), Nat.sub_self, Nat.zero_div, Nat.add_zero]
  have hfocus : (addr - s.appBegin) / granule ≤ (s.appEnd - 1 - s.appBegin) / granule :=
    Nat.div_le_div_right (by omega)
  have hlast : (s.appEnd - 1 - s.appBegin) / granule ≤ (s.appEnd - s.appBegin) / granule :=
    Nat.div_le_div_right (by omega)
  have hround : Word.roundDown (array + (addr - s.appBegin) / granule) Window.rowBytes
      ≤ array + (addr - s.appBegin) / granule
    ∧ array + (addr - s.appBegin) / granule
      < Word.roundDown (array + (addr - s.appBegin) / granule) Window.rowBytes + Window.rowBytes := by
    unfold Word.roundDown Window.rowBytes
    omega
  generalize (addr - s.appBegin) / granule = position at *
  generalize (s.appEnd - 1 - s.appBegin) / granule = last at *
  generalize Word.roundDown (array + position) Window.rowBytes = row at *
  simp only [Window.rows, Window.rowBytes, Word.signLimit, Word.limit] at *
  omega

/-- The window around a tracked address. -/
theorem Mapped.window_eq (h : s.Mapped) (htracked : s.isTracked addr = true) :
    s.window addr = .ok (some
      { shadowBegin := s.windowBegin addr
        appBegin := s.ofShadow (s.windowBegin addr)
        focus := s.toShadow addr - s.windowBegin addr
        bytes := s.bytes.slice (Word.wrapSub (s.windowBegin addr) s.offset)
          (s.windowPast addr - s.windowBegin addr) }) := by
  obtain ⟨hbegin, hpast, hrows, hend⟩ := h.window_bounds htracked
  have hrowsEnd : Word.add (s.firstRow addr) (Window.rows * Window.rowBytes) =
      .ok (s.firstRow addr + Window.rows * Window.rowBytes) := Word.add_eq_ok.mpr ⟨hrows, rfl⟩
  have htrackedEnd : Word.add (s.toShadow (s.appEnd - 1)) 1 = .ok (s.toShadow (s.appEnd - 1) + 1) :=
    Word.add_eq_ok.mpr ⟨hend, rfl⟩
  have hcount : Word.sub (s.windowPast addr) (s.windowBegin addr) =
      .ok (s.windowPast addr - s.windowBegin addr) := Word.sub_eq_ok.mpr ⟨by omega, rfl⟩
  have hposition : Word.sub (s.toShadow addr) (s.windowBegin addr) =
      .ok (s.toShadow addr - s.windowBegin addr) := Word.sub_eq_ok.mpr ⟨hbegin, rfl⟩
  unfold windowPast windowBegin firstRow at *
  unfold window
  dsimp only
  rw [if_neg (by simpa using htracked), hrowsEnd, htrackedEnd]
  simp only [bind, Except.bind]
  rw [hcount, hposition]
  rfl

/-- There is no window around other addresses. -/
theorem window_of_untracked (h : s.isTracked addr = false) : s.window addr = .ok none := by
  unfold window
  dsimp only
  rw [if_pos (by simpa using h)]
  rfl

/-- Asking for a window is not stopped. -/
theorem Mapped.window_ok (h : s.Mapped) (addr : Nat) : ∃ w, s.window addr = .ok w := by
  cases htracked : s.isTracked addr with
  | false => exact ⟨_, window_of_untracked htracked⟩
  | true => exact ⟨_, h.window_eq htracked⟩

/-! ## Bad accesses -/

/-- A range is covered if it lies between the ends. -/
theorem covers_iff : s.covers addr size = true ↔ s.appBegin ≤ addr ∧ addr + size ≤ s.appEnd := by
  unfold covers
  rw [Bool.and_eq_true, decide_eq_true_eq, decide_eq_true_eq]

/-- The granule of a tracked address is tracked from its first byte on. -/
theorem Mapped.covers_roundDown (h : s.Mapped) (hlo : s.appBegin ≤ addr) (hhi : addr < s.appEnd) :
    s.covers (Word.roundDown addr granule) 1 = true := by
  have haligned := h.aligned
  rw [covers_iff]
  simp only [Word.roundDown, granule] at *
  omega

/-- The end of the last granule of an access is no word, and no granule before it is poisoned. -/
def ReachesLimit (s : Shadow) (addr size : Nat) : Prop :=
  size ≠ 0 ∧ s.covers addr size = true ∧ Word.limit ≤ addr + size - 1 + granule
    ∧ ∀ g, addr / granule ≤ g → g < (addr + size - 1) / granule → s.ofGranule g = 0

/-- The granules of an access are looked at one by one, up to one that is bad; the end of the last one
    has to be a word. -/
theorem firstBad_cases (hmapped : s.Mapped) (hsize : size ≠ 0) (hcovers : s.covers addr size = true) :
    (∃ g, s.firstBad addr size = .ok (some (g * granule)) ∧ addr / granule ≤ g
        ∧ g * granule < addr + size ∧ g * granule + granule < Word.limit ∧ s.ofGranule g ≠ 0)
      ∨ (s.firstBad addr size = .ok none ∧ addr + size - 1 + granule < Word.limit)
      ∨ s.firstBad addr size = .error .stopped ∧ s.ReachesLimit addr size := by
  obtain ⟨hlo, hhi⟩ := covers_iff.mp hcovers
  have hend := hmapped.end_lt
  unfold firstBad
  rw [if_neg hsize, if_neg (by rw [hcovers]; decide)]
  dsimp only
  -- All granules but the last are looked at as a whole.
  cases hfind : s.bytes.find? (addr / granule) ((addr + size - 1) / granule) (· != 0) with
  | some g =>
      obtain ⟨hfirst, hlast, -, hbad⟩ := RangeMap.find?_eq_some hfind
      refine .inl ⟨g, rfl, hfirst, ?_, ?_, bne_iff_ne.mp hbad⟩
      all_goals
        simp only [granule, Word.limit] at *
        omega
  | none =>
      dsimp only
      by_cases hroom : (addr + size - 1) / granule * granule + granule < Word.limit
      · rw [show Word.add ((addr + size - 1) / granule * granule) granule = .ok _ from
          Word.add_eq_ok.mpr ⟨hroom, rfl⟩]
        by_cases htouched : addressableBytes (s.ofGranule ((addr + size - 1) / granule)) ≤
            addr + size - 1 - (addr + size - 1) / granule * granule
        · refine .inl ⟨_, congrArg Except.ok (if_pos htouched), ?_, ?_, hroom, fun hzero => ?_⟩
          · exact Nat.div_le_div_right (by omega)
          · simp only [granule]
            omega
          · rw [hzero] at htouched
            simp only [addressableBytes, granule, if_true] at htouched
            omega
        · refine .inr (.inl ⟨congrArg Except.ok (if_neg htouched), ?_⟩)
          simp only [granule, Word.limit] at *
          omega
      · rw [show Word.add ((addr + size - 1) / granule * granule) granule = .error .overrun from
          if_neg hroom]
        refine .inr (.inr ⟨rfl, hsize, hcovers, ?_, fun g hfirst hlast => ?_⟩)
        · simp only [granule, Word.limit] at *
          omega
        · refine bne_eq_false_iff_eq.mp (RangeMap.find?_eq_none hfind hfirst hlast ?_)
          simp only [granule, RangeMap.span, Word.limit] at *
          omega

/-- The search for a bad granule is stopped at the last granule of the address space. -/
theorem firstBad_stopped_iff (hmapped : s.Mapped) :
    s.firstBad addr size = .error .stopped ↔ s.ReachesLimit addr size := by
  constructor
  · intro hstopped
    by_cases hsize : size = 0
    · rw [firstBad, if_pos hsize] at hstopped
      cases hstopped
    cases hcovers : s.covers addr size with
    | false =>
        rw [firstBad, if_neg hsize, if_pos (by rw [hcovers]; decide)] at hstopped
        cases hstopped
    | true =>
        rcases firstBad_cases hmapped hsize hcovers with ⟨_, hsome, -⟩ | ⟨hnone, -⟩ | ⟨-, hreaches⟩
        · cases hsome.symm.trans hstopped
        · cases hnone.symm.trans hstopped
        · exact hreaches
  · rintro ⟨hsize, hcovers, hlimit, hclear⟩
    rcases firstBad_cases hmapped hsize hcovers with ⟨g, -, hfirst, -, hroom, hbad⟩ | ⟨-, hroom⟩ | ⟨hstopped, -⟩
    · refine absurd (hclear g hfirst ?_) hbad
      simp only [granule, Word.limit] at *
      omega
    · exact absurd hlimit (by omega)
    · exact hstopped

/-- A question is stopped if its range reaches the end of the words. -/
theorem accessIsPoisoned_stopped_iff (hmapped : s.Mapped) :
    s.accessIsPoisoned addr size = .error .stopped ↔ s.ReachesLimit addr size := by
  rw [← firstBad_stopped_iff hmapped]
  unfold accessIsPoisoned
  cases s.firstBad addr size with
  | ok g => exact ⟨nofun, nofun⟩
  | error e => exact ⟨fun h => congrArg _ (Except.error.inj h), fun h => congrArg _ (Except.error.inj h)⟩

/-- A bad access has a bad granule, whose end is a word. -/
theorem of_accessIsPoisoned (hmapped : s.Mapped) (hbad : s.accessIsPoisoned addr size = .ok true) :
    size ≠ 0 ∧ s.covers addr size = true ∧ ∃ g, addr / granule ≤ g ∧ g * granule < addr + size
      ∧ g * granule + granule < Word.limit ∧ s.ofGranule g ≠ 0 := by
  unfold accessIsPoisoned at hbad
  by_cases hsize : size = 0
  · rw [firstBad, if_pos hsize] at hbad
    cases hbad
  cases hcovers : s.covers addr size with
  | false =>
      rw [firstBad, if_neg hsize, if_pos (by rw [hcovers]; decide)] at hbad
      cases hbad
  | true =>
      rcases firstBad_cases hmapped hsize hcovers with ⟨g, -, hg⟩ | ⟨hnone, -⟩ | ⟨hstopped, -⟩
      · exact ⟨hsize, rfl, g, hg⟩
      · rw [hnone] at hbad
        cases hbad
      · rw [hstopped] at hbad
        cases hbad

/-! ## The byte that explains an access -/

/-- A byte that is covered has the code of its granule. -/
theorem byteAt_of_covers (h : s.covers start 1 = true) : s.byteAt start = .ok (s.ofGranule (start / granule)) :=
  if_pos h

theorem of_byteAt (h : s.byteAt start = .ok k) : s.covers start 1 = true ∧ s.ofGranule (start / granule) = k := by
  unfold byteAt at h
  cases hcovers : s.covers start 1 with
  | false =>
      rw [if_neg (by rw [hcovers]; decide)] at h
      exact nomatch h
  | true =>
      rw [if_pos hcovers] at h
      exact ⟨rfl, Except.ok.inj h⟩

/-- One more step of the search: the next granule has to begin within the word. -/
theorem next_eq : explaining.next s start k =
    if start + granule < Word.limit then
      .ok (start + granule, if s.covers (start + granule) 1 then s.ofGranule ((start + granule) / granule) else k)
    else .error .overrun := by
  unfold explaining.next Word.add Word.checked
  by_cases hroom : start + granule < Word.limit
  · rw [if_pos hroom, if_pos hroom]
    simp only [bind, Except.bind, byteAt]
    cases s.covers (start + granule) 1 <;> rfl
  · rw [if_neg hroom, if_neg hroom]
    rfl

/-- A step of the search that is made if there is a reason for it. -/
def goOn (s : Shadow) (reason : Prop) [Decidable reason] (place : Nat × UInt8) : Checked (Nat × UInt8) :=
  if reason then explaining.next s place.1 place.2 else .ok place

theorem roundDown_div (addr : Nat) : Word.roundDown addr granule / granule = addr / granule := by
  simp only [Word.roundDown, granule]
  omega

theorem sub_roundDown (addr : Nat) : addr - Word.roundDown addr granule = addr % granule := by
  simp only [Word.roundDown, granule]
  omega

/-- The granule behind an address is the next one. -/
theorem next_div (addr : Nat) : (Word.roundDown addr granule + granule) / granule = addr / granule + 1 := by
  simp only [Word.roundDown, granule]
  omega

/-- The search goes on twice at most: behind an accessible granule, and behind a partial one. -/
theorem explaining_eq (hcovers : s.covers (Word.roundDown addr granule) 1 = true) :
    s.explaining addr size = (do
      let reach ← Word.add (addr % granule) size
      let place ← s.goOn (isAddressable (s.ofGranule (addr / granule)) ∧ reach > granule)
        (Word.roundDown addr granule, s.ofGranule (addr / granule))
      let place ← s.goOn (isPartial place.2) place
      return some place.2) := by
  have hlast : ∀ place : Nat × UInt8,
      (if isPartial place.2 then explaining.next s place.1 place.2 >>= fun r => pure (some r.2)
        else pure place >>= fun r => pure (some r.2) : Checked (Option UInt8)) =
      (s.goOn (isPartial place.2) place >>= fun r => pure (some r.2)) := by
    intro place
    unfold goOn
    by_cases hpartial : isPartial place.2 = true
    · rw [if_pos hpartial, if_pos hpartial]
    · rw [if_neg hpartial, if_neg hpartial]
      rfl
  unfold explaining
  dsimp only
  rw [byteAt_of_covers hcovers, roundDown_div, sub_roundDown]
  dsimp only
  cases Word.add (addr % granule) size with
  | error e => rfl
  | ok reach =>
      show (if isAddressable (s.ofGranule (addr / granule)) = true ∧ reach > granule
        then _ else _) = (s.goOn _ _ >>= _)
      by_cases hgo : isAddressable (s.ofGranule (addr / granule)) = true ∧ reach > granule
      · rw [if_pos hgo, show s.goOn _ _ = explaining.next s _ _ from if_pos hgo]
        exact congrArg _ (funext fun place => hlast place)
      · rw [if_neg hgo, show s.goOn _ _ = .ok _ from if_neg hgo]
        exact hlast _

/-- Where nothing is tracked nothing explains the access. -/
theorem explaining_of_untracked (h : s.covers (Word.roundDown addr granule) 1 = false) :
    s.explaining addr size = .ok none := by
  unfold explaining byteAt
  dsimp only
  rw [if_neg (by rw [h]; decide)]
  rfl

section Steps

variable {reason : Prop} [Decidable reason]

theorem goOn_of_not (h : ¬ reason) : s.goOn reason (start, k) = .ok (start, k) :=
  if_neg h

/-- Where there is a reason the search goes on to the next granule. -/
theorem goOn_next (h : reason) (hroom : start + granule < Word.limit) : s.goOn reason (start, k) =
    .ok (start + granule, if s.covers (start + granule) 1 then s.ofGranule ((start + granule) / granule) else k) := by
  unfold goOn
  rw [if_pos h, next_eq, if_pos hroom]

/-- It is stopped if there is no next granule. -/
theorem goOn_overrun (h : reason) (hroom : ¬ start + granule < Word.limit) :
    s.goOn reason (start, k) = .error .overrun := by
  unfold goOn
  rw [if_pos h, next_eq, if_neg hroom]

/-- The last step is stopped behind a partial last granule of the address space. -/
theorem last_stopped_iff :
    (s.goOn (isPartial k) (start, k) >>= fun place => pure (some place.2)) = .error .overrun
      ↔ isPartial k = true ∧ Word.limit ≤ start + granule := by
  by_cases hpartial : isPartial k = true
  case neg =>
    rw [goOn_of_not hpartial]
    exact ⟨nofun, fun h => absurd h.1 hpartial⟩
  by_cases hroom : start + granule < Word.limit
  · rw [goOn_next hpartial hroom]
    exact ⟨nofun, fun h => absurd hroom (Nat.not_lt.mpr h.2)⟩
  · rw [goOn_overrun hpartial hroom]
    exact ⟨fun _ => ⟨hpartial, Nat.le_of_not_lt hroom⟩, fun _ => rfl⟩

end Steps

/-- The search leaves the word: the end of the access does, counted from its first granule, or a granule
    that the search goes on to. -/
inductive Strays (s : Shadow) (addr size : Nat) : Prop where
  | reach (hreach : Word.limit ≤ addr % granule + size)
  | first (hgo : s.ofGranule (addr / granule) = 0 ∧ granule < addr % granule + size
      ∨ isPartial (s.ofGranule (addr / granule)) = true)
      (hlast : Word.limit ≤ Word.roundDown addr granule + granule)
  | second (hfirst : s.ofGranule (addr / granule) = 0) (hgo : granule < addr % granule + size)
      (hcovers : s.covers (Word.roundDown addr granule + granule) 1 = true)
      (hpartial : isPartial (s.ofGranule (addr / granule + 1)) = true)
      (hlast : Word.limit ≤ Word.roundDown addr granule + granule + granule)

/-- The search for the byte that explains an access to a tracked granule is stopped where it leaves the
    word. -/
theorem explaining_stopped_iff :
    s.explaining addr size = .error .overrun
      ↔ s.covers (Word.roundDown addr granule) 1 = true ∧ s.Strays addr size := by
  cases hcovers : s.covers (Word.roundDown addr granule) 1 with
  | false =>
      rw [explaining_of_untracked hcovers]
      exact ⟨nofun, nofun⟩
  | true =>
      rw [explaining_eq hcovers]
      simp only [true_and]
      -- The steps that may stop, in the order in which the question takes them: the last byte, the
      -- granule behind, and the count of its addressable bytes.
      by_cases hreach : addr % granule + size < Word.limit
      case neg =>
        rw [show Word.add (addr % granule) size = .error .overrun from if_neg hreach]
        exact ⟨fun _ => .reach (Nat.le_of_not_lt hreach), fun _ => rfl⟩
      rw [show Word.add (addr % granule) size = .ok (addr % granule + size) from if_pos hreach]
      show (s.goOn _ _ >>= _) = _ ↔ _
      by_cases hgo : isAddressable (s.ofGranule (addr / granule)) = true ∧ addr % granule + size > granule
      · have hzero : s.ofGranule (addr / granule) = 0 := beq_iff_eq.mp hgo.1
        by_cases hroom : Word.roundDown addr granule + granule < Word.limit
        case neg =>
          rw [goOn_overrun hgo hroom]
          exact ⟨fun _ => .first (.inl ⟨hzero, hgo.2⟩) (Nat.le_of_not_lt hroom), fun _ => rfl⟩
        rw [goOn_next hgo hroom, next_div]
        refine last_stopped_iff.trans ⟨fun h => ?_, fun h => ?_⟩
        · by_cases hin : s.covers (Word.roundDown addr granule + granule) 1 = true
          · rw [if_pos hin] at h
            exact .second hzero hgo.2 hin h.1 h.2
          · rw [if_neg hin, hzero] at h
            exact nomatch h.1
        · rcases h with hover | ⟨-, hlast⟩ | ⟨-, -, hin, hpartial, hlast⟩
          · exact absurd hreach (Nat.not_lt.mpr hover)
          · exact absurd hroom (Nat.not_lt.mpr hlast)
          · rw [if_pos hin]
            exact ⟨hpartial, hlast⟩
      · rw [goOn_of_not hgo]
        refine last_stopped_iff.trans ⟨fun h => .first (.inr h.1) h.2, fun h => ?_⟩
        rcases h with hover | ⟨⟨hzero, hgo'⟩ | hpartial, hlast⟩ | ⟨hzero, hgo', -⟩
        · exact absurd hreach (Nat.not_lt.mpr hover)
        · exact absurd ⟨beq_iff_eq.mpr hzero, hgo'⟩ hgo
        · exact ⟨hpartial, hlast⟩
        · exact absurd ⟨beq_iff_eq.mpr hzero, hgo'⟩ hgo

/-- A kind of bug is not told if the search for it goes astray. -/
theorem bugKind_stopped_iff : s.bugKind addr size = .error .overrun
    ↔ s.covers (Word.roundDown addr granule) 1 = true ∧ s.Strays addr size := by
  rw [← explaining_stopped_iff]
  unfold bugKind
  cases s.explaining addr size with
  | ok k => exact ⟨nofun, nofun⟩
  | error e =>
      cases e
      exact ⟨fun _ => rfl, fun _ => rfl⟩

/-! ## Where the search stops short -/

/-- The search for the byte that explains an access stops short of it: behind two accessible granules, or
    behind a partial one at an accessible one. -/
inductive Overlooks (s : Shadow) (start : Nat) : Prop where
  | wide (hfirst : s.byteAt start = .ok 0) (hnext : s.byteAt (start + granule) = .ok 0)
  | tail {p : Nat} {k : UInt8} (hp : p = start ∨ s.byteAt start = .ok 0 ∧ p = start + granule)
      (hbyte : s.byteAt p = .ok k) (hpartial : isPartial k = true) (hnext : s.byteAt (p + granule) = .ok 0)

/-- The last step of the search finds an accessible granule behind a partial one, or where it is. -/
theorem last_eq (start : Nat) (k : UInt8) (hroom : start + granule < Word.limit) :
    ∃ k', (s.goOn (isPartial k) (start, k) >>= fun place => pure (some place.2)) = .ok (some k')
      ∧ (isAddressable k' = true ↔ k = 0 ∨ isPartial k = true ∧ s.byteAt (start + granule) = .ok 0) := by
  by_cases hpartial : isPartial k = true
  case neg =>
    rw [goOn_of_not hpartial]
    refine ⟨k, rfl, beq_iff_eq.trans ⟨.inl, fun h => h.resolve_right fun h => hpartial h.1⟩⟩
  have hne : k ≠ 0 := by
    rintro rfl
    exact nomatch hpartial
  rw [goOn_next hpartial hroom]
  refine ⟨_, rfl, beq_iff_eq.trans ?_⟩
  unfold byteAt
  cases s.covers (start + granule) 1 with
  | false => exact ⟨fun h => absurd h hne, fun h => h.resolve_right fun h => nomatch h.2⟩
  | true => exact ⟨fun h => .inr ⟨hpartial, congrArg _ h⟩, fun h => Except.ok.inj (h.resolve_left hne).2⟩

section Search

variable {start n : Nat}

/-- A first granule that is not accessible explains the access, or the one behind it does. -/
theorem explained_first (hcovers : s.covers start 1 = true) (hstart : start = Word.roundDown addr granule)
    (hreach : addr % granule + size < Word.limit) (hfirst : s.ofGranule (addr / granule) ≠ 0)
    (hroom : start + granule < Word.limit) :
    ∃ k, s.explaining addr size = .ok (some k) ∧ (isAddressable k = true ↔ s.Overlooks start) := by
  subst hstart
  have hbyte := byteAt_of_covers hcovers
  rw [roundDown_div] at hbyte
  rw [explaining_eq hcovers, show Word.add (addr % granule) size = .ok _ from if_pos hreach]
  show ∃ k, (s.goOn _ _ >>= _) = _ ∧ _
  rw [goOn_of_not fun hgo => hfirst (beq_iff_eq.mp hgo.1)]
  obtain ⟨k, hk, hiff⟩ := last_eq (s := s) _ (s.ofGranule (addr / granule)) hroom
  refine ⟨k, hk, hiff.trans ⟨?_, ?_⟩⟩
  · rintro (hzero | ⟨hpartial, hclear⟩)
    · exact absurd hzero hfirst
    · exact .tail (.inl rfl) hbyte hpartial hclear
  · rintro (⟨hclear, -⟩ | ⟨rfl | ⟨hclear, -⟩, hk, hpartial, hnext⟩)
    · exact absurd (Except.ok.inj (hbyte.symm.trans hclear)) hfirst
    · obtain rfl := Except.ok.inj (hbyte.symm.trans hk)
      exact .inr ⟨hpartial, hnext⟩
    · exact absurd (Except.ok.inj (hbyte.symm.trans hclear)) hfirst

/-- Behind an accessible first granule the next one explains the access, or the one behind that does. -/
theorem explained_behind (hcovers : s.covers start 1 = true) (hstart : start = Word.roundDown addr granule)
    (hreach : addr % granule + size < Word.limit) (hfirst : s.ofGranule (addr / granule) = 0)
    (hgo : granule < addr % granule + size) (hcovers' : s.covers (start + granule) 1 = true)
    (hroom : start + granule + granule < Word.limit) :
    ∃ k, s.explaining addr size = .ok (some k) ∧ (isAddressable k = true ↔ s.Overlooks start) := by
  subst hstart
  have hbyte := byteAt_of_covers hcovers
  have hbyte' := byteAt_of_covers hcovers'
  rw [roundDown_div, hfirst] at hbyte
  rw [next_div] at hbyte'
  rw [explaining_eq hcovers, show Word.add (addr % granule) size = .ok _ from if_pos hreach]
  show ∃ k, (s.goOn _ _ >>= _) = _ ∧ _
  rw [goOn_next ⟨beq_iff_eq.mpr hfirst, hgo⟩ (by omega), if_pos hcovers', next_div]
  obtain ⟨k, hk, hiff⟩ := last_eq (s := s) _ (s.ofGranule (addr / granule + 1)) hroom
  refine ⟨k, hk, hiff.trans ⟨?_, ?_⟩⟩
  · rintro (hzero | ⟨hpartial, hclear⟩)
    · exact .wide hbyte (hzero ▸ hbyte')
    · exact .tail (.inr ⟨hbyte, rfl⟩) hbyte' hpartial hclear
  · rintro (⟨-, hclear⟩ | ⟨rfl | ⟨-, rfl⟩, hk, hpartial, hclear⟩)
    · exact .inl (Except.ok.inj (hbyte'.symm.trans hclear))
    · obtain rfl := Except.ok.inj (hbyte.symm.trans hk)
      exact nomatch hpartial
    · obtain rfl := Except.ok.inj (hbyte'.symm.trans hk)
      exact .inr ⟨hpartial, hclear⟩

end Search

/-- A bad access is explained by a shadow byte, and it is one of a poisoned granule unless the search
    stops short. -/
theorem explains_unless_overlooked (h : Reached s) (hbad : s.accessIsPoisoned addr size = .ok true) :
    ∃ k, s.explaining addr size = .ok (some k)
      ∧ (isAddressable k = true ↔ s.Overlooks (Word.roundDown addr granule)) := by
  obtain ⟨hsize, hcovers, g, hfirst, hlast, hroom, hg⟩ := of_accessIsPoisoned h.mapped hbad
  obtain ⟨hlo, hhi⟩ := covers_iff.mp hcovers
  have hend := h.mapped.end_lt
  have htracked := h.mapped.covers_roundDown hlo (by omega)
  have hreach : addr % granule + size < Word.limit := by
    simp only [granule, Word.limit] at *
    omega
  by_cases hzero : s.ofGranule (addr / granule) = 0
  · -- The bad granule lies behind the first one, which the access therefore crosses.
    have hbehind : addr / granule + 1 ≤ g := by
      have hne : g ≠ addr / granule := by
        rintro rfl
        exact hg hzero
      omega
    refine explained_behind htracked rfl hreach hzero ?_ ?_ ?_
    · simp only [granule] at *
      omega
    · rw [covers_iff] at htracked ⊢
      simp only [Word.roundDown, granule] at *
      omega
    · simp only [Word.roundDown, granule, Word.limit] at *
      omega
  · refine explained_first htracked rfl hreach hzero ?_
    simp only [Word.roundDown, granule, Word.limit] at *
    omega

/-- An access of eight bytes from the middle of a granule: the next one has four of its bytes, and the
    redzone behind that one explains the access. -/
theorem explains_behind_partial :
    ∃ s k, Reached s ∧ s.accessIsPoisoned 4102 8 = .ok true
      ∧ s.explaining 4102 8 = .ok (some k) ∧ isAddressable k = false := by
  obtain ⟨s, hs, hcheck⟩ := Reached.of_marked
    (show (marked 4096 64 [.unpoison 4096 12, .poison 4112 48 (some .heapRightRedzone)]).any
      (fun s => decide (s.accessIsPoisoned 4102 8 = .ok true ∧ s.ofGranule 512 = 0 ∧ s.ofGranule 513 = 4
        ∧ s.ofGranule 514 = Magic.heapRightRedzone.byte ∧ s.covers 4096 24 = true)) = true by
      decide +kernel)
  obtain ⟨hbad, hfirst, hsecond, hthird, hcovers⟩ := of_decide_eq_true hcheck
  have hbyte : ∀ i < 3, s.byteAt (4096 + i * granule) = .ok (s.ofGranule (512 + i)) := by
    intro i hi
    have hnumber : (4096 + i * granule) / granule = 512 + i := by
      simp only [granule]
      omega
    rw [byteAt_of_covers, hnumber]
    rw [covers_iff] at hcovers ⊢
    simp only [granule]
    omega
  obtain ⟨k, hk, hiff⟩ := explains_unless_overlooked hs hbad
  refine ⟨s, k, hs, hbad, hk, Bool.eq_false_iff.mpr fun hclear => ?_⟩
  rcases hiff.mp hclear with ⟨-, hnext⟩ | ⟨rfl | ⟨-, rfl⟩, hp, hpartial, hnext⟩
  · have := (hbyte 1 (by decide)).symm.trans hnext
    rw [hsecond] at this
    exact nomatch Except.ok.inj this
  · obtain rfl := Except.ok.inj ((hbyte 0 (by decide)).symm.trans hp)
    rw [hfirst] at hpartial
    exact nomatch hpartial
  · have := (hbyte 2 (by decide)).symm.trans hnext
    rw [hthird] at this
    exact nomatch Except.ok.inj this

/-- The search is short for an access of three granules of which the last is poisoned, and for one to the
    bytes that a user has poisoned at the end of a granule. -/
theorem overlooks_far_and_partial :
    ∃ s, Reached s
      ∧ (s.accessIsPoisoned 4096 24 = .ok true ∧ s.explaining 4096 24 = .ok (some 0))
      ∧ s.accessIsPoisoned 4132 1 = .ok true ∧ s.explaining 4132 1 = .ok (some 0) := by
  obtain ⟨s, hs, hcheck⟩ := Reached.of_marked
    (show (marked 4096 64 [.poison 4112 8 (some .heapLeftRedzone), .poisonUser 4132 4]).any
      (fun s => decide ((s.accessIsPoisoned 4096 24 = .ok true ∧ s.explaining 4096 24 = .ok (some 0))
        ∧ s.accessIsPoisoned 4132 1 = .ok true ∧ s.explaining 4132 1 = .ok (some 0))) = true by
      decide +kernel)
  exact ⟨s, hs, of_decide_eq_true hcheck⟩

end GuardedHeap.Shadow
