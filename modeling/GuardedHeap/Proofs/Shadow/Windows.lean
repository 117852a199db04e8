import GuardedHeap.Proofs.Shadow.Questions

/-! # Windows — which shadow bytes a window shows, and where they lie

    The shadow array begins with a page, and so with a row.  The rows around
    an address are cut off at both ends of the array, which may be shorter
    than they are and need not end with a row; and the offset that leads
    from granules into the array may wrap around.  Still a place in a window
    leads back to the granule whose shadow byte is there (`Mapped.granule_at`),
    and every granule close to that of the address has a place in it
    (`Mapped.in_window`).  What is shown is put together in `window_shows`. -/

namespace GuardedHeap.Shadow

variable {s : Shadow} {addr a i : Nat}

/-- The shadow array is mapped, from the beginning of a page on. -/
structure Laid (s : Shadow) : Prop extends Mapped s where
  array_dvd : Pages.pageSize ∣ s.toShadow s.appBegin

/-- The array of a fresh shadow begins with a page. -/
theorem endsOrStops_create_dvd {p : Pages} (begin size : Nat) :
    Act.EndsOrStops (create begin size) p (fun s _ => Pages.pageSize ∣ s.toShadow s.appBegin)
      fun _ _ => True := by
  unfold create
  by_cases haligned : begin % granule ≠ 0
  · rw [if_pos haligned]
    exact trivial
  rw [if_neg haligned, Act.endsOrStops_bind]
  refine (Act.ends_orRefuse.mpr ⟨fun past _ => ?_, fun _ => trivial⟩).orStops
  rw [Act.endsOrStops_bind, Act.endsOrStops_mapError]
  unfold Pages.anonymous
  rw [Act.endsOrStops_bind, Act.endsOrStops_liftM]
  intro total _
  rw [Act.endsOrStops_bind]
  refine ((Pages.ends_map_dvd _ _).imp ?_ fun _ _ _ => trivial).orStops
  intro array q harray
  show Pages.pageSize ∣ toShadow ⟨begin, past, Word.wrapSub array (begin / granule), .const 0⟩ begin
  have hplace : toShadow ⟨begin, past, Word.wrapSub array (begin / granule), .const 0⟩ begin =
      array % Word.limit := by
    unfold toShadow Word.wrapAdd Word.wrapSub
    simp only [Word.limit]
    omega
  rw [hplace]
  exact (Nat.dvd_mod_iff (by decide)).mpr harray

/-- Every shadow that is made and marked is laid out like that. -/
theorem Reached.laid (h : Reached s) : s.Laid := by
  refine { h.mapped with array_dvd := ?_ }
  induction h with
  | create h => exact (endsOrStops_create_dvd _ _).of_ok h
  | @mark s _ m ih =>
      have hrange := m.sameRange s
      unfold toShadow at ih ⊢
      rwa [hrange.appBegin, hrange.offset]

/-! ## Places in the array -/

/-- A place in the array leads back to the number of its granule and to its first address. -/
theorem Mapped.granule_of_place (h : s.Mapped) :
    ∃ array, (∀ a, s.appBegin ≤ a → a < s.appEnd → s.toShadow a = array + (a - s.appBegin) / granule)
      ∧ ∀ k, s.appBegin + granule * k < s.appEnd →
        Word.wrapSub (array + k) s.offset = s.appBegin / granule + k
        ∧ s.ofShadow (array + k) = s.appBegin + granule * k := by
  obtain ⟨array, hoffset, hroom⟩ := h.array
  refine ⟨array, fun a hlo hhi => h.toShadow_of_offset hoffset hroom hlo hhi, fun k hk => ?_⟩
  have haligned := h.aligned
  have hend := h.end_lt
  unfold ofShadow
  rw [hoffset]
  unfold Word.wrapSub
  simp only [granule, Word.limit, Word.signLimit] at *
  omega

/-- The granule whose shadow byte is at a place of a window. -/
theorem Mapped.granule_at (h : s.Mapped) (htracked : s.isTracked addr = true)
    (hi : s.windowBegin addr + i < s.windowPast addr) :
    granule ∣ s.ofShadow (s.windowBegin addr) + granule * i
      ∧ s.isTracked (s.ofShadow (s.windowBegin addr) + granule * i) = true
      ∧ s.toShadow (s.ofShadow (s.windowBegin addr) + granule * i) = s.windowBegin addr + i
      ∧ Word.wrapSub (s.windowBegin addr) s.offset + i =
        (s.ofShadow (s.windowBegin addr) + granule * i) / granule := by
  obtain ⟨hlo, hhi⟩ := isTracked_iff.mp htracked
  obtain ⟨array, hplace, hback⟩ := h.granule_of_place
  have haligned := h.aligned
  have harray : array ≤ s.windowBegin addr := by
    have hfirst := hplace s.appBegin (Nat.le_refl _) (by omega)
    rw [Nat.sub_self, Nat.zero_div, Nat.add_zero] at hfirst
    exact hfirst ▸ Nat.le_max_right _ _
  have hlast : s.windowPast addr ≤ array + (s.appEnd - 1 - s.appBegin) / granule + 1 := by
    rw [← hplace (s.appEnd - 1) (by omega) (by omega)]
    exact Nat.min_le_right _ _
  obtain ⟨k, hk⟩ := Nat.exists_eq_add_of_le harray
  rw [hk] at hi ⊢
  have hroom : s.appBegin + granule * (k + i) < s.appEnd := by
    simp only [granule] at *
    omega
  obtain ⟨hnumber, hfirst⟩ := hback k (by simp only [granule] at *; omega)
  rw [hnumber, hfirst, isTracked_iff, hplace _ (by omega) (by simp only [granule] at *; omega)]
  simp only [granule] at *
  omega

/-- A granule at most 32 granules away has its place in the window. -/
theorem Mapped.in_window (h : s.Mapped) (htracked : s.isTracked addr = true) (ha : s.isTracked a = true)
    (hbefore : addr / granule ≤ a / granule + 32) (hbehind : a / granule ≤ addr / granule + 32) :
    s.windowBegin addr ≤ s.toShadow a ∧ s.toShadow a < s.windowPast addr := by
  obtain ⟨hlo, hhi⟩ := isTracked_iff.mp htracked
  obtain ⟨hlo', hhi'⟩ := isTracked_iff.mp ha
  obtain ⟨array, hplace, -⟩ := h.granule_of_place
  have haligned := h.aligned
  unfold windowBegin windowPast firstRow
  rw [hplace addr hlo hhi, hplace a hlo' hhi', hplace s.appBegin (Nat.le_refl _) (by omega),
    hplace (s.appEnd - 1) (by omega) (by omega), Nat.sub_self, Nat.zero_div, Nat.add_zero]
  have hnear : (addr - s.appBegin) / granule ≤ (a - s.appBegin) / granule + 32
      ∧ (a - s.appBegin) / granule ≤ (addr - s.appBegin) / granule + 32 := by
    simp only [granule] at *
    omega
  have hlast : (a - s.appBegin) / granule ≤ (s.appEnd - 1 - s.appBegin) / granule :=
    Nat.div_le_div_right (by omega)
  generalize (addr - s.appBegin) / granule = focus at *
  generalize (a - s.appBegin) / granule = place at *
  generalize (s.appEnd - 1 - s.appBegin) / granule = last at *
  simp only [Word.roundDown, Window.rows, Window.rowBytes] at *
  omega

/-! ## What is shown -/

/-- The window shows the shadow around an address, and tells what it shows. -/
structure Window.Shows (w : Window) (s : Shadow) (addr : Nat) : Prop where
  length_le : w.bytes.length ≤ Window.rows * Window.rowBytes
  /-- Rows begin at multiples of their length. -/
  row : ∀ n, Window.rowBytes ∣ w.shadowBegin + n * Window.rowBytes
  /-- It lies in the shadow of the tracked range. -/
  begin_le : s.toShadow s.appBegin ≤ w.shadowBegin
  past_le : w.shadowBegin + w.bytes.length ≤ s.toShadow (s.appEnd - 1) + 1
  /-- Each of its two addresses leads to the other one. -/
  appBegin_eq : w.appBegin = s.ofShadow w.shadowBegin
  shadowBegin_eq : w.shadowBegin = s.toShadow w.appBegin
  /-- Its bytes are those of one tracked granule after the other. -/
  bytes : ∀ i < w.bytes.length, granule ∣ w.appBegin + granule * i
    ∧ s.isTracked (w.appBegin + granule * i) = true
    ∧ s.toShadow (w.appBegin + granule * i) = w.shadowBegin + i
    ∧ w.bytes[i]? = some (s.code (w.appBegin + granule * i))
  /-- The focus is the byte of the address. -/
  focus : w.focus < w.bytes.length ∧ w.appBegin + granule * w.focus = Word.roundDown addr granule
    ∧ w.bytes[w.focus]? = some (s.code addr)
  /-- The granules close to that of the address are among those shown. -/
  near : ∀ a, s.isTracked a = true → addr / granule ≤ a / granule + 32 → a / granule ≤ addr / granule + 32 →
    ∃ i < w.bytes.length, w.appBegin + granule * i = Word.roundDown a granule
      ∧ w.bytes[i]? = some (s.code a)

/-- A row begins where the window does. -/
theorem Laid.row_dvd (h : s.Laid) (addr : Nat) : Window.rowBytes ∣ s.windowBegin addr := by
  have harray : Window.rowBytes ∣ s.toShadow s.appBegin := Nat.dvd_trans (by decide) h.array_dvd
  have hround : Window.rowBytes ∣ Word.roundDown (s.toShadow addr) Window.rowBytes :=
    Nat.dvd_mul_left _ _
  have hfirst : Window.rowBytes ∣ s.firstRow addr := Nat.dvd_sub hround (Nat.dvd_mul_left _ _)
  unfold windowBegin
  rcases Nat.le_total (s.firstRow addr) (s.toShadow s.appBegin) with hle | hle
  · rwa [Nat.max_eq_right hle]
  · rwa [Nat.max_eq_left hle]

/-- The shadow byte of a tracked address near the focus stands in the window at the place of its granule. -/
theorem Mapped.shown (h : s.Mapped) (htracked : s.isTracked addr = true) (ha : s.isTracked a = true)
    (hbegin : s.windowBegin addr ≤ s.toShadow a) (hpast : s.toShadow a < s.windowPast addr) :
    s.ofShadow (s.windowBegin addr) + granule * (s.toShadow a - s.windowBegin addr) =
        Word.roundDown a granule
      ∧ Word.wrapSub (s.windowBegin addr) s.offset + (s.toShadow a - s.windowBegin addr) = a / granule := by
  obtain ⟨hlo, hhi⟩ := isTracked_iff.mp ha
  obtain ⟨hdvd, htracked', hplace, hnumber⟩ :=
    h.granule_at (i := s.toShadow a - s.windowBegin addr) htracked (by omega)
  obtain ⟨hlo', hhi'⟩ := isTracked_iff.mp htracked'
  obtain ⟨array, -, hshadow⟩ := h.toShadow_eq
  have haligned := h.aligned
  rw [hnumber]
  generalize s.ofShadow (s.windowBegin addr) + granule * (s.toShadow a - s.windowBegin addr) = first at *
  -- Both lie in the granule that has this place in the array.
  have hsame : (first - s.appBegin) / granule = (a - s.appBegin) / granule := by
    have := hshadow a hlo hhi
    have := hshadow first hlo' hhi'
    omega
  simp only [Word.roundDown, granule] at *
  omega

/-- Which window an address has: none if it is not tracked, and else one that shows the shadow around it.
    That the shadow array begins with a page is what fresh mappings give. -/
theorem window_shows :
    (∀ {s : Shadow}, Reached s → s.Laid)
    ∧ ∀ {s : Shadow}, s.Laid → ∀ addr,
      (s.isTracked addr = false → s.window addr = .ok none)
      ∧ (s.isTracked addr = true → ∃ w, s.window addr = .ok (some w) ∧ w.Shows s addr) := by
  refine ⟨Reached.laid, fun {s} h addr => ⟨window_of_untracked, fun htracked => ?_⟩⟩
  obtain ⟨hbegin, hpast, -, -⟩ := h.window_bounds htracked
  have hbyte : ∀ a, s.isTracked a = true → s.windowBegin addr ≤ s.toShadow a →
      s.toShadow a < s.windowPast addr →
      (s.bytes.slice (Word.wrapSub (s.windowBegin addr) s.offset)
        (s.windowPast addr - s.windowBegin addr))[s.toShadow a - s.windowBegin addr]? = some (s.code a) := by
    intro a ha hlo hhi
    obtain ⟨-, hnumber⟩ := h.shown htracked ha hlo hhi
    rw [RangeMap.slice, List.getElem?_map, List.getElem?_range (by omega), Option.map_some, hnumber]
    rfl
  -- The first granule of the window, which every row counts from.
  have hfirst := h.granule_at (i := 0) htracked (by omega)
  refine ⟨_, h.window_eq htracked, ?_⟩
  constructor
  case length_le =>
    rw [RangeMap.slice, List.length_map, List.length_range]
    show min _ _ - max _ _ ≤ _
    omega
  case row => exact fun n => Nat.dvd_add (h.row_dvd addr) (Nat.dvd_mul_left _ _)
  case begin_le => exact Nat.le_max_right _ _
  case past_le =>
    rw [RangeMap.slice, List.length_map, List.length_range]
    have : s.windowPast addr ≤ s.toShadow (s.appEnd - 1) + 1 := Nat.min_le_right _ _
    show s.windowBegin addr + _ ≤ _
    omega
  case appBegin_eq => rfl
  case shadowBegin_eq =>
    obtain ⟨-, -, hplace, -⟩ := hfirst
    exact hplace.symm
  case bytes =>
    intro i hi
    rw [RangeMap.slice, List.length_map, List.length_range] at hi
    obtain ⟨hdvd, htracked', hplace, -⟩ := h.granule_at (i := i) htracked (by omega)
    refine ⟨hdvd, htracked', hplace, ?_⟩
    have := hbyte _ htracked' (by omega) (by omega)
    rwa [hplace, Nat.add_sub_cancel_left] at this
  case focus =>
    rw [RangeMap.slice, List.length_map, List.length_range]
    exact ⟨by show s.toShadow addr - s.windowBegin addr < _; omega, (h.shown htracked htracked hbegin hpast).1,
      hbyte addr htracked hbegin hpast⟩
  case near =>
    intro a ha hbefore hbehind
    obtain ⟨hlo, hhi⟩ := h.in_window htracked ha hbefore hbehind
    rw [RangeMap.slice, List.length_map, List.length_range]
    exact ⟨s.toShadow a - s.windowBegin addr, by omega, (h.shown htracked ha hlo hhi).1, hbyte a ha hlo hhi⟩

/-- A range shorter than a window, which ends within a granule: the window around its last address shows
    all of its 14 granules, and there is none around the address behind it. -/
theorem window_shows_short_range :
    ∃ s w, Reached s ∧ s.appBegin = 4096 ∧ s.appEnd = 4203 ∧ s.window 4203 = .ok none
      ∧ s.window 4202 = .ok (some w) ∧ w.Shows s 4202
      ∧ w.bytes = [0xfa, 0xfa, 0, 0, 0, 0, 0, 0, 0, 0, 0, 0, 0, 0] := by
  obtain ⟨s, hs, hcheck⟩ := Reached.of_marked
    (show (marked 4096 107 [.poison 4096 16 (some .heapLeftRedzone)]).any
      (fun s => decide (s.isTracked 4202 = true ∧ s.isTracked 4203 = false ∧ s.appBegin = 4096
        ∧ s.appEnd = 4203 ∧ (s.window 4202).map (·.map (·.bytes)) =
          .ok (some [0xfa, 0xfa, 0, 0, 0, 0, 0, 0, 0, 0, 0, 0, 0, 0]))) = true by
      decide +kernel)
  obtain ⟨hin, hout, hbegin, hend, hbytes⟩ := of_decide_eq_true hcheck
  obtain ⟨w, hw, hshows⟩ := (window_shows.2 (window_shows.1 hs) 4202).2 hin
  rw [hw] at hbytes
  exact ⟨s, w, hs, hbegin, hend, (window_shows.2 (window_shows.1 hs) 4203).1 hout, hw, hshows,
    Option.some.inj (Except.ok.inj hbytes)⟩

end GuardedHeap.Shadow
