import GuardedHeap.RangeMap
import Mathlib.Data.List.Range

/-! # Range maps — lists, copies and searches seen index by index

    `get_fill` is the law of one range.  Here the other operations are
    brought to the same view: a list that is written gives its elements
    (`get_setList`), a copy gives the values of its source (`get_copy`),
    and the two searches find what they say (`find?_eq_some`,
    `mem_indices`).  Copies and searches go by runs, so the middle of the
    file spreads the runs of a range out and finds the values of the range
    again (`spread_runs`). -/

namespace GuardedHeap.RangeMap

variable {α : Type}

/-- Filling nothing changes nothing. -/
theorem fill_self (m : RangeMap α) (i : Nat) (v : α) : m.fill i i v = m := by
  rw [fill, show width = 63 + 1 from rfl, fillIn, if_pos (.inl (Nat.le_refl i))]

/-! ## Lists -/

/-- Writing a list gives its elements, one after the other. -/
theorem get_setList (m : RangeMap α) (i : Nat) (l : List α) {j : Nat} (hj : j < span) :
    (m.setList i l).get j = if i ≤ j then (l[j - i]?).getD (m.get j) else m.get j := by
  induction l generalizing m i with
  | nil => simp [setList]
  | cons v rest ih =>
      rw [setList, ih (m.set i v) (i + 1), get_set m i v j hj]
      by_cases hlt : i + 1 ≤ j
      · have hne : j ≠ i := by omega
        rw [if_pos hlt, if_neg hne, if_pos (by omega : i ≤ j),
          show j - i = j - (i + 1) + 1 by omega, List.getElem?_cons_succ]
      · by_cases heq : j = i
        · subst heq
          simp
        · rw [if_neg hlt, if_neg heq, if_neg (by omega)]

/-! ## Runs -/

/-- The values of runs, one after the other. -/
def spread : List (Nat × α) → List α
  | [] => []
  | (n, v) :: rest => List.replicate n v ++ spread rest

theorem spread_append (l r : List (Nat × α)) : spread (l ++ r) = spread l ++ spread r := by
  induction l with
  | nil => rfl
  | cons run rest ih =>
      obtain ⟨n, v⟩ := run
      rw [List.cons_append, spread, spread, ih, List.append_assoc]

/-- Writing runs is writing the list of their values. -/
theorem get_setRuns (m : RangeMap α) (i : Nat) (runs : List (Nat × α)) {j : Nat}
    (hj : j < span) :
    (m.setRuns i runs).get j =
      if i ≤ j then ((spread runs)[j - i]?).getD (m.get j) else m.get j := by
  induction runs generalizing m i with
  | nil => simp [setRuns, spread]
  | cons run rest ih =>
      obtain ⟨n, v⟩ := run
      rw [setRuns, ih (m.fill i (i + n) v) (i + n), get_fill m i (i + n) v j hj, spread]
      by_cases hlt : i + n ≤ j
      · have hout : ¬ (i ≤ j ∧ j < i + n) := by omega
        rw [if_pos hlt, if_neg hout, if_pos (by omega : i ≤ j),
          List.getElem?_append_right (by rw [List.length_replicate]; omega),
          List.length_replicate, show j - i - n = j - (i + n) by omega]
      · rw [if_neg hlt]
        by_cases hle : i ≤ j
        · rw [if_pos ⟨hle, by omega⟩, if_pos hle,
            List.getElem?_append_left (by rw [List.length_replicate]; omega),
            List.getElem?_replicate, if_pos (by omega)]
          rfl
        · rw [if_neg (fun h => hle h.1), if_neg hle]

/-- The runs of a range spread out to the values of the range. -/
theorem spread_runsIn (d n : Nat) (m : RangeMap α) (lo hi : Nat) (hn : n = Nat.pow 2 d) :
    spread (m.runsIn d n lo hi) = (List.range' lo (min hi n - lo)).map (m.getIn d n) := by
  -- On the depth; a node in the middle looks at both halves, the right one moved down by half.
  induction d generalizing n m lo hi with
  | zero =>
      have hone : n = 1 := hn
      cases m with
      | const v =>
          simp only [runsIn]
          by_cases h : lo < min hi n
          · rw [if_pos h]
            refine List.ext_getElem (by simp [spread]) ?_
            intro i _ _
            simp [spread, getIn]
          · rw [if_neg h, show min hi n - lo = 0 by omega]
            rfl
      | split l r =>
          simp only [runsIn]
          by_cases h : lo = 0 ∧ 0 < hi
          · rw [if_pos h, show min hi n - lo = 1 by omega]
            simp [spread, getIn]
          · rw [if_neg h, show min hi n - lo = 0 by omega]
            rfl
  | succ d ih =>
      cases m with
      | const v =>
          simp only [runsIn]
          by_cases h : lo < min hi n
          · rw [if_pos h]
            refine List.ext_getElem (by simp [spread]) ?_
            intro i _ _
            simp [spread, getIn]
          · rw [if_neg h, show min hi n - lo = 0 by omega]
            rfl
      | split l r =>
          have hpow : n = Nat.pow 2 d * 2 := hn
          have hhalf : n / 2 = Nat.pow 2 d := by omega
          simp only [runsIn]
          by_cases h : hi ≤ lo ∨ n ≤ lo
          · rw [if_pos h, show min hi n - lo = 0 by omega]
            rfl
          · rw [if_neg h, spread_append, ih (n / 2) l lo hi hhalf,
              ih (n / 2) r (lo - n / 2) (hi - n / 2) hhalf]
            refine List.ext_getElem (by simp; omega) ?_
            intro i h1 h2
            simp only [List.length_append, List.length_map, List.length_range'] at h1 h2
            simp only [List.getElem_append, List.getElem_map, List.getElem_range',
              List.length_map, List.length_range', getIn, Nat.one_mul]
            by_cases hlow : i < min hi (n / 2) - lo
            · rw [dif_pos hlow, if_pos (by omega)]
            · rw [dif_neg hlow, if_neg (by omega)]
              congr 1
              omega

theorem spread_runs (m : RangeMap α) {lo hi : Nat} (h : hi ≤ span) :
    spread (m.runs lo hi) = (List.range' lo (hi - lo)).map m.get := by
  have := spread_runsIn width span m lo hi (by decide)
  rw [Nat.min_eq_left h] at this
  exact this

/-- Copying gives the values of the source. -/
theorem get_copy (m : RangeMap α) {source n : Nat} (target : Nat) (hs : source + n ≤ span)
    {j : Nat} (hj : j < span) :
    (m.copy source target n).get j =
      if target ≤ j ∧ j < target + n then m.get (source + (j - target)) else m.get j := by
  rw [copy, get_setRuns m target _ hj, spread_runs m hs, Nat.add_sub_cancel_left]
  by_cases hle : target ≤ j
  · rw [if_pos hle]
    by_cases hlt : j < target + n
    · rw [if_pos ⟨hle, hlt⟩, List.getElem?_eq_getElem (by simp; omega)]
      simp
    · rw [if_neg (fun h => hlt h.2), List.getElem?_eq_none (by simp; omega)]
      rfl
  · rw [if_neg hle, if_neg (fun h => hle h.1)]

/-! ## Searches -/

/-- The search in a span finds the first index whose value satisfies the predicate. -/
theorem findIn?_eq_some (p : α → Bool) (d n : Nat) (m : RangeMap α) (lo hi : Nat)
    (hn : n = Nat.pow 2 d) {i : Nat} (h : m.findIn? p d n lo hi = some i) :
    lo ≤ i ∧ i < hi ∧ i < n ∧ p (m.getIn d n i) = true := by
  -- On the depth, as the search goes down.
  induction d generalizing n m lo hi i with
  | zero =>
      have hone : n = 1 := hn
      cases m with
      | const v =>
          simp only [findIn?] at h
          split at h
          · rename_i hc
            cases h
            exact ⟨Nat.le_refl _, hc.1, hc.2.1, by simpa [getIn] using hc.2.2⟩
          · cases h
      | split l r =>
          simp only [findIn?] at h
          split at h
          · rename_i hc
            cases h
            exact ⟨by omega, hc.2.1, by omega, by simpa [getIn] using hc.2.2⟩
          · cases h
  | succ d ih =>
      cases m with
      | const v =>
          simp only [findIn?] at h
          split at h
          · rename_i hc
            cases h
            exact ⟨Nat.le_refl _, hc.1, hc.2.1, by simpa [getIn] using hc.2.2⟩
          · cases h
      | split l r =>
          have hpow : n = Nat.pow 2 d * 2 := hn
          have hhalf : n / 2 = Nat.pow 2 d := by omega
          simp only [findIn?] at h
          split at h
          · cases h
          · rw [getIn]
            cases hl : l.findIn? p d (n / 2) lo hi with
            | some k =>
                rw [hl] at h
                cases h
                obtain ⟨h1, h2, h3, h4⟩ := ih (n / 2) l lo hi hhalf hl
                rw [if_pos h3]
                exact ⟨h1, h2, by omega, h4⟩
            | none =>
                rw [hl] at h
                obtain ⟨k, hk, rfl⟩ := Option.map_eq_some_iff.mp h
                obtain ⟨h1, h2, h3, h4⟩ := ih (n / 2) r _ _ hhalf hk
                rw [if_neg (by omega), Nat.add_sub_cancel]
                exact ⟨by omega, by omega, by omega, h4⟩

theorem find?_eq_some {p : α → Bool} {m : RangeMap α} {lo hi i : Nat}
    (h : m.find? lo hi p = some i) : lo ≤ i ∧ i < hi ∧ i < span ∧ p (m.get i) = true :=
  findIn?_eq_some p width span m lo hi (by decide) h

/-- A search in a span that finds nothing has seen all values. -/
theorem findIn?_eq_none (p : α → Bool) (d n : Nat) (m : RangeMap α) (lo hi : Nat)
    (hn : n = Nat.pow 2 d) (h : m.findIn? p d n lo hi = none) {i : Nat} (hlo : lo ≤ i) (hhi : i < hi)
    (hi' : i < n) : p (m.getIn d n i) = false := by
  -- On the depth: what is left of the middle is searched first, and an answer from there ends the
  -- search.
  induction d generalizing n m lo hi i with
  | zero =>
      obtain rfl : i = 0 := by
        have hone : n = 1 := hn
        omega
      obtain rfl : lo = 0 := Nat.le_zero.mp hlo
      cases m with
      | const v =>
          have hno := (ite_eq_right_iff.mp h)
          exact Bool.eq_false_iff.mpr fun hv => nomatch hno ⟨hhi, hi', hv⟩
      | split l r =>
          have hno := (ite_eq_right_iff.mp h)
          exact Bool.eq_false_iff.mpr fun hv => nomatch hno ⟨rfl, hhi, hv⟩
  | succ d ih =>
      cases m with
      | const v =>
          have hno := (ite_eq_right_iff.mp h)
          exact Bool.eq_false_iff.mpr fun hv =>
            nomatch hno ⟨Nat.lt_of_le_of_lt hlo hhi, Nat.lt_of_le_of_lt hlo hi', hv⟩
      | split l r =>
          have hpow : n = Nat.pow 2 d * 2 := hn
          have hhalf : n / 2 = Nat.pow 2 d := by omega
          simp only [findIn?] at h
          rw [if_neg (by omega)] at h
          cases hl : l.findIn? p d (n / 2) lo hi with
          | some k =>
              rw [hl] at h
              exact nomatch h
          | none =>
              rw [hl] at h
              rw [getIn]
              by_cases hleft : i < n / 2
              · rw [if_pos hleft]
                exact ih (n / 2) l lo hi hhalf hl hlo hhi hleft
              · rw [if_neg hleft]
                exact ih (n / 2) r _ _ hhalf (Option.map_eq_none_iff.mp h) (by omega) (by omega) (by omega)

theorem find?_eq_none {p : α → Bool} {m : RangeMap α} {lo hi i : Nat}
    (h : m.find? lo hi p = none) (hlo : lo ≤ i) (hhi : i < hi) (hi' : i < span) :
    p (m.get i) = false :=
  findIn?_eq_none p width span m lo hi (by decide) h hlo hhi hi'

/-- What a search in a span has passed over does not satisfy the predicate. -/
theorem findIn?_below (p : α → Bool) (d n : Nat) (m : RangeMap α) (lo hi : Nat)
    (hn : n = Nat.pow 2 d) {i : Nat} (h : m.findIn? p d n lo hi = some i) {j : Nat} (hlo : lo ≤ j)
    (hj : j < i) : p (m.getIn d n j) = false := by
  induction d generalizing n m lo hi i j with
  | zero =>
      -- The only index of the span is the one that was found.
      have hone : n = 1 := hn
      have hin := (findIn?_eq_some p 0 n m lo hi hn h).2.2.1
      omega
  | succ d ih =>
      cases m with
      | const v =>
          simp only [findIn?] at h
          split at h
          · cases h
            exact absurd hlo (Nat.not_le.mpr hj)
          · cases h
      | split l r =>
          have hpow : n = Nat.pow 2 d * 2 := hn
          have hhalf : n / 2 = Nat.pow 2 d := by omega
          obtain ⟨-, hhi, hin, -⟩ := findIn?_eq_some p (d + 1) n (split l r) lo hi hn h
          simp only [findIn?] at h
          split at h
          · cases h
          · rw [getIn]
            cases hl : l.findIn? p d (n / 2) lo hi with
            | some k =>
                rw [hl] at h
                cases h
                have hk := (findIn?_eq_some p d (n / 2) l lo hi hhalf hl).2.2.1
                rw [if_pos (Nat.lt_trans hj hk)]
                exact ih (n / 2) l lo hi hhalf hl hlo hj
            | none =>
                rw [hl] at h
                obtain ⟨k, hk, rfl⟩ := Option.map_eq_some_iff.mp h
                by_cases hleft : j < n / 2
                · rw [if_pos hleft]
                  exact findIn?_eq_none p d (n / 2) l lo hi hhalf hl hlo (Nat.lt_trans hj hhi) hleft
                · rw [if_neg hleft]
                  exact ih (n / 2) r _ _ hhalf hk (by omega) (by omega)

theorem find?_below {p : α → Bool} {m : RangeMap α} {lo hi i j : Nat}
    (h : m.find? lo hi p = some i) (hlo : lo ≤ j) (hj : j < i) : p (m.get j) = false :=
  findIn?_below p width span m lo hi (by decide) h hlo hj

/-- A search looks at the first index and goes on from the next one. -/
theorem find?_step {p : α → Bool} {m : RangeMap α} {lo hi : Nat} (hlt : lo < hi) (hspan : hi ≤ span) :
    m.find? lo hi p = if p (m.get lo) then some lo else m.find? (lo + 1) hi p := by
  split
  · rename_i hp
    cases hfind : m.find? lo hi p with
    | none => exact absurd hp (by rw [find?_eq_none hfind (Nat.le_refl lo) hlt (by omega)]; decide)
    | some i =>
        obtain ⟨hle, -⟩ := find?_eq_some hfind
        rcases Nat.eq_or_lt_of_le hle with rfl | hgt
        · rfl
        · exact absurd hp (by rw [find?_below hfind (Nat.le_refl lo) hgt]; decide)
  · rename_i hp
    cases hrest : m.find? (lo + 1) hi p with
    | none =>
        cases hfind : m.find? lo hi p with
        | none => rfl
        | some i =>
            obtain ⟨hle, hhi, hi', hpi⟩ := find?_eq_some hfind
            rcases Nat.eq_or_lt_of_le hle with rfl | hgt
            · exact absurd hpi hp
            · exact absurd hpi (by rw [find?_eq_none hrest hgt hhi hi']; decide)
    | some j =>
        obtain ⟨hle, hhi, hj, hpj⟩ := find?_eq_some hrest
        cases hfind : m.find? lo hi p with
        | none => exact absurd hpj (by rw [find?_eq_none hfind (by omega) hhi hj]; decide)
        | some i =>
            obtain ⟨hle', hhi', hi', hpi⟩ := find?_eq_some hfind
            have hne : i ≠ lo := fun heq => hp (heq ▸ hpi)
            -- Neither of the two can have passed over the other one.
            have hij : ¬ j < i := fun hlt => absurd hpj (by rw [find?_below hfind (by omega) hlt]; decide)
            have hji : ¬ i < j := fun hlt => absurd hpi (by rw [find?_below hrest (by omega) hlt]; decide)
            rw [show i = j by omega]

theorem mem_indicesOfRuns {p : α → Bool} {i j : Nat} {runs : List (Nat × α)} :
    j ∈ indicesOfRuns p i runs ↔ i ≤ j ∧ ∃ v, (spread runs)[j - i]? = some v ∧ p v = true := by
  induction runs generalizing i with
  | nil => simp [indicesOfRuns, spread]
  | cons run rest ih =>
      obtain ⟨n, w⟩ := run
      have hrest : j ∈ indicesOfRuns p (i + n) rest ↔
          i + n ≤ j ∧ ∃ v, (spread ((n, w) :: rest))[j - i]? = some v ∧ p v = true := by
        rw [ih]
        refine and_congr_right fun hle => ?_
        rw [spread, List.getElem?_append_right (by rw [List.length_replicate]; omega),
          List.length_replicate, show j - i - n = j - (i + n) by omega]
      have hfirst : i ≤ j → j < i + n → (spread ((n, w) :: rest))[j - i]? = some w := by
        intro hle hlt
        rw [spread, List.getElem?_append_left (by rw [List.length_replicate]; omega),
          List.getElem?_replicate, if_pos (by omega)]
      rw [indicesOfRuns]
      by_cases hw : p w = true
      · rw [if_pos hw, List.mem_append, hrest, List.mem_map]
        constructor
        · rintro (⟨k, hk, rfl⟩ | ⟨hle, h⟩)
          · have hlt := List.mem_range.mp hk
            exact ⟨by omega, w, hfirst (by omega) (by omega), hw⟩
          · exact ⟨by omega, h⟩
        · rintro ⟨hle, h⟩
          by_cases hlt : j < i + n
          · exact .inl ⟨j - i, List.mem_range.mpr (by omega), by omega⟩
          · exact .inr ⟨by omega, h⟩
      · rw [if_neg hw, hrest]
        constructor
        · rintro ⟨hle, h⟩
          exact ⟨by omega, h⟩
        · rintro ⟨hle, v, hv, hpv⟩
          refine ⟨?_, v, hv, hpv⟩
          by_contra hlt
          rw [hfirst hle (by omega)] at hv
          cases hv
          exact hw hpv

/-- The indices of a range are those whose value satisfies the predicate. -/
theorem mem_indices {p : α → Bool} {m : RangeMap α} {lo hi j : Nat} (h : hi ≤ span) :
    j ∈ m.indices lo hi p ↔ lo ≤ j ∧ j < hi ∧ p (m.get j) = true := by
  rw [indices, mem_indicesOfRuns, spread_runs m h]
  refine and_congr_right fun hle => ?_
  constructor
  · rintro ⟨v, hv, hpv⟩
    obtain ⟨hlt, rfl⟩ := List.getElem?_eq_some_iff.mp hv
    simp only [List.length_map, List.length_range'] at hlt
    refine ⟨by omega, ?_⟩
    simpa [show lo + (j - lo) = j by omega] using hpv
  · rintro ⟨hlt, hpv⟩
    refine ⟨m.get j, ?_, hpv⟩
    rw [List.getElem?_eq_getElem (by simp; omega)]
    simp [show lo + (j - lo) = j by omega]

/-- The indices of runs increase. -/
theorem indicesOfRuns_pairwise (p : α → Bool) (i : Nat) (runs : List (Nat × α)) :
    (indicesOfRuns p i runs).Pairwise (· < ·) := by
  induction runs generalizing i with
  | nil => exact .nil
  | cons run rest ih =>
      obtain ⟨n, v⟩ := run
      rw [indicesOfRuns]
      by_cases hv : p v = true
      · rw [if_pos hv]
        refine List.pairwise_append.mpr ⟨?_, ih (i + n), fun a ha b hb => ?_⟩
        · exact List.pairwise_map.mpr (List.pairwise_lt_range.imp fun hlt => Nat.add_lt_add_left hlt i)
        · obtain ⟨k, hk, rfl⟩ := List.mem_map.mp ha
          have hlt := List.mem_range.mp hk
          have hle := (mem_indicesOfRuns.mp hb).1
          omega
      · rw [if_neg hv]
        exact ih (i + n)

/-- No index of a range is found twice. -/
theorem nodup_indices (p : α → Bool) (m : RangeMap α) (lo hi : Nat) : (m.indices lo hi p).Nodup :=
  (indicesOfRuns_pairwise p lo _).imp Nat.ne_of_lt

end GuardedHeap.RangeMap
