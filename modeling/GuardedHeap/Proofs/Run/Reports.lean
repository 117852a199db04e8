import GuardedHeap.Proofs.Report
import GuardedHeap.Proofs.Run.Origins

/-! # Reports in runs — what an access to a chunk is said to be

    Unless users mark the shadow by hand, every chunk of a run is guarded
    and lies apart from the fake stacks, also where calls of the operating
    system failed.  So an access to a freed chunk, or one that misses a
    user's bytes, is reported as what it is, with the chunk and the calls
    that it comes from (`Run.accesses_classified`).

    Every address is described and has its window, whatever was marked and
    whatever failed; only an access whose end leaves the word is not
    reported (`Run.diagnosis_stops_iff`). -/

namespace GuardedHeap

namespace Sanitizer

variable {failing marked : Prop} {s : Sanitizer} {b : Block} {addr : Nat}

/-- A chunk lies apart from all fake stacks. -/
theorem notMem_range (hfit : s.Fit failing s.threads)
    (hsound : Scene.Sound failing marked (s.scene s.threads 0)) (hb : b ∈ s.heap.chunks)
    (haddr : addr ∈ b.extent) : ∀ f ∈ s.fakeStacks.map (·.stack), addr ∉ f.range := by
  intro f hf hin
  obtain ⟨o, ho, rfl⟩ := List.mem_map.mp hf
  obtain ⟨hblock, -, hrecycled, -⟩ := hsound.backing_block _ (mem_backing ho)
  rw [← FakeStack.extent_block (hfit.stack o ho)] at hin
  obtain rfl := hsound.tiled.eq_of_mem hb.1 hblock haddr hin
  exact hb.2 hrecycled

/-- A report takes a trace and is made from the heap and the fake stacks. -/
theorem classify_eq {ε : Type} {tid size : Nat} {isWrite : Bool} {r : Report}
    (h : Report.classify s.heap (s.fakeStacks.map (·.stack)) { addr, size, isWrite } tid
      (s.capture s.config.mallocContextSize s.captures) = .ok r) :
    (classify tid addr isWrite size : Act ε Sanitizer Report) s =
      .ok r { s with captures := s.captures + 1 } := by
  refine Act.bind_eq_ok.mpr ⟨_, _, rfl, Act.bind_eq_ok.mpr ⟨_, _, rfl, ?_⟩⟩
  exact Act.liftM_eq_ok.mpr ⟨h, rfl⟩

/-- A report that cannot be made stops the call. -/
theorem classify_stopped {ε : Type} {tid size : Nat} {isWrite : Bool}
    (h : Report.classify s.heap (s.fakeStacks.map (·.stack)) { addr, size, isWrite } tid
      (s.capture s.config.mallocContextSize s.captures) = .error .overrun) :
    (classify tid addr isWrite size : Act ε Sanitizer Report) s =
      .error .stopped { s with captures := s.captures + 1 } := by
  refine Act.bind_eq_error.mpr (.inr ⟨_, _, rfl, Act.bind_eq_error.mpr (.inr ⟨_, _, rfl, ?_⟩)⟩)
  exact congrArg (fun c => (liftM c : Act ε Sanitizer Report) { s with captures := s.captures + 1 }) h

end Sanitizer

/-- Far from the end of the address space only the end of the access can leave the word. -/
theorem Shadow.Placed.strays_iff {shadow : Shadow} (h : shadow.Placed) {size : Nat}
    (hcovers : shadow.covers (Word.roundDown addr Shadow.granule) 1 = true) :
    shadow.Strays addr size ↔ Word.limit ≤ addr % Shadow.granule + size := by
  have hend := h.end_lt
  obtain ⟨-, hhi⟩ := Shadow.covers_iff.mp hcovers
  refine ⟨?_, .reach⟩
  rintro (hreach | ⟨-, hlast⟩ | ⟨-, -, -, -, hlast⟩)
  · exact hreach
  all_goals
    simp only [Shadow.granule, Word.limit, Word.signLimit] at *
    omega

namespace Run

variable {failing marked : Prop} {past : List Occurrence} {s : Sanitizer} {b : Block} {addr size : Nat}

/-- A chunk that is found and not recycled is a chunk of the state, with all bytes of its block. -/
theorem chunk_of (h : Run failing marked past s) {p : Nat} {k : Chunk} (hfind : s.heap.chunk? p = some k)
    (hlive : k.record.state ≠ .recycled) :
    ∃ b ∈ s.heap.chunks, b.record = k.record
      ∧ ∀ a, k.block ≤ a → a < k.block + k.record.actualSize → a ∈ b.extent := by
  obtain ⟨b, hb, rfl⟩ := Redzone.of_chunk? h.fit.heap hfind
  refine ⟨b, ⟨hb, hlive⟩, rfl, fun a ha ha' => ⟨ha, ?_⟩⟩
  rwa [show b.chunk.record.actualSize = b.size from (h.sound.fits b hb hlive).actual] at ha'

/-- In every state of a run without marks by hand, an access that begins in the block of a chunk and
    touches two granules at most is reported as a use after free if the chunk was freed, and as an
    overflow if it misses the user's bytes.  From the user's first byte on the chunk is described, and
    it tells which calls allocated and freed it. -/
theorem accesses_classified (h : Run failing False past s) (hb : b ∈ s.heap.chunks)
    (haddr : addr ∈ b.extent)
    (hgranules : (addr + size - 1) / Shadow.granule ≤ addr / Shadow.granule + 1)
    (hbad : b.record.state = .quarantined ∨ ∃ a, addr ≤ a ∧ a < addr + size ∧ a ∉ b.user)
    (tid : Nat) (isWrite : Bool) :
    (∃ report, (Sanitizer.classify tid addr isWrite size : Act Empty Sanitizer Report) s =
        .ok report { s with captures := s.captures + 1 }
      ∧ report.kind =
        (if b.record.state = .quarantined then .heapUseAfterFree else .heapBufferOverflow)
      ∧ (b.record.userBegin ≤ addr → report.description = some (.heap (.behind b addr))))
    ∧ (∃ earlier o later, past = earlier ++ o :: later ∧ o.Allocated b
      ∧ ∀ o' ∈ later, ∃ c ∈ o'.after.heap.chunks, c.Same b)
    ∧ (b.record.state = .quarantined → ∃ earlier o later, past = earlier ++ o :: later ∧ o.Freed b
      ∧ ∀ o' ∈ later, b ∈ o'.after.heap.chunks) := by
  refine ⟨?_, h.allocated_by hb, h.freed_by hb⟩
  have hwf := h.fit.heap
  have hfits := h.sound.fits
  have hguarded := h.guarded not_false b hb
  have hapart := Sanitizer.notMem_range h.fit h.sound hb haddr
  -- A chunk that was freed is all marked; of one that is in use, the access misses the user's bytes to
  -- the left or to the right.
  obtain ⟨m, hbyte, hkind⟩ : ∃ m : Shadow.Magic,
      s.heap.shadow.explaining addr size = .ok (some m.byte)
        ∧ BugKind.ofMagic m =
          if b.record.state = .quarantined then .heapUseAfterFree else .heapBufferOverflow := by
    rcases hbad with hfreed | hmissed
    · refine ⟨.heapFreed, hguarded.explaining_freed hwf hb.1 hfreed haddr ?_, (if_pos hfreed).symm⟩
      simp only [Shadow.granule, Word.signLimit] at *
      omega
    by_cases hfreed : b.record.state = .quarantined
    · refine ⟨.heapFreed, hguarded.explaining_freed hwf hb.1 hfreed haddr ?_, (if_pos hfreed).symm⟩
      simp only [Shadow.granule, Word.signLimit] at *
      omega
    have hstate : b.record.state = .allocated := by
      cases hs : b.record.state with
      | allocated => rfl
      | quarantined => exact absurd hs hfreed
      | recycled => exact absurd hs hb.2
    rcases hguarded.explaining_missed hwf hb.1 hstate haddr hgranules hmissed with hleft | hright
    · exact ⟨.heapLeftRedzone, hleft, (if_neg hfreed).symm⟩
    · exact ⟨.heapRightRedzone, hright, (if_neg hfreed).symm⟩
  obtain ⟨d, hdescribe, hbehind⟩ : ∃ d, Report.describe s.heap (s.fakeStacks.map (·.stack)) addr = .ok d
      ∧ (b.record.userBegin ≤ addr → d = some (.heap (.behind b addr))) := by
    by_cases huser : b.record.userBegin ≤ addr
    · exact ⟨_, Report.describe_eq hwf hb (hfits b hb.1 hb.2) haddr hapart huser, fun _ => rfl⟩
    · obtain ⟨d, hd⟩ := Report.describe_ok hwf hfits (s.fakeStacks.map (·.stack)) addr
      exact ⟨d, hd, fun h => absurd h huser⟩
  obtain ⟨w, hclassify⟩ := Report.classify_ok { addr, size, isWrite } tid
    (s.capture s.config.mallocContextSize s.captures) hwf hbyte hdescribe
  exact ⟨_, Sanitizer.classify_eq hclassify, (Report.ofShadow?_magic m).trans hkind, hbehind⟩

/-- A write begins in the second granule of twenty bytes and ends behind them; the next chunk has been
    freed, and a read begins in its last granule and goes on into the redzone. -/
theorem accesses_classified_astride :
    ∃ past s b c report report', Run False False past s
      ∧ (b.record.allocated.stack = 1 ∧ c.record.allocated.stack = 2 ∧ c.record.freed.stack = 3)
      ∧ ((Sanitizer.classify 0 17665200488590 true 8 : Act Empty Sanitizer Report) s =
          .ok report { s with captures := s.captures + 1 }
        ∧ report.kind = .heapBufferOverflow
        ∧ report.description = some (.heap (.behind b 17665200488590)))
      ∧ (Sanitizer.classify 7 17665200488882 false 9 : Act Empty Sanitizer Report) s =
          .ok report' { s with captures := s.captures + 1 }
        ∧ report'.kind = .heapUseAfterFree
        ∧ report'.description = some (.heap (.behind c 17665200488882)) := by
  obtain ⟨past, s, hrun, hcheck⟩ := of_plays False False
    (show Request.plays {} .counter {}
      [.call .register, .call (.allocate 0 20 8 .malloc 0), .call (.allocate 0 20 8 .new 0),
        .call (.free 0 17665200488864 .new 0)]
      (fun _ s => decide (s.heap.chunk? 17665200488576 =
          some ⟨17665200488448, .small 17, .recordAllocation ⟨17665200488576, 20, 288, ⟨1, 0⟩, .malloc⟩⟩
        ∧ s.heap.chunk? 17665200488864 =
          some ⟨17665200488736, .small 17,
            ⟨.quarantined, .new, 17665200488864, 20, 288, ⟨2, 0⟩, ⟨3, 0⟩⟩⟩)) = true by
      decide +kernel)
    (by simp [Request.Fits, Operation.Marks])
  obtain ⟨hfirst, hsecond⟩ := of_decide_eq_true hcheck
  obtain ⟨b, hb, hrecord, hextent⟩ := hrun.chunk_of hfirst nofun
  obtain ⟨c, hc, hrecord', hextent'⟩ := hrun.chunk_of hsecond nofun
  -- The first access runs over the end of its block, the second lies in one that was freed.
  have hend : 17665200488596 ∉ b.user := by
    unfold Block.user
    rw [hrecord]
    decide
  obtain ⟨⟨report, hreport, hkind, hdescription⟩, -⟩ := hrun.accesses_classified hb
    (hextent 17665200488590 (by decide) (by decide))
    (show (17665200488590 + 8 - 1) / Shadow.granule ≤ _ by decide)
    (.inr ⟨17665200488596, by decide, by decide, hend⟩) 0 true
  obtain ⟨⟨report', hreport', hkind', hdescription'⟩, -⟩ := hrun.accesses_classified hc
    (hextent' 17665200488882 (by decide) (by decide))
    (show (17665200488882 + 9 - 1) / Shadow.granule ≤ _ by decide) (.inl (by rw [hrecord'])) 7 false
  rw [hrecord] at hkind hdescription
  rw [hrecord'] at hkind' hdescription'
  refine ⟨past, s, b, c, report, report', hrun, ⟨by rw [hrecord]; rfl, by rw [hrecord'], by rw [hrecord']⟩,
    ⟨hreport, hkind, hdescription (by decide)⟩, hreport', hkind', hdescription' (by decide)⟩

/-- Whatever is asked about an address, there is an answer, with these exceptions: looking for a bad granule
    stops at the last granule of the address space, looking for the byte that explains an access stops
    where the access or the search leaves the word, and a report is not made of an access whose end,
    counted from its first granule, is no word. -/
theorem diagnosis_stops_iff {shadow : Shadow} (hshadow : Shadow.Reached shadow)
    (h : Run failing marked past s) (addr size tid : Nat) (isWrite : Bool) :
    (∃ w, shadow.window addr = .ok w)
    ∧ (shadow.firstBad addr size = .error .stopped ↔ shadow.ReachesLimit addr size)
    ∧ (shadow.accessIsPoisoned addr size = .error .stopped ↔ shadow.ReachesLimit addr size)
    ∧ (shadow.isPoisoned addr = .error .stopped ↔ shadow.ReachesLimit addr 1)
    ∧ (shadow.explaining addr size = .error .overrun
      ↔ shadow.covers (Word.roundDown addr Shadow.granule) 1 = true ∧ shadow.Strays addr size)
    ∧ (shadow.bugKind addr size = .error .overrun
      ↔ shadow.covers (Word.roundDown addr Shadow.granule) 1 = true ∧ shadow.Strays addr size)
    ∧ (if s.heap.shadow.covers (Word.roundDown addr Shadow.granule) 1 = true
          ∧ Word.limit ≤ addr % Shadow.granule + size then
        (Sanitizer.classify tid addr isWrite size : Act Empty Sanitizer Report) s =
          .error .stopped { s with captures := s.captures + 1 }
      else ∃ report, (Sanitizer.classify tid addr isWrite size : Act Empty Sanitizer Report) s =
        .ok report { s with captures := s.captures + 1 }) := by
  have hmapped := hshadow.mapped
  refine ⟨hmapped.window_ok addr, Shadow.firstBad_stopped_iff hmapped,
    Shadow.accessIsPoisoned_stopped_iff hmapped, Shadow.accessIsPoisoned_stopped_iff hmapped,
    Shadow.explaining_stopped_iff, Shadow.bugKind_stopped_iff, ?_⟩
  have hwf := h.fit.heap
  -- In the map of a heap an access goes astray only if it is too long.
  have hstrays : s.heap.shadow.explaining addr size = .error .overrun ↔
      s.heap.shadow.covers (Word.roundDown addr Shadow.granule) 1 = true
        ∧ Word.limit ≤ addr % Shadow.granule + size :=
    Shadow.explaining_stopped_iff.trans
      (and_congr_right fun hcovers => hwf.layout.shadow_placed.strays_iff hcovers)
  by_cases hover : s.heap.shadow.covers (Word.roundDown addr Shadow.granule) 1 = true
      ∧ Word.limit ≤ addr % Shadow.granule + size
  · rw [if_pos hover]
    refine Sanitizer.classify_stopped ?_
    unfold Report.classify
    rw [hstrays.mpr hover]
    rfl
  · rw [if_neg hover]
    cases hbyte : s.heap.shadow.explaining addr size with
    | error e =>
        cases e
        exact absurd (hstrays.mp hbyte) hover
    | ok byte =>
        obtain ⟨d, hdescribe⟩ := Report.describe_ok hwf h.sound.fits (s.fakeStacks.map (·.stack)) addr
        obtain ⟨w, hclassify⟩ := Report.classify_ok { addr, size, isWrite } tid
          (s.capture s.config.mallocContextSize s.captures) hwf hbyte hdescribe
        exact ⟨_, Sanitizer.classify_eq hclassify⟩

/-- At the end of the address space seven bytes have a shadow byte that is never looked at as a whole; in
    a heap an access of half the address space is reported. -/
theorem diagnosis_stops_at_end :
    ∃ shadow past s report, Shadow.Reached shadow ∧ Run False True past s
      ∧ (∃ w, shadow.window 18446744073709551610 = .ok w)
      ∧ shadow.accessIsPoisoned 18446744073709551602 10 = .error .stopped
      ∧ (Sanitizer.classify 0 17660905521281 true 9223372036854775808 : Act Empty Sanitizer Report) s =
        .ok report { s with captures := s.captures + 1 } := by
  obtain ⟨shadow, hshadow, hcheck⟩ := Shadow.Reached.of_marked
    (show (Shadow.marked 18446744073709551600 15 [.unpoison 18446744073709551600 15]).any
      (fun s => decide (s.covers 18446744073709551602 10 = true ∧ s.ofGranule 2305843009213693950 = 0)) =
        true by decide +kernel)
  obtain ⟨hcovers, hclear⟩ := of_decide_eq_true hcheck
  obtain ⟨past, s, hrun, -⟩ := of_plays False True
    (show Request.plays {} .counter {}
      [.call .register, .call (.allocate 0 10 8 .malloc 0), .call (.poison 17660905521284 4)]
      (fun _ _ => true) = true by decide +kernel)
    (by simp [Request.Fits, Operation.Marks])
  obtain ⟨-, -, hstops, -⟩ := diagnosis_stops_iff hshadow hrun 18446744073709551602 10 0 false
  obtain ⟨hwindow, -⟩ := diagnosis_stops_iff hshadow hrun 18446744073709551610 1 0 false
  obtain ⟨-, -, -, -, -, -, hreport⟩ :=
    diagnosis_stops_iff hshadow hrun 17660905521281 9223372036854775808 0 true
  rw [if_neg fun hover => absurd hover.2 (by decide)] at hreport
  obtain ⟨report, hreport⟩ := hreport
  refine ⟨shadow, past, s, report, hshadow, hrun, hwindow, hstops.mpr ⟨by decide, hcovers, by decide, ?_⟩, hreport⟩
  intro g hlo hhi
  have hg : g = 2305843009213693950 := by
    simp only [Shadow.granule] at *
    omega
  rw [hg]
  exact hclear

/-- An access of almost the whole address space to a chunk of a heap is not reported, and the last granule
    of the address space has no answer. -/
theorem diagnosis_stopped :
    (∃ past s, Run False False past s
      ∧ (Sanitizer.classify 0 17660905521281 false 18446744073709551615 : Act Empty Sanitizer Report) s =
        .error .stopped { s with captures := s.captures + 1 })
    ∧ ∃ shadow, Shadow.Reached shadow ∧ shadow.isPoisoned 18446744073709551608 = .error .stopped := by
  refine ⟨?_, ?_⟩
  · obtain ⟨past, s, hrun, hcheck⟩ := of_plays False False
      (show Request.plays {} .counter {} [.call .register, .call (.allocate 0 10 8 .malloc 0)]
        (fun _ s => decide (s.heap.shadow.explaining 17660905521281 18446744073709551615 =
          .error .overrun)) = true by decide +kernel)
      (by simp [Request.Fits, Operation.Marks])
    refine ⟨past, s, hrun, Sanitizer.classify_stopped ?_⟩
    unfold Report.classify
    rw [of_decide_eq_true hcheck]
    rfl
  · obtain ⟨shadow, hshadow, hcheck⟩ := Shadow.Reached.of_marked
      (show (Shadow.marked 18446744073709551600 15 []).any
        (fun s => decide (s.isPoisoned 18446744073709551608 = .error .stopped)) = true by decide +kernel)
    exact ⟨shadow, hshadow, of_decide_eq_true hcheck⟩

end Run

end GuardedHeap
