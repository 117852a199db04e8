import GuardedHeap.Proofs.Run.Accounts
import GuardedHeap.Proofs.Run.Frames
import GuardedHeap.Proofs.Run.Waiting

/-! # Tallies of runs — the counters are exact

    A counter goes up where a call has done something, and what calls do to
    chunks are deeds.  So every event puts the counters of chunks up by
    what its deeds tell (`Sanitizer.Comes.counts`), and the same deeds tell
    how the chunks that users have and the freed chunks that wait change
    (`Scene.Sound.users_moves`, `Scene.waiting_moves`).  By induction over a
    run the counters tell exactly what there is, modulo the word
    (`Run.counters_exact`). -/

namespace GuardedHeap

open Quarantine (Entry)

namespace Heap

/-- All blocks: those of the size classes, and the large ones. -/
def blockList (h : Heap) : List Nat :=
  (List.range h.regions.size).flatMap h.carved ++ h.linked

/-- The number of bytes that the user of a block asked for. -/
def requestedAt (h : Heap) (p : Nat) : Nat :=
  ((h.record? p).map (·.requestedSize)).getD 0

variable {h : Heap}

theorem WF.mem_blockList (hwf : h.WF) {p : Nat} :
    p ∈ h.blockList ↔ ∃ b ∈ h.blocks, b.begin = p := by
  unfold blockList
  rw [List.mem_append, List.mem_flatMap, WF.mem_linked]
  constructor
  · rintro (⟨c, -, hp⟩ | ⟨b, hb, -, rfl⟩)
    · obtain ⟨b, hb, -, rfl⟩ := hwf.mem_carved.mp hp
      exact ⟨b, hb, rfl⟩
    · exact ⟨b, hb, rfl⟩
  · rintro ⟨b, hb, rfl⟩
    cases hkind : b.kind with
    | large => exact .inr ⟨b, hb, hkind, rfl⟩
    | small c =>
        refine .inl ⟨c, List.mem_range.mpr ?_, hwf.mem_carved.mpr ⟨b, hb, hkind, rfl⟩⟩
        rcases hb with ⟨slot, ⟨r, hr, -⟩, rfl⟩ | ⟨l, -, rfl⟩
        · obtain rfl : slot.classId = c := BlockClass.small.inj hkind
          exact lt_size_of_region hr
        · exact nomatch hkind

/-- Blocks are told apart by where they begin, so none is listed twice. -/
theorem WF.blockList_nodup (hwf : h.WF) : h.blockList.Nodup := by
  have hkinds : ∀ {b b' : Block}, b ∈ h.blocks → b' ∈ h.blocks → b.begin = b'.begin → b.kind = b'.kind :=
    fun hb hb' heq => congrArg Block.kind (hwf.tiled.eq_of_begin hb hb' heq)
  refine List.nodup_append.mpr ⟨List.nodup_flatMap.mpr ⟨fun c _ => hwf.carved_nodup c, ?_⟩,
    hwf.linked_nodup, ?_⟩
  · refine List.nodup_range.imp fun {c c'} hne => ?_
    intro p hp hp'
    obtain ⟨b, hb, hkind, rfl⟩ := hwf.mem_carved.mp hp
    obtain ⟨b', hb', hkind', heq⟩ := hwf.mem_carved.mp hp'
    have hsame := hkinds hb hb' heq.symm
    rw [hkind, hkind'] at hsame
    exact hne (BlockClass.small.inj hsame)
  · rintro p hp q hq rfl
    obtain ⟨c, -, hp⟩ := List.mem_flatMap.mp hp
    obtain ⟨b, hb, hkind, rfl⟩ := hwf.mem_carved.mp hp
    obtain ⟨b', hb', hkind', heq⟩ := WF.mem_linked.mp hq
    have hsame := hkinds hb hb' heq.symm
    rw [hkind, hkind'] at hsame
    exact nomatch hsame

end Heap

namespace Sanitizer

variable {failing marked : Prop} {s t : Sanitizer} {bs : Finset Block}

/-- The blocks that users have are the live ones of the list. -/
theorem live_eq (hfit : s.Fit failing s.threads) (hbs : (s.scene s.threads 0).Users bs) :
    (s.heap.live s.heap.blockList : Multiset Nat) = bs.val.map (·.begin) := by
  have hwf := hfit.heap
  refine (Multiset.Nodup.ext (Multiset.coe_nodup.mpr (hwf.blockList_nodup.filter _)) ?_).mpr fun p => ?_
  · refine bs.nodup.map_on fun b hb c hc heq => ?_
    exact hwf.tiled.eq_of_begin ((hbs b).mp hb).1 ((hbs c).mp hc).1 heq
  · rw [Multiset.mem_coe, Multiset.mem_map]
    rw [List.mem_filter, hwf.mem_blockList, decide_eq_true_eq]
    constructor
    · rintro ⟨⟨b, hb, rfl⟩, hstate⟩
      rw [hwf.stateAt?_eq hb] at hstate
      exact ⟨b, (hbs b).mpr ⟨hb, Option.some.inj hstate⟩, rfl⟩
    · rintro ⟨b, hb, rfl⟩
      obtain ⟨hb, hstate⟩ := (hbs b).mp hb
      exact ⟨⟨b, hb, rfl⟩, (hwf.stateAt?_eq hb).trans (congrArg some hstate)⟩

/-- The sizes that users asked for are those that the records of live blocks tell. -/
theorem sizes_eq (hfit : s.Fit failing s.threads) (hbs : (s.scene s.threads 0).Users bs) :
    Scene.sizes bs = ((s.heap.live s.heap.blockList).map s.heap.requestedAt : Multiset Nat) := by
  rw [← Multiset.map_coe, live_eq hfit hbs, Multiset.map_map]
  refine Multiset.map_congr rfl fun b hb => ?_
  unfold Function.comp Heap.requestedAt
  rw [(hfit.heap.begin_spec ((hbs b).mp hb).1).2.2]
  rfl

/-! ## What an event frees -/

/-- What an event that tells its deeds has freed: no chunk, or the one that is retired, once. -/
inductive Frees (s : Sanitizer) : List Entry → List Deed → Prop where
  | none {ds : List Deed} (hds : ∀ r, .retire r ∉ ds) : Frees s [] ds
  | one {b : Block} {before : List Deed} {origin : Origin} {evicted : List Entry}
      (hb : b ∈ s.heap.chunks) (hstate : b.record.state = .allocated)
      (hbefore : ∀ r, .retire r ∉ before) :
      Frees s [b.entry] (before
        ++ .retire (b.withRecord { b.record with state := .quarantined, freed := origin })
          :: evicted.map .evict)

/-- Evictions retire nothing. -/
theorem retire_notMem_evicts (es : List Entry) (r : Block) : .retire r ∉ es.map Deed.evict :=
  fun hr => (List.mem_map.mp hr).elim fun _ h => nomatch h.2

variable {ds : List Deed} {op : Operation} {answer : Answer} {e : Event}

theorem frees_of_retires {t : Thread} {p : Nat} {api : Api} {origin : Origin} {b : Block} (op : Operation)
    (before : List Deed) (hfit : s.Fit failing s.threads)
    (hsound : Scene.Sound failing marked (s.scene s.threads 0)) (hop : op.frees? = some p)
    (hb : Retires s t p api origin b ds) (hbefore : ∀ r, .retire r ∉ before) :
    s.Frees (s.freed op) (before ++ ds) := by
  rw [freed_eq op hfit hsound hop hb.mem hb.user hb.state]
  obtain ⟨ev, -, rfl⟩ := hb.deeds
  exact .one hb.mem hb.state hbefore

theorem Told.frees (hfit : s.Fit failing s.threads)
    (hsound : Scene.Sound failing marked (s.scene s.threads 0)) (h : s.Told op answer ds) :
    s.Frees (Occurrence.freed ⟨s, .call op answer, t⟩) ds := by
  cases h with
  | allocate | reallocateNone => exact .none fun r hr => nomatch List.mem_singleton.mp hr
  | calloc ht hrecord =>
      refine .none fun r hr => ?_
      rcases List.mem_cons.mp hr with hr | hr
      · exact nomatch hr
      · exact nomatch List.mem_singleton.mp hr
  | @reallocateZero id p t b ds ht hp hb =>
      exact frees_of_retires (.reallocate id p 0) [] hfit hsound (if_neg hp) hb nofun
  | @reallocate id p size user t b b' content copied ds ht hp hsize hb hb' hcopied =>
      refine frees_of_retires (.reallocate id p size)
        [.handOut b' content, .put user (min b.record.requestedSize size) copied] hfit hsound
        (if_neg hp) hb fun r hr => ?_
      rcases List.mem_cons.mp hr with hr | hr
      · exact nomatch hr
      · exact nomatch List.mem_singleton.mp hr
  | @free id p api stack t b ds ht hp hb =>
      exact frees_of_retires (.free id p api stack) [] hfit hsound (if_neg hp) hb nofun
  | freeNone | freeWrong | refused => exact .none nofun
  | unregister ht hev => exact .none (retire_notMem_evicts _)
  | @quiet op a hop =>
      have hfreed : s.freed op = [] := by
        cases op <;> first | rfl | exact absurd trivial hop
      show s.Frees (s.freed op) []
      rw [hfreed]
      exact .none nofun

theorem Tells.frees (hfit : s.Fit failing s.threads)
    (hsound : Scene.Sound failing marked (s.scene s.threads 0)) (h : s.Tells e t ds) :
    s.Frees (Occurrence.freed ⟨s, e, t⟩) ds := by
  cases h with
  | call htold hstacks => exact htold.frees hfit hsound
  | write => exact .none fun r hr => nomatch List.mem_singleton.mp hr
  | tick | readLog | schedule => exact .none nofun

/-- What was freed is what has joined the quarantine. -/
theorem Frees.joins {es : List Entry} (h : s.Frees es ds) : ds.flatMap Deed.joins = es := by
  have hnone : ∀ {ds : List Deed}, (∀ r, .retire r ∉ ds) → ds.flatMap Deed.joins = [] := by
    intro ds hds
    refine List.flatMap_eq_nil_iff.mpr fun d hd => ?_
    cases d with
    | retire r => exact absurd hd (hds r)
    | _ => rfl
  cases h with
  | none hds => exact hnone hds
  | @one b before origin evicted hb hstate hbefore =>
      rw [List.flatMap_append, hnone hbefore, List.nil_append, List.flatMap_cons,
        hnone (retire_notMem_evicts evicted), List.append_nil]
      rfl

theorem Frees.nodup {es : List Entry} (h : s.Frees es ds) : es.Nodup := by
  cases h with
  | none => exact List.nodup_nil
  | one => exact List.nodup_singleton _

/-- What was freed are the chunks that their users have not any more. -/
theorem Frees.mem_iff {es : List Entry} (hsound : Scene.Sound failing marked (s.scene s.threads 0))
    (hmoves : Moves failing marked (s.scene s.threads 0) ds (t.scene t.threads 0))
    (h : s.Frees es ds) {e : Entry} :
    e ∈ es ↔ ∃ b ∈ s.heap.blocks, b.record.state = .allocated ∧ b ∉ t.heap.blocks ∧ b.entry = e := by
  have hlive : ∀ {b : Block}, b.record.state = .allocated → b.record.state ≠ .recycled := by
    intro b hb
    rw [hb]
    decide
  -- A chunk whose user has it no more was retired.
  have hretired : ∀ b ∈ s.heap.blocks, b.record.state = .allocated → b ∉ t.heap.blocks →
      ∃ r, .retire r ∈ ds ∧ r.begin = b.begin := by
    intro b hb hstate hgone
    by_contra hnone
    refine hgone (hsound.allocated_stays hmoves (b := b) ⟨hb, hlive hstate⟩ hstate fun r hr heq => ?_).1
    exact hnone ⟨r, hr, heq⟩
  cases h with
  | none hds =>
      refine ⟨nofun, ?_⟩
      rintro ⟨b, hb, hstate, hgone, rfl⟩
      obtain ⟨r, hr, -⟩ := hretired b hb hstate hgone
      exact absurd hr (hds r)
  | @one b before origin evicted hb hstate hbefore =>
      constructor
      · intro he
        obtain rfl := List.mem_singleton.mp he
        refine ⟨b, hb.1, hstate, fun hstays => ?_, rfl⟩
        refine hsound.retired_gone hmoves (fun d hd => ?_) b ⟨hstays, hlive hstate⟩ rfl hstate
        obtain ⟨x, -, rfl⟩ := List.mem_map.mp hd
        exact trivial
      · rintro ⟨c, hc, hcstate, hgone, rfl⟩
        obtain ⟨r, hr, hbegin⟩ := hretired c hc hcstate hgone
        rcases List.mem_append.mp hr with hr | hr
        · exact absurd hr (hbefore r)
        rcases List.mem_cons.mp hr with hr | hr
        · obtain rfl := Deed.retire.inj hr
          obtain rfl := hsound.tiled.eq_of_begin hb.1 hc hbegin
          exact List.mem_singleton.mpr rfl
        · exact absurd hr (retire_notMem_evicts evicted r)

end Sanitizer

/-! ## Runs -/

namespace Occurrence

/-- The bytes that an event has allocated. -/
def requested (o : Occurrence) : Nat :=
  match o.event with
  | .call (.allocate _ size ..) (.ok _) => size
  | .call (.calloc _ times size) (.ok _) => times * size
  | .call (.reallocate _ _ size) (.ok _) => size
  | _ => 0

end Occurrence

namespace Sanitizer

variable {s t : Sanitizer} {ds : List Deed} {e : Event}

theorem asked_evicts (es : List Entry) : (es.map Deed.evict).flatMap Deed.asked = [] :=
  List.flatMap_eq_nil_iff.mpr fun _ hd => (List.mem_map.mp hd).elim fun _ h => h.2 ▸ rfl

theorem Retires.asked {u : Thread} {p : Nat} {api : Api} {origin : Origin} {b : Block}
    (h : Retires s u p api origin b ds) : ds.flatMap Deed.asked = [] := by
  obtain ⟨ev, -, rfl⟩ := h.deeds
  exact asked_evicts _

theorem Told.requested {op : Operation} {answer : Answer} (h : s.Told op answer ds) :
    (ds.flatMap Deed.asked).sum = Occurrence.requested ⟨s, .call op answer, t⟩ := by
  cases h with
  | allocate ht hb | reallocateNone ht hb =>
      show [_].sum = _
      rw [hb.record]
      exact Nat.add_zero _
  | calloc ht hrecord =>
      show [_].sum = _
      rw [hrecord]
      exact Nat.add_zero _
  | reallocateZero ht hp hb =>
      rw [hb.asked]
      rfl
  | reallocate ht hp hsize hb hb' hcopied =>
      rw [List.flatMap_cons, List.flatMap_cons, hb.asked]
      show [_].sum = _
      rw [hb'.record]
      exact Nat.add_zero _
  | free ht hp hb =>
      rw [hb.asked]
      rfl
  | unregister ht hev =>
      rw [asked_evicts]
      rfl
  | refused hop =>
      show 0 = Occurrence.requested _
      unfold Occurrence.requested
      split <;> rename_i heq <;> first | rfl | exact nomatch heq
  | @quiet _ a hop =>
      cases op <;> first | rfl | exact absurd trivial hop
  | freeNone | freeWrong => rfl

theorem Tells.requested (h : s.Tells e t ds) :
    (ds.flatMap Deed.asked).sum = Occurrence.requested ⟨s, e, t⟩ := by
  cases h with
  | call htold hstacks => exact htold.requested
  | write | tick | readLog | schedule => rfl

/-- What users asked for in a past and what they gave back: they have the rest, and the counters have
    counted both. -/
structure Tallies (s : Sanitizer) (past : List Occurrence) (bs : Finset Block)
    (asked returned : List Nat) : Prop where
  users : (s.scene s.threads 0).Users bs
  rest : Scene.sizes bs + (returned : Multiset Nat) = (asked : Multiset Nat)
  mallocs : (s.metrics.mallocs : ZMod Word.limit) = asked.length
  frees : (s.metrics.frees : ZMod Word.limit) = returned.length
  bytesAllocated : (s.metrics.bytesAllocated : ZMod Word.limit) = asked.sum
  bytesFreed : (s.metrics.bytesFreed : ZMod Word.limit) = returned.sum
  requested : asked.sum = (past.map Occurrence.requested).sum

end Sanitizer

namespace Run

variable {marked : Prop} {past : List Occurrence} {s : Sanitizer}

/-- What users asked for is counted, and so is what they gave back. -/
theorem tallies (h : Run False marked past s) :
    ∃ bs asked returned, s.Tallies past bs asked returned := by
  induction h with
  | @start config log capture now p q s hinit hcalm =>
      obtain ⟨-, hfresh⟩ := begins hinit hcalm
      refine ⟨∅, [], [], fun b => ⟨nofun, fun hb => ?_⟩, rfl, ?_, ?_, ?_, ?_, rfl⟩
      · have hin : b ∈ s.heap.blocks := hb.1
        rw [hfresh.heap.blocks] at hin
        exact hin.elim
      all_goals
        rw [hfresh.metrics]
        rfl
  | @snoc past s t e hbefore hstep hfails hmarks ih =>
      obtain ⟨bs, asked, returned, htallies⟩ := ih
      obtain ⟨ds, hcomes, htells, -⟩ := hstep.comes hbefore.fit hbefore.sound hfails hmarks
      obtain ⟨cs, hcs, hsizes⟩ := hbefore.sound.users_moves hcomes.moves htallies.users
      have hcounts := (hcomes.counts not_false).residue
      refine ⟨cs, asked ++ ds.flatMap Deed.asked, returned ++ ds.flatMap Deed.returned, hcs, ?_, ?_, ?_,
        ?_, ?_, ?_⟩
      · rw [← Multiset.coe_add, ← Multiset.coe_add, ← htallies.rest]
        calc Scene.sizes cs + ((returned : Multiset Nat) + (ds.flatMap Deed.returned : Multiset Nat))
            = Scene.sizes cs + (ds.flatMap Deed.returned : Multiset Nat) + (returned : Multiset Nat) := by abel
          _ = Scene.sizes bs + (returned : Multiset Nat) + (ds.flatMap Deed.asked : Multiset Nat) := by
              rw [hsizes]
              abel
      · rw [List.length_append, Nat.cast_add, ← htallies.mallocs]
        exact hcounts .mallocs (by decide)
      · rw [List.length_append, Nat.cast_add, ← htallies.frees]
        exact hcounts .frees (by decide)
      · rw [List.sum_append, Nat.cast_add, ← htallies.bytesAllocated]
        exact hcounts .bytesAllocated (by decide)
      · rw [List.sum_append, Nat.cast_add, ← htallies.bytesFreed]
        exact hcounts .bytesFreed (by decide)
      · rw [List.sum_append, List.map_append, List.sum_append, htallies.requested, (htells not_false).requested]
        rfl

/-- The freed chunks that wait are those that were freed and not recycled, and so are their sizes. -/
theorem waits (h : Run False marked past s) :
    (s.metrics.frees - s.metrics.recycledChunks : ZMod Word.limit) = s.waiting.length
      ∧ (s.metrics.recycledBytes + (s.waiting.map (·.size)).sum : ZMod Word.limit) =
        ((past.flatMap Occurrence.freed).map (·.size)).sum := by
  induction h with
  | @start config log capture now p q s hinit hcalm =>
      obtain ⟨-, hfresh⟩ := begins hinit hcalm
      have hnone : s.waiting = [] := by
        unfold Sanitizer.waiting
        rw [hfresh.queue, hfresh.threads]
        rfl
      rw [hfresh.metrics, hnone]
      exact ⟨sub_self _, add_zero _⟩
  | @snoc past s t e hbefore hstep hfails hmarks ih =>
      obtain ⟨hnumber, hbytes⟩ := ih
      obtain ⟨ds, hcomes, htells, hkeeps, -⟩ := hstep.comes hbefore.fit hbefore.sound hfails hmarks
      have hmoves := Scene.waiting_moves hcomes.moves (hkeeps.resolve_right fun h => h.1)
      have hjoins := ((htells not_false).frees hbefore.fit hbefore.sound).joins
      rw [Sanitizer.waiting_scene, Sanitizer.waiting_scene, hjoins] at hmoves
      have hcounts := (hcomes.counts not_false).residue
      -- The chunks that wait change by those that were freed and those that left, and the counters
      -- change by as many.
      refine ⟨?_, ?_⟩
      · have hfrees : (t.metrics.frees : ZMod Word.limit) =
            s.metrics.frees + (Occurrence.freed ⟨s, e, t⟩).length := by
          rw [← hjoins, ← Deed.length_returned]
          exact hcounts .frees (by decide)
        have hrecycled : (t.metrics.recycledChunks : ZMod Word.limit) =
            s.metrics.recycledChunks + (ds.flatMap Deed.leaves).length :=
          hcounts .recycledChunks (by decide)
        have hcard := congrArg Multiset.card hmoves
        simp only [Multiset.card_add, Multiset.coe_card] at hcard
        have hcard := congrArg (Nat.cast (R := ZMod Word.limit)) hcard
        rw [Nat.cast_add, Nat.cast_add] at hcard
        linear_combination hfrees - hrecycled + hnumber - hcard
      · have hrecycled : (t.metrics.recycledBytes : ZMod Word.limit) =
            s.metrics.recycledBytes + ((ds.flatMap Deed.leaves).map (·.size)).sum :=
          hcounts .recycledBytes (by decide)
        have hsum := congrArg (fun es => (es.map (·.size)).sum) hmoves
        simp only [Multiset.map_add, Multiset.sum_add, Multiset.map_coe, Multiset.sum_coe] at hsum
        have hsum := congrArg (Nat.cast (R := ZMod Word.limit)) hsum
        rw [Nat.cast_add, Nat.cast_add] at hsum
        rw [List.flatMap_append, List.map_append, List.sum_append, Nat.cast_add, List.flatMap_singleton]
        linear_combination hrecycled + hbytes + hsum

/-- The balance of frames are the frames that threads have left. -/
theorem frameBalance (h : Run False marked past s) :
    s.frameBalance = ((past.map Occurrence.leftFrames).sum : Nat) := by
  induction h with
  | start hinit hcalm =>
      obtain ⟨-, hfresh⟩ := begins hinit hcalm
      unfold Sanitizer.frameBalance Sanitizer.claimedFrames
      rw [hfresh.metrics, hfresh.fakeStacks]
      rfl
  | snoc hbefore hstep hfails hmarks ih =>
      rw [hstep.frameBalance hbefore.fit hbefore.sound not_false, ih, List.map_append, List.sum_append,
        List.map_singleton, List.sum_singleton, Nat.cast_add]

/-- As long as no call of the operating system fails, the counters tell, modulo the word, exactly what
    there is: the chunks that users have and the bytes that they asked for, the freed chunks that
    wait, the bytes of all chunks that were ever freed, and the frames that are claimed or were left
    claimed by their threads.  What waits are quarantined chunks, and what a call frees are the
    chunks that were a user's and are not afterwards. -/
theorem counters_exact (h : Run False marked past s) :
    (s.metrics.mallocs - s.metrics.frees : ZMod Word.limit) = (s.heap.live s.heap.blockList).length
    ∧ (s.metrics.bytesAllocated - s.metrics.bytesFreed : ZMod Word.limit) =
      ((s.heap.live s.heap.blockList).map s.heap.requestedAt).sum
    ∧ (s.metrics.frees - s.metrics.recycledChunks : ZMod Word.limit) = s.waiting.length
    ∧ (s.metrics.recycledBytes + (s.waiting.map (·.size)).sum : ZMod Word.limit) =
      ((past.flatMap Occurrence.freed).map (·.size)).sum
    ∧ (s.metrics.fakeFramesAllocated - s.metrics.fakeFramesFreed - s.metrics.fakeFramesCollected
        : ZMod Word.limit) =
      s.claimedFrames + ((past.map Occurrence.leftFrames).sum : Nat)
    ∧ (∀ e ∈ s.waiting, ∃ b ∈ s.heap.blocks, b.record.state = .quarantined ∧ b.entry = e)
    ∧ ∀ o ∈ past, o.freed.Nodup ∧ ∀ e, e ∈ o.freed ↔
      ∃ b ∈ o.before.heap.blocks, b.record.state = .allocated ∧ b ∉ o.after.heap.blocks ∧ b.entry = e := by
  obtain ⟨bs, asked, returned, htallies⟩ := h.tallies
  obtain ⟨hfrees, hrecycled⟩ := h.waits
  -- The chunks that users have, with those that they gave back, are those that they asked for.
  have hrest := htallies.rest
  rw [Sanitizer.sizes_eq h.fit htallies.users, Multiset.coe_add] at hrest
  refine ⟨?_, ?_, hfrees, hrecycled, ?_, ?_, ?_⟩
  · have hlength := congrArg Multiset.card hrest
    rw [Multiset.coe_card, Multiset.coe_card, List.length_append, List.length_map] at hlength
    rw [htallies.mallocs, htallies.frees, ← hlength, Nat.cast_add, add_sub_cancel_right]
  · have hsum := congrArg Multiset.sum hrest
    rw [Multiset.sum_coe, Multiset.sum_coe, List.sum_append] at hsum
    rw [htallies.bytesAllocated, htallies.bytesFreed, ← hsum, Nat.cast_add, add_sub_cancel_right]
  · rw [← h.frameBalance]
    unfold Sanitizer.frameBalance
    ring
  · intro e he
    obtain ⟨b, hb, hentry, hstate⟩ := h.sound.waiting_block e
      (Sanitizer.waiting_scene ▸ Multiset.mem_coe.mpr he)
    exact ⟨b, hb, hstate, hentry⟩
  · intro o ho
    obtain ⟨earlier, ds, hrun, hcomes, htells⟩ := h.tells ho
    have hfrees := htells.frees hrun.fit hrun.sound
    exact ⟨hfrees.nodup, fun e => hfrees.mem_iff hrun.sound hcomes.moves⟩

/-- A thread that exits leaves one of its two chunks freed and one of its two frames claimed; another
    thread has one frame claimed. -/
theorem counters_exact_shared :
    ∃ past s, Run False True past s
      ∧ ((s.metrics.mallocs, s.metrics.frees) = (2, 1)
        ∧ (s.metrics.mallocs - s.metrics.frees : ZMod Word.limit) =
          (s.heap.live s.heap.blockList).length)
      ∧ ((s.waiting.map (·.size), s.metrics.recycledBytes) = ([272], 0)
        ∧ (s.metrics.recycledBytes + (s.waiting.map (·.size)).sum : ZMod Word.limit) =
          ((past.flatMap Occurrence.freed).map (·.size)).sum)
      ∧ (s.metrics.fakeFramesAllocated, s.metrics.fakeFramesFreed, s.claimedFrames) = (3, 1, 1)
      ∧ (s.metrics.fakeFramesAllocated - s.metrics.fakeFramesFreed - s.metrics.fakeFramesCollected
          : ZMod Word.limit) =
        s.claimedFrames + ((past.map Occurrence.leftFrames).sum : Nat) := by
  obtain ⟨past, s, hrun, hcheck⟩ := of_plays False True
    (show Request.plays { fakeStackSizeLog := 16 } .counter {}
      [.call .register, .call .register, .call (.allocate 0 100 8 .malloc 0),
        .call (.allocate 0 10 8 .malloc 0), .call (.free 0 17660905521280 .malloc 0),
        .call (.allocateFrame 0 0 10 4096), .call (.allocateFrame 0 0 10 4096),
        .call (.allocateFrame 1 0 10 4096),
        .call (.freeFrame 0 18691697676288 0 10 4096), .call (.unregister 0)]
      (fun _ s => (s.metrics.mallocs, s.metrics.frees) == (2, 1)
        && (s.waiting.map (·.size), s.metrics.recycledBytes) == ([272], 0)
        && (s.metrics.fakeFramesAllocated, s.metrics.fakeFramesFreed, s.claimedFrames) == (3, 1, 1))
      = true by decide +kernel)
    (by simp [Request.Fits, Operation.Marks])
  simp only [Bool.and_eq_true, beq_iff_eq] at hcheck
  obtain ⟨hmallocs, -, -, hbytes, hframes, -⟩ := counters_exact hrun
  exact ⟨past, s, hrun, ⟨hcheck.1.1, hmallocs⟩, ⟨hcheck.1.2, hbytes⟩, hcheck.2, hframes⟩

end Run

end GuardedHeap
