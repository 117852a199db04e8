import GuardedHeap.Proofs.Heap.Memory
import GuardedHeap.Proofs.Run.States

/-! # Contents — the bytes that users put there

    `Occurrence.put` says which bytes an event puts where, seen by the
    users: what they write, what an allocation fills in, and what a
    reallocation takes along.  Whatever else happens to the machine's
    memory is not on its list: no record, no header of a large block and no
    link.  A run keeps these bytes in every chunk that a user has
    (`Run.contents_kept`): an event moves the bytes that users have as its
    deeds say, these are the bytes on the list, and the tables lie in
    other places (`used_memory`). -/

namespace GuardedHeap

/-- The bytes after an event, if those of the chunks before it were `old`.  What an allocation does
    not fill in is as it returns it. -/
def Occurrence.put (o : Occurrence) (old : Nat → UInt8) : Nat → UInt8 :=
  let filled (user size : Nat) : Nat → UInt8 :=
    overlay user (min size o.before.options.maxMallocFillSize)
      (fun _ => UInt8.ofNat o.before.options.mallocFillByte)
      (overlay user size o.after.heap.memory old)
  match o.event with
  | .write addr bytes => overlay addr bytes.length (fun a => (bytes[a - addr]?).getD 0) old
  | .call (.allocate _ size _ _ _) (.ok user) => filled user size
  | .call (.calloc _ times size) (.ok user) => overlay user (times * size) (fun _ => 0) old
  | .call (.reallocate _ p size) (.ok user) =>
    if p = 0 then filled user size
    else if size = 0 then old
    else
      overlay user (min (o.before.allocatedSize p) size) (fun a => old (p + (a - user)))
        (filled user size)
  | _ => old

namespace Occurrence

variable {marked : Prop} {s t : Sanitizer} {ds : List Deed} {old : Nat → UInt8}

theorem put_refused (op : Operation) (e : SanitizerError) :
    put ⟨s, .call op (.error e), t⟩ old = old := by
  cases op <;> rfl

theorem put_quiet {op : Operation} (hop : ¬ op.OnChunks) (a : Nat) :
    put ⟨s, .call op (.ok a), t⟩ old = old := by
  cases op <;> first | rfl | exact absurd trivial hop

/-! ## Overlays -/

/-- Bytes that are as they were returned, the first of them filled. -/
theorem overlay_filled {user size n a : Nat} {c : UInt8} {content new : Nat → UInt8} (hn : n ≤ size)
    (hfill : ∀ a, user ≤ a → a < user + n → content a = c)
    (hnew : new a = overlay user size content old a) :
    new a = overlay user n (fun _ => c) (overlay user size new old) a := by
  unfold overlay at hnew ⊢
  by_cases hin : user ≤ a ∧ a < user + size
  · rw [if_pos hin] at hnew
    rw [if_pos hin]
    by_cases hfirst : user ≤ a ∧ a < user + n
    · rw [if_pos hfirst, hnew, hfill a hfirst.1 hfirst.2]
    · rw [if_neg hfirst]
  · have hfirst : ¬ (user ≤ a ∧ a < user + n) := by omega
    rw [if_neg hfirst, if_neg hin, hnew, if_neg hin]

/-- A block that is handed out has its contents where the user's bytes are recorded to be. -/
theorem bytes_handOut {b : Block} {content : Nat → UInt8} {x : Allocation}
    (hrecord : b.record = .recordAllocation x) :
    (Deed.handOut b content).bytes old = overlay x.userBegin x.requestedSize content old := by
  show overlay b.record.userBegin b.record.requestedSize content old = _
  rw [hrecord]
  rfl

theorem allBytes_evicts (evicted : List Quarantine.Entry) :
    Deed.allBytes (evicted.map .evict) old = old := by
  induction evicted with
  | nil => rfl
  | cons e rest ih => exact ih

/-- A free puts no bytes. -/
theorem allBytes_retires {t : Thread} {p : Nat} {api : Api} {origin : Origin} {b : Block}
    (hb : Sanitizer.Retires s t p api origin b ds) : Deed.allBytes ds old = old := by
  obtain ⟨ev, -, rfl⟩ := hb.deeds
  exact allBytes_evicts ev.evicted

/-- The chunk that is moved has the size that its user knows. -/
theorem allocatedSize_retires {t : Thread} {p : Nat} {api : Api} {origin : Origin} {b : Block}
    (hfit : s.Fit False s.threads) (hsound : Scene.Sound False marked (s.scene s.threads 0))
    (hb : Sanitizer.Retires s t p api origin b ds) :
    s.allocatedSize p = b.record.requestedSize := by
  have husable := (Redzone.usableSize?_eq_some hfit.heap hsound.fits).mpr
    ⟨b, hb.mem.1, hb.user, hb.state, rfl⟩
  unfold Sanitizer.allocatedSize
  rw [husable]
  rfl

/-! ## One event -/

/-- What the memory holds where users have bytes are no tables. -/
theorem used_memory (hfit : s.Fit False s.threads) (hsound : Scene.Sound False marked (s.scene s.threads 0))
    {a : Nat} (ha : a ∈ (s.scene s.threads 0).used) : s.heap.memory a = s.heap.contents a := by
  obtain ⟨b, hb, hstate, hmem⟩ := ha
  have hfits := hsound.fits b hb (by rw [hstate]; decide)
  exact hfit.heap.memory_of_mem hb (hfits.user_subset hmem)

/-- The bytes of a reallocated chunk: those that it took along, and those of a fresh one. -/
theorem put_reallocate {u : Thread} {id p size user : Nat} {b b' : Block}
    {content copied : Nat → UInt8} (hfit : s.Fit False s.threads)
    (hsound : Scene.Sound False marked (s.scene s.threads 0))
    (hold : ∀ a ∈ (s.scene s.threads 0).used, s.heap.memory a = old a) (hp : p ≠ 0)
    (hsize : size ≠ 0) (hb : Sanitizer.Retires s u p .malloc (s.originOf 1 u.tid 0) b ds)
    (hb' : Sanitizer.HandedOut s.options user size .malloc (s.originOf 0 u.tid 0) b' content)
    (hcopied : ∀ i, i < min b.record.requestedSize size →
      copied (user + i) = s.heap.contents (p + i))
    {a : Nat} (ha : t.heap.memory a =
      overlay user (min b.record.requestedSize size) copied (overlay user size content old) a) :
    t.heap.memory a = put ⟨s, .call (.reallocate id p size) (.ok user), t⟩ old a := by
  show _ = (if p = 0 then _ else if size = 0 then _ else _ : Nat → UInt8) a
  rw [if_neg hp, if_neg hsize, allocatedSize_retires hfit hsound hb]
  unfold overlay at ha ⊢
  by_cases hin : user ≤ a ∧ a < user + min b.record.requestedSize size
  · -- The old chunk had its user's bytes when they were copied.
    rw [if_pos hin] at ha ⊢
    have hmem : p + (a - user) ∈ b.user := by
      unfold Block.user
      rw [hb.user]
      exact ⟨Nat.le_add_right _ _, by omega⟩
    have hcopy := hcopied (a - user) (by omega)
    have hused : p + (a - user) ∈ (s.scene s.threads 0).used := ⟨b, hb.mem.1, hb.state, hmem⟩
    rw [Nat.add_sub_cancel' hin.1, ← used_memory hfit hsound hused, hold _ hused] at hcopy
    exact ha.trans hcopy
  · rw [if_neg hin] at ha ⊢
    exact overlay_filled (Nat.min_le_left _ _) hb'.fill ha

/-- An event puts the bytes on its list, and keeps all others that users have. -/
theorem put_spec {e : Event} (hfit : s.Fit False s.threads)
    (hsound : Scene.Sound False marked (s.scene s.threads 0))
    (hcomes : Sanitizer.Comes False marked s ds t) (htells : s.Tells e t ds)
    (hold : ∀ a ∈ (s.scene s.threads 0).used, s.heap.memory a = old a) :
    ∀ a ∈ (t.scene t.threads 0).used, t.heap.memory a = put ⟨s, e, t⟩ old a := by
  intro a hused
  have ha : t.heap.memory a = Deed.allBytes ds old a := by
    rw [used_memory hcomes.fit (hsound.moves hcomes.moves) hused]
    refine hsound.bytes_moves hcomes.moves (fun a ha => ?_) a hused
    exact (used_memory hfit hsound ha).symm.trans (hold a ha)
  cases htells with
  | write | tick | readLog | schedule => exact ha
  | call htold hstacks =>
    cases htold with
    | allocate hu hb =>
        exact overlay_filled (Nat.min_le_left _ _) hb.fill
          (ha.trans (congrFun (bytes_handOut hb.record) a))
    | @calloc _ times size user _ b content hu hrecord =>
        rw [ha]
        show overlay user (times * size) (fun _ => 0) ((Deed.handOut b content).bytes old) a = _
        rw [bytes_handOut hrecord]
        exact Scene.Sound.overlay_congr fun hout => if_neg hout
    | reallocateNone hu hb =>
        exact overlay_filled (Nat.min_le_left _ _) hb.fill
          (ha.trans (congrFun (bytes_handOut hb.record) a))
    | @reallocateZero id p u b _ hu hp hb =>
        have hput : put ⟨s, .call (.reallocate id p 0) (.ok 0), t⟩ old = old := if_neg hp
        rw [hput, ha, allBytes_retires hb]
    -- The new chunk is handed out, then written to, and only then the old one retires.
    | @reallocate _ p size user u b b' content copied rest hu hp hsize hb hb' hcopied =>
        refine put_reallocate hfit hsound hold hp hsize hb hb' hcopied (ha.trans ?_)
        show Deed.allBytes rest (overlay user (min b.record.requestedSize size) copied
          ((Deed.handOut b' content).bytes old)) a = _
        rw [allBytes_retires hb, bytes_handOut hb'.record]
    | freeNone => exact ha
    | free hu hp hb => rwa [allBytes_retires hb] at ha
    | freeWrong =>
        rw [put_refused]
        exact ha
    | unregister hu hev => rwa [allBytes_evicts] at ha
    | refused =>
        rw [put_refused]
        exact ha
    | quiet hop =>
        rw [put_quiet hop]
        exact ha

end Occurrence

/-! ## Whole runs -/

namespace Run

variable {marked : Prop} {past : List Occurrence} {s : Sanitizer}

/-- The bytes that the events of a run have put, each over those before it. -/
def put (past : List Occurrence) : Nat → UInt8 :=
  past.foldl (fun old o => o.put old) fun _ => 0

theorem contents_used (h : Run False marked past s) :
    ∀ a ∈ (s.scene s.threads 0).used, s.heap.memory a = put past a := by
  induction h with
  | @start config log capture now p q s hinit hcalm =>
      obtain ⟨-, hfresh⟩ := begins hinit hcalm
      have hblocks : s.heap.blocks = ∅ := hfresh.heap.blocks
      rintro a ⟨b, hb, -⟩
      change b ∈ s.heap.blocks at hb
      rw [hblocks] at hb
      exact hb.elim
  | snoc h hstep hfails hmarks ih =>
      obtain ⟨ds, hcomes, htells, -⟩ := hstep.comes h.fit h.sound hfails hmarks
      unfold put
      rw [List.foldl_append]
      exact Occurrence.put_spec h.fit h.sound hcomes (htells not_false) ih

/-- As long as no call of the operating system fails, the bytes of every chunk that a user has are
    at any time those that were put there last, though the tables are kept in the same memory: these
    lie elsewhere.  All of it can be written. -/
theorem contents_kept (h : Run False marked past s) :
    (∀ p k, s.heap.userChunk? p = some k → ∀ i < k.record.requestedSize,
        s.heap.memory (p + i) = put past (p + i) ∧ s.heap.pages.Writable (p + i)
          ∧ p + i ∉ s.heap.metadata)
      ∧ ∀ a ∈ s.heap.metadata, s.heap.pages.Writable a := by
  have hwf := h.fit.heap
  have hsound := h.sound
  refine ⟨fun p k hk i hi => ?_, fun a ha => hwf.writable_metadata ha⟩
  obtain ⟨b, hb, rfl, hstate, rfl⟩ := (Redzone.userChunk?_eq_some hwf hsound.fits).mp hk
  have hmem : b.record.userBegin + i ∈ b.user := ⟨Nat.le_add_right _ _, Nat.add_lt_add_left hi _⟩
  have hfits := hsound.fits b hb (by rw [hstate]; decide)
  have hextent := hfits.user_subset hmem
  exact ⟨h.contents_used _ ⟨b, hb, hstate, hmem⟩, hwf.backed _ (hwf.extent_subset hb hextent),
    Set.disjoint_left.mp (hwf.disjoint_metadata hb) hextent⟩

/-- A chunk of zeros of one thread that another has made larger, with four more bytes filled in. -/
theorem contents_kept_moved :
    ∃ past s k, Run False True past s ∧ s.heap.userChunk? 17665200488576 = some k
      ∧ k.record.requestedSize = 20
      ∧ s.heap.memory (17665200488576 + 7) = 0 ∧ s.heap.memory (17665200488576 + 8) = 0xbe
      ∧ s.heap.pages.Writable (17665200488576 + 8) ∧ 17665200488576 + 8 ∉ s.heap.metadata := by
  obtain ⟨past, s, hrun, hcheck⟩ := of_plays False True
    (show Request.plays { maxMallocFillSize := 12 } .counter {}
      [.call .register, .call .register, .call (.calloc 1 2 4),
        .call (.reallocate 0 17660905521280 20)]
      (fun past s => (s.heap.userChunk? 17665200488576).any (·.record.requestedSize == 20)
        && put past (17665200488576 + 7) == 0 && put past (17665200488576 + 8) == 0xbe)
      = true by decide +kernel)
    (by simp [Request.Fits, Operation.Marks])
  simp only [Bool.and_eq_true, beq_iff_eq] at hcheck
  obtain ⟨⟨hchunk, hzero⟩, hfill⟩ := hcheck
  obtain ⟨k, hk, hsize⟩ := (Option.any_eq_true _ _).mp hchunk
  rw [beq_iff_eq] at hsize
  obtain ⟨hbytes, -⟩ := contents_kept hrun
  obtain ⟨hseven, -⟩ := hbytes _ k hk 7 (by omega)
  obtain ⟨height, hwritable, hout⟩ := hbytes _ k hk 8 (by omega)
  exact ⟨past, s, k, hrun, hk, hsize, hseven.trans hzero, height.trans hfill, hwritable, hout⟩

end Run

end GuardedHeap
