import GuardedHeap.Proofs.FakeStack.Lookup
import GuardedHeap.Proofs.Run.Reports
import GuardedHeap.Proofs.Sanitizer.Teardown

/-! # Lookup in runs — whose frame an address lies in

    The fake stacks of a run lie in blocks of their own, one for a thread
    that has one, and they go with their threads.  So an address lies in the
    fake stack of one registered thread at most, and the first fake stack in
    which a frame is found is that of this thread; no user's bytes are there
    (`Run.lookup_inverts_placement`). -/

namespace GuardedHeap

namespace Sanitizer

variable {failing marked : Prop} {s : Sanitizer} {o o' : OwnedStack} {addr : Nat}

/-- A thread is asked for its fake stack by its id. -/
theorem Fit.fakeStackOf?_eq (hfit : s.Fit failing s.threads) (ho : o ∈ s.fakeStacks) :
    s.fakeStackOf? o.owner = some o.stack := by
  unfold fakeStackOf?
  cases hfind : s.fakeStacks.find? (·.owner == o.owner) with
  | none => exact absurd (beq_self_eq_true o.owner) (List.find?_eq_none.mp hfind o ho)
  | some o' =>
      obtain rfl := hfit.stack_unique (List.mem_of_find?_eq_some hfind) ho (by simpa using List.find?_some hfind)
      rfl

/-- Fake stacks do not overlap. -/
theorem stack_eq_of_mem (hfit : s.Fit failing s.threads)
    (hsound : Scene.Sound failing marked (s.scene s.threads 0)) (ho : o ∈ s.fakeStacks)
    (ho' : o' ∈ s.fakeStacks) (ha : addr ∈ o.stack.range) (ha' : addr ∈ o'.stack.range) : o = o' := by
  rw [← FakeStack.extent_block (hfit.stack o ho)] at ha
  rw [← FakeStack.extent_block (hfit.stack o' ho')] at ha'
  obtain ⟨hblock, -⟩ := hsound.backing_block _ (mem_backing ho)
  obtain ⟨hblock', -⟩ := hsound.backing_block _ (mem_backing ho')
  exact block_unique hsound ho ho' (hsound.tiled.eq_of_mem hblock hblock' ha ha')

/-- The fake stacks of a sanitizer lie in the address space. -/
theorem finds_of_mem (hfit : s.Fit failing s.threads)
    (hsound : Scene.Sound failing marked (s.scene s.threads 0)) (ho : o ∈ s.fakeStacks) : o.stack.Finds := by
  have hpast := (view_wf hfit hsound ho).past_le
  rw [hfit.heap.layout.shadow_end] at hpast
  exact (hfit.stack o ho).finds (Nat.lt_of_le_of_lt hpast hfit.heap.layout.end_lt)

/-- The frames of all fake stacks are searched, and found in the only one that the address lies in. -/
theorem frameAt?_eq (hfit : s.Fit failing s.threads)
    (hsound : Scene.Sound failing marked (s.scene s.threads 0)) (ho : o ∈ s.fakeStacks)
    (ha : addr ∈ o.stack.range) : s.frameAt? addr = o.stack.frameAt? addr := by
  obtain ⟨frame, hframe, -⟩ := (finds_of_mem hfit hsound ho).inside addr ha
  cases hfound : s.frameAt? addr with
  | none =>
      have hnone := List.findSome?_eq_none_iff.mp hfound o ho
      exact nomatch hframe.symm.trans hnone
  | some frame' =>
      obtain ⟨o', ho', hframe'⟩ := List.exists_of_findSome?_eq_some hfound
      have ha' : addr ∈ o'.stack.range := by
        by_contra hout
        rw [(finds_of_mem hfit hsound ho').outside addr hout] at hframe'
        exact nomatch hframe'
      obtain rfl := stack_eq_of_mem hfit hsound ho ho' ha ha'
      exact hframe'.symm

/-- The fake stack of a registered thread has the address. -/
def StackHas (s : Sanitizer) (t : Thread) (f : FakeStack) (addr : Nat) : Prop :=
  t ∈ s.threads ∧ s.fakeStackOf? t.id = some f ∧ addr ∈ f.range

/-- Addresses are in the fake stacks of threads, or in none. -/
structure FindsFrames (s : Sanitizer) : Prop where
  isSome_iff : ∀ addr, (s.frameAt? addr).isSome = true ↔ ∃ t f, s.StackHas t f addr
  /-- There is one thread at most with this address, … -/
  unique : ∀ {t u f g addr}, s.StackHas t f addr → s.StackHas u g addr → t = u ∧ f = g
  /-- … and the frame is found that its fake stack has there. -/
  frame : ∀ {t f addr}, s.StackHas t f addr → f.Finds ∧ s.frameAt? addr = f.frameAt? addr
  /-- No user's bytes are in a fake stack. -/
  disjoint : ∀ b ∈ s.heap.chunks, ∀ {t f}, t ∈ s.threads → s.fakeStackOf? t.id = some f →
    Disjoint b.user f.range

end Sanitizer

namespace Run

variable {marked : Prop} {past : List Occurrence} {s : Sanitizer}

/-- Every fake stack is that of a registered thread. -/
theorem owner_mem (h : Run False marked past s) : ∀ o ∈ s.fakeStacks, ∃ t ∈ s.threads, t.id = o.owner := by
  have howned := h.lasts Sanitizer.lasting_owned fun s hfresh o ho => by
    rw [hfresh.fakeStacks] at ho
    exact nomatch ho
  exact fun o ho => List.mem_map.mp (howned o ho)

theorem findsFrames (h : Run False marked past s) : s.FindsFrames where
  isSome_iff addr := by
    constructor
    · intro hsome
      obtain ⟨frame, hframe⟩ := Option.isSome_iff_exists.mp hsome
      obtain ⟨o, ho, hfound⟩ := List.exists_of_findSome?_eq_some hframe
      obtain ⟨t, ht, hid⟩ := h.owner_mem o ho
      refine ⟨t, o.stack, ht, hid ▸ h.fit.fakeStackOf?_eq ho, ?_⟩
      by_contra hout
      rw [(Sanitizer.finds_of_mem h.fit h.sound ho).outside addr hout] at hfound
      exact nomatch hfound
    · rintro ⟨t, f, -, hf, ha⟩
      obtain ⟨o, ho, -, rfl⟩ := Sanitizer.of_fakeStackOf? hf
      obtain ⟨frame, hframe, -⟩ := (Sanitizer.finds_of_mem h.fit h.sound ho).inside addr ha
      rw [Sanitizer.frameAt?_eq h.fit h.sound ho ha, hframe]
      rfl
  unique := by
    rintro t u f g addr ⟨ht, hf, ha⟩ ⟨hu, hg, ha'⟩
    obtain ⟨o, ho, howner, rfl⟩ := Sanitizer.of_fakeStackOf? hf
    obtain ⟨o', ho', howner', rfl⟩ := Sanitizer.of_fakeStackOf? hg
    obtain rfl := Sanitizer.stack_eq_of_mem h.fit h.sound ho ho' ha ha'
    exact ⟨List.inj_on_of_nodup_map h.fit.ids_nodup ht hu (howner.symm.trans howner'), rfl⟩
  frame := by
    rintro t f addr ⟨-, hf, ha⟩
    obtain ⟨o, ho, -, rfl⟩ := Sanitizer.of_fakeStackOf? hf
    exact ⟨Sanitizer.finds_of_mem h.fit h.sound ho, Sanitizer.frameAt?_eq h.fit h.sound ho ha⟩
  disjoint b hb t f _ hf := by
    obtain ⟨o, ho, -, rfl⟩ := Sanitizer.of_fakeStackOf? hf
    refine Set.disjoint_left.mpr fun a ha => ?_
    have hextent := (h.sound.fits b hb.1 hb.2).user_subset ha
    exact Sanitizer.notMem_range h.fit h.sound hb hextent _ (List.mem_map_of_mem ho)

/-- In a fake stack of any size, after any calls on it, an address is looked up without leaving its tables, and
    what is found is the only frame that it is in, with the flag and the owner that the calls tell; outside
    nothing is found.  In a run without failures of the operating system, frames are found exactly in the fake
    stacks of registered threads, of which an address has one at most, and no user has bytes there. -/
theorem lookup_inverts_placement (marked : Prop) :
    (∀ {past v}, FakeStack.StackRun marked past v →
      FakeStack.minSizeLog ≤ v.stack.sizeLog ∧ v.stack.sizeLog ≤ FakeStack.maxSizeLog
      ∧ v.stack.Finds
      ∧ ∀ addr frame, v.stack.Holds addr frame →
        past.owner? frame.addr = if frame.allocated = true then some frame.realStack else none)
    ∧ ∀ {past s}, Run False marked past s → s.FindsFrames :=
  ⟨fun h => ⟨h.tells.held.wf.stack.min_le, h.tells.held.wf.stack.le_max, h.finds,
    fun _ _ => h.owner?_of_holds⟩, findsFrames⟩

/-- The last byte of a fake stack is in the only frame of its largest class; and an address in the frame of the
    second of two threads is found to be there, apart from the bytes that a user has. -/
theorem lookup_inverts_placement_played :
    (∃ past v frame, FakeStack.StackRun False past v ∧ v.stack.sizeLog = 16
      ∧ v.stack.frameAt? (v.stack.past - 1) = some frame ∧ v.stack.Holds (v.stack.past - 1) frame
      ∧ frame.classId = 10 ∧ past.owner? frame.addr = some 0x1000)
    ∧ ∃ past s t f b, Run False False past s ∧ s.StackHas t f 18691698401290 ∧ t.id = 1
      ∧ s.frameAt? 18691698401290 = some ⟨18691698401280, 0, 0, 0x9000, true⟩
      ∧ b ∈ s.heap.chunks ∧ b.record.userBegin = 17665200488576 ∧ Disjoint b.user f.range := by
  constructor
  · obtain ⟨past, v, hrun, hcheck⟩ := FakeStack.StackRun.of_played False
      (show (FakeStack.StackRun.played 16 [.allocate 10 0x1000]).any
        (fun r => decide (r.2.stack.sizeLog = 16 ∧ r.2.stack.past - 1 ∈ Set.Ico r.2.stack.begin r.2.stack.past
          ∧ r.2.stack.frameAt? (r.2.stack.past - 1) = some ⟨17592220258304, 10, 0, 0x1000, true⟩)) = true by
        decide +kernel)
    obtain ⟨hlog, hlast, hframe⟩ := of_decide_eq_true hcheck
    obtain ⟨-, -, hfinds, howner⟩ := (lookup_inverts_placement False).1 hrun
    obtain ⟨frame, hframe', hholds⟩ := hfinds.inside (v.stack.past - 1) hlast
    obtain rfl := Option.some.inj (hframe.symm.trans hframe')
    exact ⟨past, v, _, hrun, hlog, hframe, hholds, rfl, howner _ _ hholds⟩
  · obtain ⟨past, s, hrun, hcheck⟩ := of_plays False False
      (show Request.plays { fakeStackSizeLog := 16 } .counter {}
        [.call .register, .call .register, .call (.allocateFrame 1 0 10 0x9000),
          .call (.allocate 1 20 8 .malloc 0)]
        (fun _ s => decide (s.frameAt? 18691698401290 = some ⟨18691698401280, 0, 0, 0x9000, true⟩
          ∧ (s.thread? 1).isSome = true ∧ (s.fakeStackOf? 1).any (·.begin == 18691698401280) = true
          ∧ (s.fakeStackOf? 1).any (·.past == 18691699122176) = true
          ∧ s.heap.chunk? 17665200488576 = some ⟨17665200488448, .small 17,
            .recordAllocation ⟨17665200488576, 20, 288, ⟨1, 1⟩, .malloc⟩⟩)) = true by decide +kernel)
      (by simp [Request.Fits, Operation.Marks])
    obtain ⟨hframe, hthread, hbegin, hpast, hchunk⟩ := of_decide_eq_true hcheck
    obtain ⟨-, -, -, hdisjoint⟩ := (lookup_inverts_placement False).2 hrun
    obtain ⟨t, ht⟩ := Option.isSome_iff_exists.mp hthread
    obtain ⟨hmem, hid⟩ := Sanitizer.Client.of_thread? ht
    obtain ⟨f, hf, hbegin⟩ := (Option.any_eq_true _ _).mp hbegin
    rw [hf, Option.any_some, beq_iff_eq] at hpast
    rw [beq_iff_eq] at hbegin
    obtain ⟨b, hb, hrecord, -⟩ := hrun.chunk_of hchunk (by decide)
    have hstack : s.fakeStackOf? t.id = some f := hid.symm ▸ hf
    refine ⟨past, s, t, f, b, hrun, ⟨hmem, hstack, ?_⟩, hid, hframe, hb, congrArg (·.userBegin) hrecord,
      hdisjoint b hb hmem hstack⟩
    exact ⟨by rw [hbegin]; decide, by rw [hpast]; decide⟩

end Run

end GuardedHeap
