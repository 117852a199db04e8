import GuardedHeap.Proofs.Run.States

/-! # Exactness — what the shadow says in every state of a run

    Unless a user marks the shadow by hand, a byte of a block or of a large
    mapping can be accessed if and only if a user has it or it belongs to a
    claimed frame, whatever calls of the operating system fail. -/

namespace GuardedHeap

/-- The bytes of carved blocks and of the mappings of live large blocks. -/
def Heap.ground (h : Heap) : Set Nat :=
  {a | (∃ b ∈ h.blocks, a ∈ b.extent) ∨ ∃ l ∈ h.large.bodies, a ∈ l.mapping}

/-- A user has the byte. -/
def Heap.InUse (h : Heap) (a : Nat) : Prop :=
  ∃ b ∈ h.blocks, b.record.state = .allocated ∧ a ∈ b.user

namespace Heap.WF

variable {h : Heap} {a : Nat}

theorem ground_subset (hwf : h.WF) : h.ground ⊆ h.committed := by
  rintro a (⟨b, hb, ha⟩ | hmapped)
  · exact hwf.extent_subset hb ha
  · exact .inr hmapped

/-- What the heap calls its own is its ground. -/
theorem mem_ground (hwf : h.WF) (hmine : h.isMine a = true) : a ∈ h.ground := by
  rcases Bool.or_eq_true _ _ ▸ hmine with hsmall | hlarge
  · obtain ⟨slot, hslot⟩ := Option.isSome_iff_exists.mp hsmall
    obtain ⟨hcarved, hin, -⟩ := hwf.of_locate? hslot
    exact .inl ⟨_, .inl ⟨slot, hcarved, rfl⟩, hin⟩
  · obtain ⟨l, hl⟩ := Option.isSome_iff_exists.mp hlarge
    obtain ⟨hbody, -, -, hlo, hhi⟩ := Large.WF.of_find? hl
    exact .inr ⟨l.body, hbody, hlo, Nat.lt_of_lt_of_le hhi (hwf.large.placed _ hbody).past_le⟩

/-- The address range ends a page or more before the last word. -/
theorem endAddr_room (hwf : h.WF) : h.space.endAddr + Pages.pageSize ≤ Word.limit := by
  have hlt := hwf.layout.end_lt
  have hdvd : Pages.pageSize ∣ Word.limit - h.space.endAddr :=
    Nat.dvd_sub (by decide) hwf.layout.end_dvd
  have hle := Nat.le_of_dvd (by omega) hdvd
  omega

/-- Asking for a byte of the heap is answered as its shadow byte says. -/
theorem isPoisoned_eq (hwf : h.WF) (ha : a ∈ h.committed) :
    ∃ poisoned, h.shadow.isPoisoned a = .ok poisoned ∧ (poisoned = false ↔ h.shadow.Addressable a) := by
  obtain ⟨hlo, hhi⟩ := hwf.committed_bounds ha
  have hl := hwf.layout
  -- The range ends with a page, so that a granule behind the byte is still below the last word.
  have hroom := hwf.endAddr_room
  have hgranule : Shadow.granule ≤ Pages.pageSize := by decide
  refine Shadow.isPoisoned_eq ?_ (by omega)
  rw [hl.shadow_begin, hl.shadow_end]
  exact ⟨hlo, hhi⟩

end Heap.WF

namespace Sanitizer

variable {failing marked : Prop} {s : Sanitizer} {a : Nat}

/-- What can be accessed is what users have, and what claimed frames have. -/
theorem opened_iff (hsound : Scene.Sound failing marked (s.scene s.threads 0)) (hcalm : ¬ marked) :
    a ∈ s.heap.opened ↔ s.heap.InUse a ∨ a ∈ s.claimed := by
  have hexact : s.heap.opened = (s.scene s.threads 0).used ∪ s.claimed := hsound.exact hcalm
  rw [hexact]
  exact Iff.rfl

theorem isPoisoned_true {poisoned : Bool} (h : s.heap.shadow.isPoisoned a = .ok poisoned) :
    s.isPoisoned a = .ok poisoned := by
  unfold isPoisoned
  rw [h]

/-- A byte of a block that no user has and that backs no fake stack is poisoned. -/
theorem not_opened (hsound : Scene.Sound failing marked (s.scene s.threads 0)) (hcalm : ¬ marked)
    {b : Block} (hb : b ∈ s.heap.blocks) (hstate : b.record.state ≠ .allocated)
    (hback : b ∉ s.backing) (ha : a ∈ b.extent) : a ∉ s.heap.opened := by
  rw [opened_iff hsound hcalm]
  rintro (hused | hclaimed)
  · exact hstate ((hsound.used_iff hb ha).mp hused).1
  · exact hsound.not_claimed hb hback ha hclaimed

end Sanitizer

namespace Run

variable {past : List Occurrence} {s : Sanitizer}

/-- In every state of a run without marks of users, a byte of a block or of a large mapping can be
    accessed if and only if it is one of an allocated chunk or of a claimed frame, and it is
    reported as its shadow byte says.  So freed chunks are poisoned, and so are recycled blocks
    except for the frames claimed in those that back fake stacks. -/
theorem addressable_iff (h : Run True False past s) {a : Nat} (ha : a ∈ s.heap.ground) :
    (s.heap.shadow.Addressable a ↔ s.heap.InUse a ∨ a ∈ s.claimed)
    ∧ (∃ poisoned, s.isPoisoned a = .ok poisoned
      ∧ (poisoned = false ↔ s.heap.shadow.Addressable a))
    ∧ (∀ b ∈ s.heap.blocks, a ∈ b.extent → b.record.state = .quarantined → s.isPoisoned a = .ok true)
    ∧ ∀ b ∈ s.heap.blocks, a ∈ b.extent → b.record.state = .recycled →
      (∀ o ∈ s.fakeStacks, o.stack.begin ≠ b.begin) → s.isPoisoned a = .ok true := by
  have hsound := h.sound
  have hcommitted := h.fit.heap.ground_subset ha
  obtain ⟨poisoned, heq, hpoisoned⟩ := h.fit.heap.isPoisoned_eq hcommitted
  have hopened : a ∈ s.heap.opened ↔ s.heap.shadow.Addressable a := and_iff_right hcommitted
  have hclosed : a ∉ s.heap.opened → s.isPoisoned a = .ok true := by
    intro hnot
    rw [hopened, ← hpoisoned, Bool.not_eq_false] at hnot
    rw [Sanitizer.isPoisoned_true heq, hnot]
  refine ⟨?_, ⟨poisoned, Sanitizer.isPoisoned_true heq, hpoisoned⟩, ?_, ?_⟩
  · rw [← hopened]
    exact Sanitizer.opened_iff hsound not_false
  · intro b hb hin hstate
    refine hclosed (Sanitizer.not_opened hsound not_false hb (by rw [hstate]; decide) ?_ hin)
    intro hback
    have hrecycled := (hsound.backing_block b hback).2.2.1
    rw [hstate] at hrecycled
    exact nomatch hrecycled
  · intro b hb hin hstate hoff
    refine hclosed (Sanitizer.not_opened hsound not_false hb (by rw [hstate]; decide) ?_ hin)
    intro hback
    obtain ⟨o, ho, heq⟩ := List.mem_map.mp (Multiset.mem_coe.mp hback)
    exact hoff o ho (congrArg Block.begin heq)

/-- A byte of a freed chunk and one of a claimed frame, after two calls of the operating system
    have failed. -/
theorem addressable_iff_freed_and_claimed :
    ∃ past s, Run True False past s
      ∧ (17660905521289 ∈ s.heap.ground ∧ s.isPoisoned 17660905521289 = .ok true
        ∧ ¬ s.heap.shadow.Addressable 17660905521289
        ∧ ¬ (s.heap.InUse 17660905521289 ∨ 17660905521289 ∈ s.claimed))
      ∧ (18691698462720 ∈ s.heap.ground ∧ s.isPoisoned 18691698462720 = .ok false
        ∧ s.heap.shadow.Addressable 18691698462720
        ∧ (s.heap.InUse 18691698462720 ∨ 18691698462720 ∈ s.claimed)) := by
  obtain ⟨past, s, hrun, hcheck⟩ := of_plays True False
    (show Request.plays {} .counter {}
      [.call .register, .call (.allocateFrame 0 3 400 28672), .call (.allocate 0 10 8 .malloc 0),
        .schedule [⟨.mprotect, 12, 0⟩], .call (.allocate 0 1048576 8 .malloc 0),
        .call (.allocate 0 1048576 8 .malloc 0), .schedule [⟨.madvise, 12, 0⟩],
        .call (.free 0 17660905521280 .malloc 0)]
      (fun _ s => s.heap.isMine 17660905521289 && s.heap.isMine 18691698462720
        && s.isPoisoned 17660905521289 == .ok true
        && s.isPoisoned 18691698462720 == .ok false) = true by decide +kernel)
    (by simp [Request.Fits, Operation.Marks])
  simp only [Bool.and_eq_true, beq_iff_eq] at hcheck
  obtain ⟨⟨⟨hmine, hmine'⟩, hfreed⟩, hclaimed⟩ := hcheck
  have hground := hrun.fit.heap.mem_ground hmine
  have hground' := hrun.fit.heap.mem_ground hmine'
  obtain ⟨hiff, ⟨poisoned, heq, hpoisoned⟩, -⟩ := addressable_iff hrun hground
  obtain ⟨hiff', ⟨poisoned', heq', hpoisoned'⟩, -⟩ := addressable_iff hrun hground'
  refine ⟨past, s, hrun, ⟨hground, hfreed, ?_⟩, ⟨hground', hclaimed, ?_⟩⟩
  · have hnot : ¬ s.heap.shadow.Addressable 17660905521289 := by
      rw [← hpoisoned, Except.ok.inj (heq.symm.trans hfreed)]
      decide
    exact ⟨hnot, fun h => hnot (hiff.mpr h)⟩
  · have hyes := hpoisoned'.mp (Except.ok.inj (heq'.symm.trans hclaimed))
    exact ⟨hyes, hiff'.mp hyes⟩

end Run

end GuardedHeap
