import GuardedHeap.Proofs.Run.States

/-! # Accounts — every block is held once

    As long as no call of the operating system fails, every block of a kind
    is in exactly one place: free in a region or in a cache, waiting in a
    batch or in the queue, with a user, or behind a fake stack.  The
    accounts are multisets, so that a block held twice would show. -/

namespace GuardedHeap

open Quarantine (Entry)

namespace Scene

variable {failing marked : Prop} {s : Scene} {k : BlockClass}

/-- Where blocks of a kind wait. -/
def waitingAt (waiting : Multiset Entry) (kindOf : Nat → BlockClass) (k : BlockClass) :
    Multiset Nat :=
  (waiting.filter fun e => kindOf e.block = k).map (·.block)

/-- Where blocks of a kind back fake stacks. -/
def backingAt (backing : Multiset Block) (k : BlockClass) : Multiset Nat :=
  (backing.filter fun b => b.kind = k).map (·.begin)

/-- Blocks that differ in something begin at different addresses. -/
theorem Sound.disjoint_places (h : Sound failing marked s) {P Q : Block → Prop} {m m' : Multiset Nat}
    (hm : ∀ p ∈ m, ∃ b ∈ s.blocks, b.begin = p ∧ P b) (hm' : ∀ p ∈ m', ∃ b ∈ s.blocks, b.begin = p ∧ Q b)
    (hne : ∀ b, P b → ¬ Q b) : Disjoint m m' := by
  refine Multiset.disjoint_left.mpr fun hp hp' => ?_
  obtain ⟨b, hb, rfl, hP⟩ := hm _ hp
  obtain ⟨c, hc, hbegin, hQ⟩ := hm' _ hp'
  obtain rfl := h.tiled.eq_of_begin hc hb hbegin
  exact hne c hP hQ

theorem Sound.mem_waitingAt (h : Sound failing marked s) {kindOf : Nat → BlockClass}
    (hkind : ∀ b ∈ s.blocks, kindOf b.begin = b.kind) {p : Nat} :
    p ∈ waitingAt s.waiting kindOf k ↔
      ∃ b ∈ s.blocks, b.kind = k ∧ b.begin = p ∧ b.entry ∈ s.waiting := by
  constructor
  · intro hp
    obtain ⟨e, he, rfl⟩ := Multiset.mem_map.mp hp
    obtain ⟨hin, hclass⟩ := Multiset.mem_filter.mp he
    obtain ⟨b, hb, rfl, -⟩ := h.waiting_block e hin
    exact ⟨b, hb, (hkind b hb).symm.trans hclass, rfl, hin⟩
  · rintro ⟨b, hb, rfl, rfl, hin⟩
    exact Multiset.mem_map.mpr ⟨b.entry, Multiset.mem_filter.mpr ⟨hin, hkind b hb⟩, rfl⟩

theorem Sound.waitingAt_nodup (h : Sound failing marked s) (kindOf : Nat → BlockClass) :
    (waitingAt s.waiting kindOf k).Nodup := by
  refine (h.waiting_nodup.filter _).map_on fun e he e' he' heq => ?_
  obtain ⟨b, hb, rfl, -⟩ := h.waiting_block e (Multiset.mem_of_mem_filter he)
  exact (h.waiting_spec hb (Multiset.mem_of_mem_filter he') heq.symm).1

theorem mem_backingAt {backing : Multiset Block} {p : Nat} :
    p ∈ backingAt backing k ↔ ∃ b ∈ backing, b.kind = k ∧ b.begin = p := by
  simp only [backingAt, Multiset.mem_map, Multiset.mem_filter, and_assoc]

theorem Sound.backingAt_nodup (h : Sound failing marked s) : (backingAt s.backing k).Nodup := by
  refine (h.backing_nodup.filter _).map_on fun b hb c hc heq => ?_
  exact h.tiled.eq_of_begin (h.backing_block b (Multiset.mem_of_mem_filter hb)).1
    (h.backing_block c (Multiset.mem_of_mem_filter hc)).1 heq

/-- No block is in two places: the state of its record and what it backs tell where it is. -/
theorem Sound.places_nodup (h : Sound failing marked s) {kindOf : Nat → BlockClass}
    (hkind : ∀ b ∈ s.blocks, kindOf b.begin = b.kind) {live : Multiset Nat} (hlive_nodup : live.Nodup)
    (hlive : ∀ p ∈ live, ∃ b ∈ s.blocks, b.begin = p ∧ b.record.state = .allocated) :
    (s.idle k + waitingAt s.waiting kindOf k + live + backingAt s.backing k).Nodup := by
  have hidle : ∀ p ∈ s.idle k,
      ∃ b ∈ s.blocks, b.begin = p ∧ b.record.state = .recycled ∧ b ∉ s.backing := by
    intro p hp
    obtain ⟨b, hb, rfl, rfl, hstate⟩ := h.idle_block k p hp
    exact ⟨b, hb, rfl, hstate, h.not_backing_of_idle hp⟩
  have hwaiting : ∀ p ∈ waitingAt s.waiting kindOf k,
      ∃ b ∈ s.blocks, b.begin = p ∧ b.record.state = .quarantined := by
    intro p hp
    obtain ⟨b, hb, -, hbegin, hin⟩ := (h.mem_waitingAt hkind).mp hp
    exact ⟨b, hb, hbegin, (h.waiting_spec hb hin rfl).2⟩
  have hbacking : ∀ p ∈ backingAt s.backing k,
      ∃ b ∈ s.blocks, b.begin = p ∧ b.record.state = .recycled ∧ b ∈ s.backing := by
    intro p hp
    obtain ⟨b, hin, -, hbegin⟩ := mem_backingAt.mp hp
    obtain ⟨hb, -, hstate, -⟩ := h.backing_block b hin
    exact ⟨b, hb, hbegin, hstate, hin⟩
  refine Multiset.nodup_add.mpr ⟨Multiset.nodup_add.mpr ⟨Multiset.nodup_add.mpr
    ⟨h.idle_nodup k, h.waitingAt_nodup kindOf, ?_⟩, hlive_nodup, ?_⟩, h.backingAt_nodup, ?_⟩
  · exact h.disjoint_places hidle hwaiting fun b hb hb' => by simp [hb'] at hb
  · refine Multiset.disjoint_add_left.mpr ⟨?_, ?_⟩
    · exact h.disjoint_places hidle hlive fun b hb hb' => by simp [hb'] at hb
    · exact h.disjoint_places hwaiting hlive fun b hb hb' => by simp [hb'] at hb
  · refine Multiset.disjoint_add_left.mpr ⟨Multiset.disjoint_add_left.mpr ⟨?_, ?_⟩, ?_⟩
    · exact h.disjoint_places hidle hbacking fun b hb hb' => hb.2 hb'.2
    · exact h.disjoint_places hwaiting hbacking fun b hb hb' => by simp [hb'.1] at hb
    · exact h.disjoint_places hlive hbacking fun b hb hb' => by simp [hb'.1] at hb

/-- The holders of blocks of a kind share these blocks out: all blocks of the kind, and those with
    users, are given by lists of the heap. -/
theorem Sound.accounts (h : Sound failing marked s) (hcalm : ¬ failing) {kindOf : Nat → BlockClass}
    (hkind : ∀ b ∈ s.blocks, kindOf b.begin = b.kind) {all live : Multiset Nat}
    (hall_nodup : all.Nodup)
    (hall : ∀ p, p ∈ all ↔ ∃ b ∈ s.blocks, b.kind = k ∧ b.begin = p)
    (hlive_nodup : live.Nodup)
    (hlive : ∀ p, p ∈ live ↔
      ∃ b ∈ s.blocks, b.kind = k ∧ b.begin = p ∧ b.record.state = .allocated) :
    all = s.idle k + waitingAt s.waiting kindOf k + live + backingAt s.backing k := by
  refine (hall_nodup.ext (h.places_nodup hkind hlive_nodup fun p hp => ?_)).mpr fun p => ?_
  · obtain ⟨b, hb, -, hbegin, hstate⟩ := (hlive p).mp hp
    exact ⟨b, hb, hbegin, hstate⟩
  rw [hall, Multiset.mem_add, Multiset.mem_add, Multiset.mem_add, h.mem_waitingAt hkind, hlive, mem_backingAt]
  constructor
  · rintro ⟨b, hb, rfl, rfl⟩
    cases hstate : b.record.state with
    | recycled =>
        rcases h.recycled_held hcalm b hb hstate with hin | hin
        · exact .inl (.inl (.inl hin))
        · exact .inr ⟨b, hin, rfl, rfl⟩
    | quarantined =>
        exact .inl (.inl (.inr ⟨b, hb, rfl, rfl, h.quarantined_held hcalm b hb hstate⟩))
    | allocated => exact .inl (.inr ⟨b, hb, rfl, rfl, hstate⟩)
  · rintro (((hp | ⟨b, hb, hk, hbegin, -⟩) | ⟨b, hb, hk, hbegin, -⟩) | ⟨b, hback, hk, hbegin⟩)
    · obtain ⟨b, hb, hbegin, hk, -⟩ := h.idle_block k p hp
      exact ⟨b, hb, hk, hbegin⟩
    · exact ⟨b, hb, hk, hbegin⟩
    · exact ⟨b, hb, hk, hbegin⟩
    · exact ⟨b, (h.backing_block b hback).1, hk, hbegin⟩

end Scene

namespace Heap

/-- The blocks carved from the region of a class, lowest first. -/
def carved (h : Heap) (c : Nat) : List Nat :=
  match h.regions[c]? with
  | some r =>
    (List.range (r.allocatedUser / h.classes.size c)).map fun i => h.slotBegin ⟨c, i⟩
  | none => []

/-- The large blocks in the list. -/
def linked (h : Heap) : List Nat :=
  h.large.bodies.map (·.user)

/-- The state of the chunk in a block. -/
def stateAt? (h : Heap) (p : Nat) : Option ChunkState :=
  (h.record? p).map (·.state)

/-- Those of some blocks that users have. -/
def live (h : Heap) (blocks : List Nat) : List Nat :=
  blocks.filter fun p => h.stateAt? p = some .allocated

variable {h : Heap}

theorem WF.mem_carved (hwf : h.WF) {c p : Nat} :
    p ∈ h.carved c ↔ ∃ b ∈ h.blocks, b.kind = .small c ∧ b.begin = p := by
  unfold carved
  constructor
  · intro hp
    cases hr : h.regions[c]? with
    | none =>
        rw [hr] at hp
        exact nomatch hp
    | some r =>
        rw [hr] at hp
        obtain ⟨i, hi, rfl⟩ := List.mem_map.mp hp
        have hlt := List.mem_range.mp hi
        refine ⟨h.slotBlock ⟨c, i⟩, .inl ⟨⟨c, i⟩, ⟨r, hr, ?_⟩, rfl⟩, rfl, rfl⟩
        exact (Nat.le_div_iff_mul_le (hwf.size_pos (lt_size_of_region hr))).mp hlt
  · rintro ⟨b, ⟨slot, ⟨r, hr, hle⟩, rfl⟩ | ⟨l, hl, rfl⟩, hkind, rfl⟩
    · obtain ⟨c', i⟩ := slot
      obtain rfl := BlockClass.small.inj hkind
      dsimp only at hr hle
      rw [hr]
      refine List.mem_map.mpr ⟨i, List.mem_range.mpr ?_, rfl⟩
      exact (Nat.le_div_iff_mul_le (hwf.size_pos (lt_size_of_region hr))).mpr hle
    · exact nomatch hkind

theorem WF.carved_nodup (hwf : h.WF) (c : Nat) : (h.carved c).Nodup := by
  unfold carved
  cases hr : h.regions[c]? with
  | none => exact List.nodup_nil
  | some r =>
      refine (List.nodup_range.map_on ?_)
      intro i _ j _ heq
      have hpos := hwf.size_pos (lt_size_of_region hr)
      exact Nat.eq_of_mul_eq_mul_right hpos (Nat.add_left_cancel heq)

theorem WF.mem_linked {p : Nat} :
    p ∈ h.linked ↔ ∃ b ∈ h.blocks, b.kind = .large ∧ b.begin = p := by
  unfold linked
  constructor
  · intro hp
    obtain ⟨l, hl, rfl⟩ := List.mem_map.mp hp
    exact ⟨l.block, .inr ⟨l, hl, rfl⟩, rfl, rfl⟩
  · rintro ⟨b, ⟨slot, -, rfl⟩ | ⟨l, hl, rfl⟩, hkind, rfl⟩
    · exact nomatch hkind
    · exact List.mem_map.mpr ⟨l, hl, rfl⟩

theorem WF.linked_nodup (hwf : h.WF) : h.linked.Nodup :=
  hwf.large.users_nodup

/-- The state found at a block is that of its record. -/
theorem WF.stateAt?_eq (hwf : h.WF) {b : Block} (hb : b ∈ h.blocks) :
    h.stateAt? b.begin = some b.record.state := by
  unfold stateAt?
  rw [(hwf.begin_spec hb).2.2]
  rfl

theorem WF.mem_live (hwf : h.WF) {blocks : List Nat} {k : BlockClass}
    (hblocks : ∀ p, p ∈ blocks ↔ ∃ b ∈ h.blocks, b.kind = k ∧ b.begin = p) {p : Nat} :
    p ∈ h.live blocks ↔ ∃ b ∈ h.blocks, b.kind = k ∧ b.begin = p ∧ b.record.state = .allocated := by
  unfold live
  rw [List.mem_filter, hblocks, decide_eq_true_eq]
  constructor
  · rintro ⟨⟨b, hb, hkind, rfl⟩, hstate⟩
    rw [hwf.stateAt?_eq hb] at hstate
    exact ⟨b, hb, hkind, rfl, Option.some.inj hstate⟩
  · rintro ⟨b, hb, hkind, rfl, hstate⟩
    refine ⟨⟨b, hb, hkind, rfl⟩, ?_⟩
    rw [hwf.stateAt?_eq hb, hstate]

end Heap

namespace Sanitizer

variable {failing marked : Prop} {s : Sanitizer}

/-- The blocks of a class that are free in the region or in a cache of a thread. -/
def idleSmall (s : Sanitizer) (c : Nat) : Multiset Nat :=
  (s.heap.free c : Multiset Nat) + (s.threads.flatMap (·.cache.held c) : Multiset Nat)

/-- Where freed chunks of a kind wait. -/
def waitingAt (s : Sanitizer) (k : BlockClass) : Multiset Nat :=
  Scene.waitingAt s.waiting s.heap.blockClass k

/-- The blocks of a class are free, waiting, or with users. -/
theorem small_accounts (hfit : s.Fit failing s.threads)
    (hsound : Scene.Sound failing marked (s.scene s.threads 0)) (hcalm : ¬ failing) (c : Nat) :
    (s.heap.carved c : Multiset Nat) =
      s.idleSmall c + s.waitingAt (.small c) + s.heap.live (s.heap.carved c) := by
  have hwf := hfit.heap
  have haccounts := hsound.accounts (k := .small c) hcalm (fun b hb => (hwf.begin_spec hb).1)
    (Multiset.coe_nodup.mpr (hwf.carved_nodup c)) (fun p => hwf.mem_carved)
    (Multiset.coe_nodup.mpr ((hwf.carved_nodup c).filter _))
    fun p => hwf.mem_live fun p => hwf.mem_carved
  rw [haccounts]
  have hbacking : Scene.backingAt (s.scene s.threads 0).backing (.small c) = 0 := by
    refine Multiset.map_eq_zero.mpr (Multiset.filter_eq_nil.mpr fun b hb hkind => ?_)
    rw [(hsound.backing_block b hb).2.1] at hkind
    exact nomatch hkind
  rw [hbacking, add_zero]
  unfold waitingAt
  rw [← waiting_scene]
  rfl

/-- The large blocks wait, are with users, or back fake stacks. -/
theorem large_accounts (hfit : s.Fit failing s.threads)
    (hsound : Scene.Sound failing marked (s.scene s.threads 0)) (hcalm : ¬ failing) :
    (s.heap.linked : Multiset Nat) =
      s.waitingAt .large + s.heap.live s.heap.linked
        + (s.fakeStacks.map (·.stack.begin) : Multiset Nat) := by
  have hwf := hfit.heap
  have haccounts := hsound.accounts (k := .large) hcalm (fun b hb => (hwf.begin_spec hb).1)
    (Multiset.coe_nodup.mpr hwf.linked_nodup) (fun p => Heap.WF.mem_linked)
    (Multiset.coe_nodup.mpr (hwf.linked_nodup.filter _))
    fun p => hwf.mem_live fun p => Heap.WF.mem_linked
  rw [haccounts]
  have hidle : (s.scene s.threads 0).idle .large = 0 := rfl
  have hbacking : Scene.backingAt (s.scene s.threads 0).backing .large =
      (s.fakeStacks.map (·.stack.begin) : Multiset Nat) := by
    unfold Scene.backingAt
    rw [Multiset.filter_eq_self.mpr fun b hb => (hsound.backing_block b hb).2.1]
    show Multiset.map _ (s.fakeStacks.map (·.stack.block) : Multiset Block) = _
    rw [Multiset.map_coe, List.map_map]
    rfl
  rw [hbacking, hidle, zero_add]
  unfold waitingAt
  rw [← waiting_scene]
  rfl

/-- An allocation that was told hands out a block apart from all chunks, and the user keeps it. -/
theorem Told.handed_out {op : Operation} {user : Nat} {ds : List Deed} {t : Sanitizer}
    (hsound : Scene.Sound failing marked (s.scene s.threads 0)) (hop : op.Allocates)
    (h : s.Told op (.ok user) ds)
    (hmoves : Moves failing marked (s.scene s.threads 0) ds (t.scene t.threads 0)) :
    ∃ b ∈ t.heap.blocks, b.record.userBegin = user ∧ b.record.state = .allocated
      ∧ ∀ c ∈ s.heap.chunks, Disjoint c.extent b.extent := by
  -- The block is handed out first; if another chunk is freed then, it is not this one.
  have hstays : ∀ {b : Block} {content : Nat → UInt8} {es : List Deed},
      ds = .handOut b content :: es → (∀ r, .retire r ∈ es → r.begin ≠ b.begin) →
      b.record.userBegin = user → ∃ b ∈ t.heap.blocks, b.record.userBegin = user
        ∧ b.record.state = .allocated ∧ ∀ c ∈ s.heap.chunks, Disjoint c.extent b.extent := by
    rintro b content es rfl hkept huser
    obtain ⟨u, v, hbefore, hmove, hafter⟩ := hmoves.first_deed
    have hallowed := hsound.allowed_first hmoves
    have hsound_u := hsound.moves hbefore
    have hb : b ∈ v.chunks := by
      rw [(hsound_u.chunks_move hmove).1]
      exact Set.mem_insert _ _
    have hin := (hsound_u.move hmove).allocated_stays hafter hb hallowed.1 hkept
    exact ⟨b, hin.1, huser, hallowed.1, hallowed.2.2⟩
  cases h with
  | allocate ht hb => exact hstays rfl nofun (congrArg ChunkRecord.userBegin hb.record)
  | calloc ht hrecord =>
      refine hstays rfl (fun r hr => ?_) (congrArg ChunkRecord.userBegin hrecord)
      exact nomatch List.mem_singleton.mp hr
  | reallocateNone ht hb => exact hstays rfl nofun (congrArg ChunkRecord.userBegin hb.record)
  | reallocateZero ht hp hb => exact (hop.elim hp fun hsize => hsize rfl).elim
  | @reallocate id p size user t b b' content copied es ht hp hsize hb hb' hcopied =>
      refine hstays rfl (fun r hr => ?_) (congrArg ChunkRecord.userBegin hb'.record)
      obtain ⟨ev, -, rfl⟩ := hb.deeds
      rcases List.mem_cons.mp hr with hr | hr
      · exact nomatch hr
      rcases List.mem_cons.mp hr with hr | hr
      · obtain rfl := Deed.retire.inj hr
        have hdisjoint := (hsound.allowed_first hmoves).2.2 b hb.mem
        intro heq
        have hsize := hsound.tiled.solid b hb.mem.1
        have hfits := (hsound.allowed_first hmoves).2.1
        refine Set.disjoint_left.mp hdisjoint (Block.begin_mem_extent hsize) ?_
        have hbegin : b.begin = b'.begin := heq
        rw [hbegin]
        exact ⟨Nat.le_refl _, Nat.lt_of_le_of_lt hfits.begin_le
          (Nat.lt_of_le_of_lt (Nat.le_add_right _ _) hfits.lt_past)⟩
      · obtain ⟨e, -, hr⟩ := List.mem_map.mp hr
        exact nomatch hr
  | freeNone | free | unregister => exact hop.elim
  | quiet hopc => cases op <;> first | exact hop.elim | exact absurd trivial hopc

end Sanitizer

namespace Run

variable {marked : Prop} {past : List Occurrence} {s : Sanitizer}

/-- As long as no call of the operating system fails, every block is held once: those of a size
    class are free in the region or in a cache, wait in a batch or in the queue, or are with users;
    the large ones wait, are with users, or back fake stacks.  What an allocation returned was none
    of the chunks that there were, and backed no fake stack. -/
theorem blocks_held_once (h : Run False marked past s) :
    (∀ c, (s.heap.carved c).Nodup
      ∧ (s.heap.carved c : Multiset Nat) =
        s.idleSmall c + s.waitingAt (.small c) + s.heap.live (s.heap.carved c)
      ∧ (∀ p ∈ s.idleSmall c, s.heap.stateAt? p = some .recycled))
    ∧ (s.heap.linked.Nodup
      ∧ (s.heap.linked : Multiset Nat) =
        s.waitingAt .large + s.heap.live s.heap.linked
          + (s.fakeStacks.map (·.stack.begin) : Multiset Nat))
    ∧ (∀ k, ∀ p ∈ s.waitingAt k, s.heap.stateAt? p = some .quarantined)
    ∧ ∀ o ∈ past, ∀ op user, o.event = .call op (.ok user) → op.Allocates →
      ∃ b ∈ o.after.heap.blocks, b.record.userBegin = user ∧ b.record.state = .allocated
        ∧ ∀ c ∈ o.before.heap.blocks,
          c.record.state ≠ .recycled ∨ c.begin ∈ o.before.fakeStacks.map (·.stack.begin) →
          Disjoint c.extent b.extent := by
  have hwf := h.fit.heap
  have hsound := h.sound
  refine ⟨fun c => ⟨hwf.carved_nodup c, Sanitizer.small_accounts h.fit hsound not_false c, ?_⟩,
    ⟨hwf.linked_nodup, Sanitizer.large_accounts h.fit hsound not_false⟩, ?_, ?_⟩
  · intro p hp
    obtain ⟨b, hb, rfl, -, hstate⟩ := hsound.idle_block (.small c) p hp
    rw [hwf.stateAt?_eq hb, hstate]
  · intro k p hp
    unfold Sanitizer.waitingAt Scene.waitingAt at hp
    obtain ⟨e, he, rfl⟩ := Multiset.mem_map.mp hp
    obtain ⟨b, hb, rfl, hstate⟩ := hsound.waiting_block e
      (Sanitizer.waiting_scene ▸ Multiset.mem_of_mem_filter he)
    exact (hwf.stateAt?_eq hb).trans (congrArg some hstate)
  · intro o ho op user hevent hop
    obtain ⟨earlier, ds, hrun, hcomes, htells⟩ := h.tells ho
    rw [hevent] at htells
    cases htells with
    | call htold hstacks =>
        obtain ⟨b, hb, huser, hstate, hapart⟩ := htold.handed_out hrun.sound hop hcomes.moves
        refine ⟨b, hb, huser, hstate, fun c hc hheld => ?_⟩
        rcases hheld with hlive | hback
        · exact hapart c ⟨hc, hlive⟩
        -- The fake stacks are the same after the call, and their blocks are with no user.
        obtain ⟨f, hf, hbegin⟩ := List.mem_map.mp hback
        rw [← hstacks user rfl hop] at hf
        have hbacking := (hcomes.sound hrun.sound).backing_block f.stack.block
          (Multiset.mem_coe.mpr (List.mem_map.mpr ⟨f, hf, rfl⟩))
        rw [hstacks user rfl hop] at hf
        have hbefore := hrun.sound.backing_block f.stack.block
          (Multiset.mem_coe.mpr (List.mem_map.mpr ⟨f, hf, rfl⟩))
        obtain rfl := hrun.sound.tiled.eq_of_begin hbefore.1 hc hbegin
        refine (hcomes.sound hrun.sound).tiled.apart _ hbacking.1 b hb ?_
        rintro rfl
        rw [hstate] at hbacking
        exact nomatch hbacking.2.2.1

/-- Two threads with fake stacks share the blocks of two sizes, and each frees what the other has
    allocated. -/
theorem blocks_held_once_shared :
    ∃ past s, Run False True past s
      ∧ (s.heap.stateAt? 17660905521152 = some .quarantined
        ∧ (s.heap.carved 16 : Multiset Nat) =
          s.idleSmall 16 + s.waitingAt (.small 16) + s.heap.live (s.heap.carved 16))
      ∧ (s.heap.linked = [18691711459328, 18691703451648, 18691700563968, 18691697676288]
        ∧ (s.heap.linked : Multiset Nat) =
          s.waitingAt .large + s.heap.live s.heap.linked
            + (s.fakeStacks.map (·.stack.begin) : Multiset Nat)) := by
  obtain ⟨past, s, hrun, hcheck⟩ := of_plays False True
    (show Request.plays {} .counter {}
      [.call .register, .call .register, .call (.allocate 0 10 8 .malloc 0),
        .call (.allocate 1 10 8 .malloc 0), .call (.allocate 1 8000000 8 .malloc 0),
        .call (.allocate 1 8000000 8 .malloc 0), .call (.free 1 17660905521280 .malloc 0),
        .call (.free 0 18691703451776 .malloc 0)]
      (fun _ s => s.heap.stateAt? 17660905521152 == some .quarantined
        && s.heap.linked == [18691711459328, 18691703451648, 18691700563968, 18691697676288])
      = true by decide +kernel)
    (by simp [Request.Fits, Operation.Marks])
  simp only [Bool.and_eq_true, beq_iff_eq] at hcheck
  obtain ⟨hsmall, hlarge, -⟩ := blocks_held_once hrun
  exact ⟨past, s, hrun, ⟨hcheck.1, (hsmall 16).2.1⟩, ⟨hcheck.2, hlarge.2⟩⟩

end Run

end GuardedHeap
