import GuardedHeap.Proofs.Run.States

/-! # Origins — the calls that chunks come from

    A chunk stays the same chunk while it is allocated and quarantined; only
    its state and where it was freed change (`Block.Same`).  What a chain of
    deeds leaves was there before or was handed out by it, and what it left
    freed was freed before or by it (`Scene.Sound.chunk_from`).  So every
    chunk in a run goes back to one call that allocated it, and to one that
    freed it if it is quarantined, and what is recorded is where these calls
    came from (`Run.allocated_by`, `Run.freed_by`). -/

namespace GuardedHeap

/-- The blocks are one chunk, which may have been freed in between. -/
structure Block.Same (b c : Block) : Prop where
  begin_eq : b.begin = c.begin
  size_eq : b.size = c.size
  kind_eq : b.kind = c.kind
  record_eq : b.record = { c.record with state := b.record.state, freed := b.record.freed }

namespace Block.Same

variable {b c d : Block}

theorem refl (b : Block) : b.Same b :=
  ⟨rfl, rfl, rfl, rfl⟩

theorem trans (h : b.Same c) (h' : c.Same d) : b.Same d := by
  refine ⟨h.begin_eq.trans h'.begin_eq, h.size_eq.trans h'.size_eq, h.kind_eq.trans h'.kind_eq, ?_⟩
  rw [h.record_eq, h'.record_eq]

theorem symm (h : b.Same c) : c.Same b := by
  refine ⟨h.begin_eq.symm, h.size_eq.symm, h.kind_eq.symm, ?_⟩
  rw [h.record_eq]

/-- A chunk that is freed is the same chunk. -/
theorem retired (b : Block) (freed : Origin) :
    b.Same (b.withRecord { b.record with state := .quarantined, freed }) :=
  ⟨rfl, rfl, rfl, rfl⟩

theorem userBegin_eq (h : b.Same c) : b.record.userBegin = c.record.userBegin := by
  rw [h.record_eq]

theorem allocated_eq (h : b.Same c) : b.record.allocated = c.record.allocated := by
  rw [h.record_eq]

theorem extent_eq (h : b.Same c) : b.extent = c.extent := by
  unfold extent past
  rw [h.begin_eq, h.size_eq]

end Block.Same

namespace Scene.Sound

variable {failing marked : Prop} {s t : Scene} {ds : List Deed} {b : Block}

/-- A chunk after some deeds was a chunk before, or was handed out by one of them; if it is not the
    same in all, it was freed by one of them. -/
theorem chunk_from (h : Sound failing marked s) (hmoves : Moves failing marked s ds t)
    (hb : b ∈ t.chunks) :
    (∃ c ∈ s.chunks, c.Same b ∧ (c = b ∨ c.record.state = .allocated ∧ .retire b ∈ ds))
      ∨ ∃ c content, .handOut c content ∈ ds ∧ c.Same b ∧ (c = b ∨ .retire b ∈ ds)
        ∧ c.record.state = .allocated := by
  induction hmoves with
  | none => exact .inl ⟨b, hb, .refl b, .inl rfl⟩
  | @more s u t ds es first rest ih =>
      have hlater : ∀ {d : Deed}, d ∈ es → d ∈ ds ++ es := fun hd => List.mem_append_right _ hd
      rcases ih (h.move first) hb with ⟨c, hc, hsame, hfreed⟩ | ⟨c, content, hout, hsame, hfreed, hstate⟩
      case inr =>
        exact .inr ⟨c, content, hlater hout, hsame, hfreed.imp_right hlater, hstate⟩
      have hkept : c ∈ s.chunks → ∃ c ∈ s.chunks, c.Same b
          ∧ (c = b ∨ c.record.state = .allocated ∧ .retire b ∈ ds ++ es) := fun hc =>
        ⟨c, hc, hsame, hfreed.imp_right fun h => ⟨h.1, hlater h.2⟩⟩
      obtain ⟨hchunks, hallowed⟩ := h.chunks_move first
      rw [hchunks] at hc
      rcases first.deeds_eq with rfl | ⟨d, rfl⟩
      · exact .inl (hkept hc)
      have hallowed := hallowed d (List.mem_singleton.mpr rfl)
      cases d with
      | handOut e content =>
          rcases hc with rfl | hc
          · exact .inr ⟨c, content, List.mem_append_left _ (List.mem_singleton.mpr rfl), hsame,
              hfreed.imp_right fun h => hlater h.2, hallowed.1⟩
          · exact .inl (hkept hc)
      | retire e =>
          rcases hc with rfl | hc
          · -- What is freed here is not freed again.
            obtain ⟨d, hd, hstate, hrecord⟩ := hallowed
            have hquarantined : c.record.state = .quarantined := by
              rw [hrecord]
              rfl
            have heq : c = b := hfreed.resolve_right fun h => by
              rw [hquarantined] at h
              exact nomatch h.1
            subst heq
            refine .inl ⟨d, hd, ?_, .inr ⟨hstate, List.mem_append_left _ (List.mem_singleton.mpr rfl)⟩⟩
            rw [hrecord]
            exact .retired d _
          · exact .inl (hkept hc.1)
      | evict e => exact .inl (hkept hc.1)
      | put lo n content => exact .inl (hkept hc)
      | lose es => exact .inl (hkept hc)

end Scene.Sound

namespace Occurrence

/-- The event was a call that allocated the chunk: nothing lay there before, the chunk was there
    afterwards, and it tells where the call came from. -/
structure Allocated (o : Occurrence) (b : Block) : Prop where
  call : ∃ op answer, o.event = .call op answer
    ∧ b.record.allocated = o.before.allocatedBy op
    ∧ ∀ a, answer = .ok a → op.Allocates ∧ a = b.record.userBegin
  before : ∀ c ∈ o.before.heap.chunks, Disjoint c.extent b.extent
  after : ∃ c ∈ o.after.heap.chunks, c.Same b

/-- The event was a call that freed the chunk: it was not freed before, it was afterwards, and it
    tells where the call came from. -/
structure Freed (o : Occurrence) (b : Block) : Prop where
  call : ∃ op answer, o.event = .call op answer
    ∧ b.record.freed = o.before.freedBy op b.record.userBegin
    ∧ ∀ a, answer = .ok a → op.frees? = some b.record.userBegin
  before : ∀ c ∈ o.before.heap.chunks, c.Same b → c.record.state = .allocated
  after : b ∈ o.after.heap.chunks

end Occurrence

namespace Run

variable {failing marked : Prop} {past : List Occurrence} {s : Sanitizer} {b : Block}

/-- Every chunk goes back to the call that allocated it, and has been there since. -/
theorem allocated_by (h : Run failing marked past s) (hb : b ∈ s.heap.chunks) :
    ∃ earlier o later, past = earlier ++ o :: later ∧ o.Allocated b
      ∧ ∀ o' ∈ later, ∃ c ∈ o'.after.heap.chunks, c.Same b := by
  induction h generalizing b with
  | start hinit hcalm =>
      obtain ⟨-, hfresh⟩ := begins hinit hcalm
      exact absurd hb.1 (hfresh.heap.blocks ▸ Set.notMem_empty b)
  | @snoc past s t e hbefore hstep hfails hmarks ih =>
      obtain ⟨ds, hcomes, -, -, hvouches⟩ := hstep.comes hbefore.fit hbefore.sound hfails hmarks
      rcases hbefore.sound.chunk_from hcomes.moves hb with ⟨c, hc, hsame, -⟩ | ⟨c, content, hout, hsame, -⟩
      · obtain ⟨earlier, o, later, rfl, hallocated, hsince⟩ := ih hc
        refine ⟨earlier, o, later ++ [⟨s, e, t⟩], by rw [List.append_assoc, List.cons_append], ?_, ?_⟩
        · obtain ⟨⟨op, answer, hcall, horigin, hanswer⟩, hnew, d, hd, hthere⟩ := hallocated
          rw [hsame.allocated_eq] at horigin
          rw [hsame.userBegin_eq] at hanswer
          rw [hsame.extent_eq] at hnew
          exact ⟨⟨op, answer, hcall, horigin, hanswer⟩, hnew, d, hd, hthere.trans hsame⟩
        · intro o' ho'
          rcases List.mem_append.mp ho' with ho' | ho'
          · obtain ⟨d, hd, hthere⟩ := hsince o' ho'
            exact ⟨d, hd, hthere.trans hsame⟩
          · obtain rfl := List.mem_singleton.mp ho'
            exact ⟨b, hb, .refl b⟩
      · refine ⟨past, ⟨s, e, t⟩, [], rfl, ?_, List.forall_mem_nil _⟩
        rcases hvouches with hnone | ⟨op, answer, rfl, hsigns⟩
        · exact (hnone _ hout).elim
        obtain ⟨horigin, es, rfl⟩ := hsigns.signed.handOut c content hout
        have hanswer := hsigns.returns c content hout
        rw [hsame.allocated_eq] at horigin
        rw [hsame.userBegin_eq] at hanswer
        refine ⟨⟨op, answer, rfl, horigin, hanswer⟩, fun d hd => ?_, b, hb, .refl b⟩
        rw [← hsame.extent_eq]
        exact (hbefore.sound.allowed_first hcomes.moves).2.2 d hd

/-- Every quarantined chunk goes back to the call that freed it, and has been there since. -/
theorem freed_by (h : Run failing marked past s) (hb : b ∈ s.heap.chunks)
    (hstate : b.record.state = .quarantined) :
    ∃ earlier o later, past = earlier ++ o :: later ∧ o.Freed b
      ∧ ∀ o' ∈ later, b ∈ o'.after.heap.chunks := by
  induction h with
  | start hinit hcalm =>
      obtain ⟨-, hfresh⟩ := begins hinit hcalm
      exact absurd hb.1 (hfresh.heap.blocks ▸ Set.notMem_empty b)
  | @snoc past s t e hbefore hstep hfails hmarks ih =>
      obtain ⟨ds, hcomes, -, -, hvouches⟩ := hstep.comes hbefore.fit hbefore.sound hfails hmarks
      have hhere : .retire b ∈ ds → (∀ c ∈ s.heap.chunks, c.Same b → c.record.state = .allocated) →
          ∃ earlier o later, past ++ [⟨s, e, t⟩] = earlier ++ o :: later ∧ o.Freed b
            ∧ ∀ o' ∈ later, b ∈ o'.after.heap.chunks := by
        intro hretire hlive
        refine ⟨past, ⟨s, e, t⟩, [], rfl, ?_, List.forall_mem_nil _⟩
        rcases hvouches with hnone | ⟨op, answer, rfl, hsigns⟩
        · exact (hnone _ hretire).elim
        exact ⟨⟨op, answer, rfl, hsigns.signed.retire b hretire, hsigns.frees b hretire⟩, hlive, hb⟩
      rcases hbefore.sound.chunk_from hcomes.moves hb with
        ⟨c, hc, hsame, rfl | ⟨hallocated, hretire⟩⟩ | ⟨c, content, hout, hsame, hfreed, hallocated⟩
      · obtain ⟨earlier, o, later, rfl, hfreed, hsince⟩ := ih hc
        refine ⟨earlier, o, later ++ [⟨s, e, t⟩], by rw [List.append_assoc, List.cons_append], hfreed, ?_⟩
        intro o' ho'
        rcases List.mem_append.mp ho' with ho' | ho'
        · exact hsince o' ho'
        · obtain rfl := List.mem_singleton.mp ho'
          exact hb
      · refine hhere hretire fun d hd hthere => ?_
        obtain rfl := hbefore.sound.chunk_unique hd hc (hthere.trans hsame.symm).userBegin_eq
        exact hallocated
      · have hretire := hfreed.resolve_left fun heq => by
          rw [heq, hstate] at hallocated
          exact nomatch hallocated
        refine hhere hretire fun d hd hthere => ?_
        -- Nothing lay where the call has put the chunk.
        rcases hvouches with hnone | ⟨op, answer, rfl, hsigns⟩
        · exact (hnone _ hretire).elim
        obtain ⟨-, es, rfl⟩ := hsigns.signed.handOut c content hout
        have hapart := (hbefore.sound.allowed_first hcomes.moves).2.2 d hd
        rw [hsame.extent_eq, ← hthere.extent_eq] at hapart
        exact absurd (Block.begin_mem_extent (hbefore.sound.tiled.solid d hd.1)) fun hin =>
          Set.disjoint_left.mp hapart hin hin

end Run

end GuardedHeap
