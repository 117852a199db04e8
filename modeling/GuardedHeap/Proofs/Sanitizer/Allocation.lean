import GuardedHeap.Proofs.Sanitizer.Client
import GuardedHeap.Sanitizer.Allocation

/-! # Allocation — the deeds of a thread's calls

    What an allocation, a free or a move of a chunk does is told by its
    deeds, in order and without exception; a refused call has none, unless
    the operating system failed it. -/

namespace GuardedHeap

open Quarantine (Entry)

/-- The redzones of a valid configuration are whole granules. -/
theorem Config.valid_redzoneOptions {c : Config} (h : c.validate = .ok ()) :
    c.redzoneOptions.Valid := by
  unfold Config.validate at h
  by_cases hc : Word.isPowerOfTwo c.redzone ∧ 32 ≤ c.redzone ∧ c.redzone ≤ 2048
  · exact ⟨hc.1, Nat.le_trans (by decide : Shadow.granule ≤ 32) hc.2.1⟩
  · rw [if_neg hc] at h
    exact nomatch h

namespace Sanitizer.Client

variable {failing marked : Prop} {c c' c'' : Client} {hand : Multiset Entry} {ds : List Deed}

/-- The call has committed pages and taken `n` traces, and done nothing else. -/
structure Idles (n : Nat) (c c' : Client) : Prop where
  heap : c.shared.heap.Repaged c'.shared.heap
  same : c' =
    { c with shared := { c.shared with heap := c'.shared.heap, captures := c.shared.captures + n } }

/-- The call has changed nothing that chunks, holders and the shadow are about, though it may have
    committed pages, counted and logged. -/
structure Untouched (c c' : Client) : Prop where
  heap : c.shared.heap.Repaged c'.shared.heap
  thread : c'.thread = c.thread
  quarantine : c'.shared.quarantine = c.shared.quarantine

theorem Idles.untouched {n : Nat} (h : Idles n c c') : Untouched c c' := by
  refine ⟨h.heap, ?_, ?_⟩ <;> rw [h.same]

variable (failing marked c hand) in
/-- A call that was refused before it did anything. -/
structure Rests (c' : Client) : Prop where
  reaches : Reaches failing marked c hand [] c' hand
  untouched : Untouched c c'

/-- A session that only has other pages was all that an idle call left. -/
theorem rests_of_repaged {s : Sanitizer} {t : Heap.Session} {n : Nat} (hfit : c.Fit failing)
    (hs : s = { c.shared with captures := c.shared.captures + n })
    (h : (session { c with shared := s }).Repaged t) :
    Rests failing marked c hand (withSession { c with shared := s } t)
      ∧ Idles n c (withSession { c with shared := s } t) := by
  subst hs
  have hlike := Like.captured c.shared n
  have hreach : Reaches failing marked c hand [] { c with shared := _ } hand :=
    reaches_shared (hlike.reaches hfit)
  have hidles : Idles n c
      (withSession { c with shared := { c.shared with captures := c.shared.captures + n } } t) := by
    refine ⟨h.heap, ?_⟩
    unfold withSession
    rw [h.cache]
    rfl
  have hgoes : Heap.Session.Goes failing marked _ (c.holders hand) [] t (c.holders hand) :=
    h.goes (session_wf hreach.fit)
  have hrepaged := reaches_session_still hreach.fit hgoes
    (by rw [h.heap.same]; rfl) (by rw [h.heap.same]; rfl) (by rw [h.heap.same]; rfl) Deed.added_nil
  exact ⟨⟨hreach.trans hrepaged, hidles.untouched⟩, hidles⟩

/-- A chunk is handed out, with its first bytes filled. -/
structure Allocates (failing marked : Prop) (c : Client) (hand : Multiset Entry) (user size : Nat)
    (api : Api) (origin : Origin) (c' : Client) : Prop where
  chunk : ∃ b content,
    b.record = .recordAllocation
      { userBegin := user, requestedSize := size, actualSize := b.size, origin, api }
    ∧ (∀ a, user ≤ a → a < user + min size c.options.maxMallocFillSize →
      content a = UInt8.ofNat c.options.mallocFillByte)
    ∧ Reaches failing marked c hand [.handOut b content] c' hand

/-- Allocating hands one chunk out, or does nothing. -/
theorem ends_allocate (hfit : c.Fit failing) (hsound : Scene.Sound failing marked (c.scene hand))
    (size alignment : Nat) (api : Api) (stack : StackId) :
    Act.Ends (allocate size alignment api stack) c
      (fun user c' =>
        Allocates failing marked c hand user size api (c.shared.originOf 0 c.thread.tid stack) c'
        ∧ Keeps (traces stack) c c' ∧ SameQuarantine c c')
      fun _ c' => Rests failing marked c hand c' ∧ Idles (traces stack) c c' := by
  unfold allocate
  rw [Act.ends_bind, Act.ends_get]
  refine ends_traced marked hand hfit ?_
  rintro s hs hlike hreach
  rw [Act.ends_bind, ends_onSession]
  have hwf := session_wf hreach.fit
  have hsound' := hreach.sound hsound
  rw [scene_session] at hsound'
  have ho := Config.valid_redzoneOptions hfit.config
  refine (Redzone.ends_allocate ho hwf hsound' size alignment api _).imp_ok ?_ ?_
  · rintro user t halloc ⟨b, content, hrecord, hfill, hgoes⟩
    have hall := hreach.trans <| reaches_session hreach.fit hgoes
      (fun hsteady K hK hstart => hK.allocate hsteady (hlike.config ▸ halloc) hstart)
      (fun _ => Deed.counted_handOut content (congrArg ChunkRecord.requestedSize hrecord)
        Deed.added_nil) fun _ => Redzone.guarded_allocate ho hwf hsound' halloc
    refine ends_counts _ _ _ (Act.ends_pure.mpr ⟨⟨b, content, hrecord, hfill, hall⟩, ?_, ?_⟩)
    · exact ⟨hlike.fakeStacks, hlike.capture, hlike.captures⟩
    · exact ⟨hlike.quarantine, rfl⟩
  · intro _ t hdeclines
    exact rests_of_repaged hfit hs hdeclines.repaged

/-- A chunk is handed out, and zeros are put there. -/
structure Zeroes (failing marked : Prop) (c : Client) (hand : Multiset Entry) (user size : Nat)
    (origin : Origin) (c' : Client) : Prop where
  chunk : ∃ b content,
    b.record = .recordAllocation
      { userBegin := user, requestedSize := size, actualSize := b.size, origin, api := .malloc }
    ∧ Reaches failing marked c hand [.handOut b content, .put user size fun _ => 0] c' hand

/-- Allocating zeroed bytes hands one chunk out and puts zeros, or does nothing. -/
theorem ends_calloc (hfit : c.Fit failing) (hsound : Scene.Sound failing marked (c.scene hand))
    (times size : Nat) :
    Act.Ends (calloc times size) c
      (fun user c' =>
        Zeroes failing marked c hand user (times * size) (c.shared.originOf 0 c.thread.tid 0) c'
        ∧ Keeps 1 c c' ∧ SameQuarantine c c')
      fun _ c' => Rests failing marked c hand c' ∧ Idles 1 c c' := by
  unfold calloc
  rw [Act.ends_bind, Act.ends_get]
  refine ends_traced marked hand hfit ?_
  rintro s hs hlike hreach
  rw [Act.ends_bind, ends_onSession]
  have hwf := session_wf hreach.fit
  have hsound' := hreach.sound hsound
  rw [scene_session] at hsound'
  have ho := Config.valid_redzoneOptions hfit.config
  refine (Redzone.ends_allocateZeroed ho hwf hsound' times size _).imp_ok ?_ ?_
  · rintro user t hzeroed ⟨b, content, hrecord, hgoes⟩
    obtain ⟨u, halloc, rfl⟩ := Redzone.of_allocateZeroed hzeroed
    have hall := hreach.trans <| reaches_session hreach.fit hgoes
      (fun hsteady K hK hstart =>
        hK.still (.of_pages rfl) (hK.allocate hsteady (hlike.config ▸ halloc) hstart))
      (fun _ => Deed.counted_handOut content (congrArg ChunkRecord.requestedSize hrecord)
        Deed.added_put) fun _ hguarded =>
          (Redzone.guarded_allocate ho hwf hsound' halloc hguarded : u.heap.Guarded)
    refine ends_counts _ _ _ (Act.ends_pure.mpr ⟨⟨b, content, hrecord, hall⟩, ?_, ?_⟩)
    · exact ⟨hlike.fakeStacks, hlike.capture, hlike.captures⟩
    · exact ⟨hlike.quarantine, rfl⟩
  · intro _ t hdeclines
    exact rests_of_repaged hfit hs hdeclines.repaged

/-! ## Freeing -/

/-- The call has counted a wrong free and logged it, and has done nothing else but take traces. -/
structure Accuses (w : FreeError) (c c' : Client) : Prop where
  counter : ∃ k, (wrongFreeEvent w).1 = some k ∧ c'.shared.metrics = c.shared.metrics.inc k
  same : c' = { c with shared := { c.shared with
    metrics := c'.shared.metrics, log := c'.shared.log, captures := c'.shared.captures } }

/-- What makes a free wrong is counted. -/
theorem counted_of_wrong {o : RedzoneOptions} {cs : Set Block} {p tid : Nat} {api : Api} {w : FreeError}
    (h : Redzone.Wrong o cs p api tid w) : ∃ k, (wrongFreeEvent w).1 = some k := by
  cases h with
  | doubleFree | mismatch | invalidFree => exact ⟨_, rfl⟩

/-- A wrong free is counted and logged, no more. -/
theorem ends_noteWrongFree {ε : Type} {s : Sanitizer} (hclock : s.clock.isSome = true) (tid : Nat)
    (e : FreeError) (level : EventLog.Level) {no : ε → Sanitizer → Prop} :
    Act.Ends (noteWrongFree tid e level) s
      (fun _ t => Like 0 s t ∧ ∀ k, (wrongFreeEvent e).1 = some k →
        t = { s with metrics := s.metrics.inc k, log := t.log }) no := by
  unfold noteWrongFree
  cases hcounter : (wrongFreeEvent e).1 with
  | none =>
      simp only [hcounter]
      refine (ends_emit hclock _ _ _).imp (fun _ _ hlike => ⟨hlike, fun k hk => ?_⟩) fun _ _ hno => hno
      cases hk
  | some counter =>
      have hother : counter ∉ Counter.ofChunks := by
        cases e <;> cases hcounter <;> decide
      simp only [hcounter]
      rw [Act.ends_bind]
      refine (ends_count hother).imp_ok ?_ fun _ _ hno => hno
      intro _ t hcount ht
      refine (ends_emit_eq (ht.clock ▸ hclock) _ _ _).imp ?_ fun _ _ hno => hno
      intro _ u hu
      cases Act.modify_eq_ok.mp hcount
      have hlogged : Like 0 { s with metrics := s.metrics.inc counter } u := by
        rw [hu]
        exact ⟨rfl, rfl, rfl, rfl, rfl, rfl, rfl, rfl, rfl, fun _ _ => rfl⟩
      refine ⟨ht.trans hlogged, ?_⟩
      rintro k ⟨⟩
      exact hu

/-- Counting and logging leaves all as it is. -/
theorem rests_of_like {s : Sanitizer} {n : Nat} (h : Like n c.shared s) (hfit : c.Fit failing) :
    Rests failing marked c hand { c with shared := s } := by
  refine ⟨reaches_shared (h.reaches hfit), ?_, rfl, h.quarantine⟩
  show Heap.Repaged c.shared.heap s.heap
  rw [h.heap]
  exact .refl _

theorem Rests.trans (h : Rests failing marked c hand c') (h' : Rests failing marked c' hand c'') :
    Rests failing marked c hand c'' :=
  ⟨h.reaches.trans h'.reaches, h.untouched.heap.trans h'.untouched.heap,
    h'.untouched.thread.trans h.untouched.thread,
    h'.untouched.quarantine.trans h.untouched.quarantine⟩

variable (marked hand) in
/-- Refusing a wrong free changes nothing that the scene shows. -/
theorem ends_refuseFree {α : Type} (hfit : c.Fit failing) (e : FreeError)
    {ok : α → Client → Prop} :
    Act.Ends (refuseFree e : Act SanitizerError Client α) c ok fun w c' =>
      w = .free e ∧ Rests failing marked c hand c'
        ∧ ((∃ k, (wrongFreeEvent e).1 = some k) → Accuses e c c') := by
  unfold refuseFree
  rw [Act.ends_bind, Act.ends_get, Act.ends_bind, ends_onShared]
  refine (ends_noteWrongFree hfit.clock _ _ _).imp ?_ fun _ _ hno => hno
  rintro _ t ⟨hlike, heq⟩
  refine ⟨rfl, rests_of_like hlike hfit, fun ⟨k, hk⟩ => ⟨⟨k, hk, ?_⟩, ?_⟩⟩
  · exact congrArg (·.metrics) (heq k hk)
  · rw [heq k hk]

/-- The block `b` got another record and the marks of a freed one, and then entries of freed blocks
    were recycled. -/
structure Buries (b b' : Block) (es : List Entry) (c c' : Client) : Prop where
  freed : ∀ e ∈ es, ∃ d ∈ exchange c.shared.heap.blocks b b', d.entry = e ∧ d.record.state = .quarantined
  blocks : c'.shared.heap.blocks = Redzone.recycled es (exchange c.shared.heap.blocks b b')
  shadow : c'.shared.heap.shadow =
    c.shared.heap.shadow.poisoned b.begin b.size Shadow.Magic.heapFreed.byte

/-- The chunk at `p` goes to the quarantine, and what leaves it is recycled. -/
structure Frees (failing marked : Prop) (c : Client) (hand : Multiset Entry) (p : Nat) (api : Api)
    (origin : Origin) (c' : Client) : Prop where
  ne_zero : p ≠ 0
  chunk : ∃ b ∈ (c.scene hand).chunks, b.record.userBegin = p ∧ b.record.state = .allocated
    ∧ ¬ Redzone.Mismatch c.options b.record api
    ∧ ∃ ev, c.shared.quarantine.put c.thread.batch b.entry = .ok ev ∧ Takes ev c'
      ∧ Buries b (b.withRecord { b.record with state := .quarantined, freed := origin }) ev.evicted c c'
      ∧ Reaches failing marked c hand
        (.retire (b.withRecord { b.record with state := .quarantined, freed := origin })
          :: ev.evicted.map .evict) c' hand

/-- The chunk at `p` was taken from its user, but not everything that left the quarantine for it
    was given back to the heap: the heap failed at the last one of `done`, and forgot the rest. -/
structure Abandons (failing marked : Prop) (c : Client) (hand : Multiset Entry) (p : Nat)
    (origin : Origin) (e : SanitizerError) (c' : Client) : Prop where
  failed : failing
  error : ∃ a, e = .alloc a
  chunk : ∃ b ∈ (c.scene hand).chunks, b.record.userBegin = p ∧ b.record.state = .allocated
    ∧ ∃ ev, c.shared.quarantine.put c.thread.batch b.entry = .ok ev
      ∧ ∃ done rest, ev.evicted = done ++ rest ∧ done ≠ []
        ∧ Reaches failing marked c hand
          (.retire (b.withRecord { b.record with state := .quarantined, freed := origin })
            :: (done.map .evict ++ [.lose rest])) c' hand

/-- The chunk at `p` was taken from its user, though the call failed in the end. -/
structure Forsakes (failing marked : Prop) (c : Client) (hand : Multiset Entry) (p : Nat)
    (allocated : Origin) (freed : Nat → Origin) (e : SanitizerError) (c' : Client) : Prop where
  failed : failing
  error : ∃ a, e = .alloc a
  chunk : ∃ b ∈ (c.scene hand).chunks, b.record.userBegin = p ∧ b.record.state = .allocated
    ∧ ∃ ev, c.shared.quarantine.put c.thread.batch b.entry = .ok ev ∧ ev.evicted ≠ []
      ∧ ∃ before origin after, (∀ d ∈ after, d.Withholds)
        ∧ Deed.Signed allocated freed (before
          ++ .retire (b.withRecord { b.record with state := .quarantined, freed := origin }) :: after)
        ∧ Reaches failing marked c hand (before
          ++ .retire (b.withRecord { b.record with state := .quarantined, freed := origin }) :: after)
          c' hand

/-- What a failed free leaves undone is signed by nobody. -/
theorem unsigned_stopped {done rest : List Entry} :
    ∀ d ∈ done.map Deed.evict ++ [.lose rest], d.Unsigned :=
  List.forall_mem_append.mpr ⟨Deed.unsigned_evicts done, List.forall_mem_singleton.mpr trivial⟩

/-- What was freed and then abandoned is with nobody. -/
theorem Abandons.forsakes {p : Nat} {allocated origin : Origin} {freed : Nat → Origin}
    {e : SanitizerError} (h : Abandons failing marked c hand p origin e c') (horigin : origin = freed p) :
    Forsakes failing marked c hand p allocated freed e c' := by
  obtain ⟨hfailing, herror, b, hb, huser, hstate, ev, hev, done, rest, hevicted, hdone, hreach⟩ := h
  refine ⟨hfailing, herror, b, hb, huser, hstate, ev, hev, ?_, [], origin, _,
    fun d hd => (unsigned_stopped d hd).withholds, .retire_cons ?_ unsigned_stopped, hreach⟩
  · rw [hevicted]
    exact List.append_ne_nil_of_left_ne_nil hdone rest
  · rw [horigin, ← huser]
    rfl

/-- A chunk was taken from its user and is with nobody yet: its block has the record `r` and the marks
    of a freed one. -/
structure Seizes (failing marked : Prop) (n : Nat) (c : Client) (hand : Multiset Entry) (b : Block)
    (r : ChunkRecord) (c' : Client) : Prop where
  keeps : Keeps n c c'
  same : SameQuarantine c c'
  reaches : Reaches failing marked c hand [.retire (b.withRecord r)] c' (b.entry ::ₘ hand)
  blocks : c'.shared.heap.blocks = exchange c.shared.heap.blocks b (b.withRecord r)
  shadow : c'.shared.heap.shadow =
    c.shared.heap.shadow.poisoned b.begin b.size Shadow.Magic.heapFreed.byte

/-- Counting and logging does not give it back. -/
theorem Seizes.like {n : Nat} {b : Block} {r : ChunkRecord} {s u : Sanitizer}
    (h : Seizes failing marked n c hand b r { c with shared := s }) (hlike : Like 0 s u) :
    Seizes failing marked n c hand b r { c with shared := u } where
  keeps := h.keeps.trans (.of_like hlike)
  same := ⟨hlike.quarantine.trans h.same.queue, h.same.batch⟩
  reaches := h.reaches.trans (reaches_shared (hlike.reaches h.reaches.fit))
  blocks := (congrArg Heap.blocks hlike.heap).trans h.blocks
  shadow := (congrArg Heap.shadow hlike.heap).trans h.shadow

/-- What a free between redzones did to the heap, it did to the client's chunk. -/
theorem seizes_of_free {n p : Nat} {api : Api} {origin : Origin} {s : Sanitizer} {heap : Heap} {b : Block}
    {f : Redzone.Freed} (hlike : Like n c.shared s)
    (hreach : Reaches failing marked c hand [] { c with shared := s } hand)
    (hfits : ∀ b ∈ s.heap.blocks, b.record.state ≠ .recycled → b.Fits)
    (hfree : Redzone.free c.options p api origin s.heap = .ok (some f) heap) (hb : b ∈ s.heap.blocks)
    (hstate : b.record.state = .allocated) (hentry : f.entry = b.entry)
    (hsize : f.requestedSize = b.record.requestedSize)
    (hshadow : heap.shadow = s.heap.shadow.poisoned b.begin b.size Shadow.Magic.heapFreed.byte)
    (hbecomes : Heap.Becomes s.heap heap ((s.heap.outline.setRecord b
      { b.record with state := .quarantined, freed := origin }).close b.extent)) :
    Seizes failing marked n c hand b { b.record with state := .quarantined, freed := origin }
      { c with shared := { s with heap }.counted .frees .bytesFreed f.requestedSize } := by
  have hgoes := Redzone.goes_retire failing marked (holders { c with shared := s } hand)
    (session_wf hreach.fit) hb hstate hbecomes
  rw [holders_cons] at hgoes
  have hoptions : c.options = s.config.redzoneOptions :=
    congrArg Config.redzoneOptions hlike.config.symm
  rw [hoptions] at hfree
  refine ⟨⟨hlike.fakeStacks, hlike.capture, hlike.captures⟩, ⟨hlike.quarantine, rfl⟩,
    hreach.trans <| reaches_session hreach.fit hgoes
      (fun hsteady K hK hstart => hentry ▸ hK.retire hsteady hfree hstart)
      (fun _ => Deed.counted_retire hsize) fun _ => Redzone.guarded_free hreach.fit.heap hfits hfree, ?_, ?_⟩
  · show heap.blocks = _
    rw [hbecomes.blocks, ← hlike.heap]
    rfl
  · show heap.shadow = _
    rw [hshadow, hlike.heap]

/-- A chunk that was taken from its user is counted and goes through the quarantine, and what leaves it
    is recycled. -/
theorem ends_bury {n size : Nat} {b : Block} {r : ChunkRecord} {u : Sanitizer}
    (hsound : Scene.Sound failing marked (c.scene hand))
    (h : Seizes failing marked n c hand b r { c with shared := u.counted .frees .bytesFreed size }) :
    Act.Ends (do
        onShared (count .frees)
        onShared (countBy .bytesFreed size)
        let evicted ← Act.mapError SanitizerError.alloc (quarantine b.entry)
        Act.mapError .alloc (recycle evicted)) { c with shared := u }
      (fun _ c' => Keeps n c c' ∧ ∃ ev, c.shared.quarantine.put c.thread.batch b.entry = .ok ev
        ∧ Takes ev c' ∧ Buries b (b.withRecord r) ev.evicted c c'
        ∧ Reaches failing marked c hand (.retire (b.withRecord r) :: ev.evicted.map .evict) c' hand)
      fun e c' => Keeps n c c' ∧ failing ∧ (∃ a, e = .alloc a)
        ∧ ∃ ev, c.shared.quarantine.put c.thread.batch b.entry = .ok ev
          ∧ ∃ done rest, ev.evicted = done ++ rest ∧ done ≠ []
            ∧ Reaches failing marked c hand
              (.retire (b.withRecord r) :: (done.map .evict ++ [.lose rest])) c' hand := by
  refine ends_counts _ _ _ ?_
  rw [Act.ends_bind, Act.ends_mapError]
  refine (ends_quarantine h.reaches.fit (h.reaches.sound hsound)).imp ?_ fun _ _ hno => hno
  rintro evicted c2 ⟨ev, hput, rfl, hkeeps, htakes, hheap, hsorted⟩
  rw [h.same.queue, h.same.batch] at hput
  have hall := h.reaches.trans hsorted
  have hsound2 := hall.sound hsound
  rw [Act.ends_mapError]
  refine (ends_recycle ev.evicted hall.fit hsound2).imp ?_ ?_
  · rintro _ c3 ⟨hrecycled, hkeeps', hsame', hrecycles⟩
    refine ⟨h.keeps.trans (hkeeps.trans hkeeps'), ev, hput,
      ⟨hsame'.queue.trans htakes.queue, hsame'.batch.trans htakes.batch⟩,
      ⟨fun e he => ?_, ?_, ?_⟩, hall.trans hrecycled⟩
    · rw [← h.blocks, ← hheap]
      exact hsound2.waiting_block e (Multiset.mem_add.mpr (.inl (Multiset.mem_add.mpr (.inl he))))
    · rw [hrecycles.blocks, hheap, h.blocks]
    · rw [hrecycles.shadow, hheap, h.shadow]
  · rintro e c3 ⟨hfailing, done, rest, hevicted, hdone, -, hkeeps', hrecycled⟩
    exact ⟨h.keeps.trans (hkeeps.trans hkeeps'), hfailing, ⟨e, rfl⟩, ev, hput, done, rest, hevicted, hdone,
      hall.trans hrecycled⟩

/-- A tolerated free is only noted. -/
theorem ends_warn {β : Type} {next : Act SanitizerError Client β} {ok : β → Client → Prop}
    {no : SanitizerError → Client → Prop} (hclock : c.shared.clock.isSome = true)
    (tid : Nat) (warning : Option FreeError)
    (hnext : ∀ u, Like 0 c.shared u → Act.Ends next { c with shared := u } ok no) :
    Act.Ends (do
      match warning with
      | some warning => onShared (noteWrongFree tid warning .warn)
      | none => pure ()
      next) c ok no := by
  cases warning with
  | none => exact hnext _ (.refl _)
  | some warning =>
      rw [Act.ends_bind, ends_onShared]
      exact (ends_noteWrongFree hclock _ _ _).imp (fun _ u hnoted => hnext u hnoted.1) fun _ _ hno => hno

/-- A free at zero does nothing, another one frees the chunk there, or it is wrong. -/
theorem ends_free (hfit : c.Fit failing) (hsound : Scene.Sound failing marked (c.scene hand))
    (p : Nat) (api : Api) (stack : StackId) :
    Act.Ends (free p api stack) c
      (fun _ c' => Keeps (traces stack) c c'
        ∧ (p = 0 ∧ Reaches failing marked c hand [] c' hand ∧ SameQuarantine c c'
          ∨ Frees failing marked c hand p api (c.shared.originOf 0 c.thread.tid stack) c'))
      fun e c' =>
        p ≠ 0 ∧ (∃ w, e = .free w
          ∧ Redzone.Wrong c.options (c.scene hand).chunks p api c.thread.tid w ∧ Accuses w c c')
          ∧ Rests failing marked c hand c'
        ∨ p ≠ 0 ∧ Keeps (traces stack) c c'
          ∧ Abandons failing marked c hand p (c.shared.originOf 0 c.thread.tid stack) e c' := by
  unfold free
  rw [Act.ends_bind, Act.ends_get]
  refine ends_traced marked hand hfit ?_
  rintro s hs hlike hreach
  have hchunks : (c.scene hand).chunks = s.heap.chunks := by
    rw [hlike.heap]
    rfl
  rw [Act.ends_bind, ends_onShared]
  unfold onHeap
  rw [Act.ends_onPart, Act.ends_attempt]
  have hfits := (hreach.sound hsound).fits
  refine (Redzone.ends_free hreach.fit.heap hfits p api _).imp_ok ?_ ?_
  · rintro freed heap hfree
      (⟨hzero, rfl, rfl⟩ |
        ⟨hzero, b, hb, huser, hstate, hmismatch, ⟨f, rfl, hentry, hsize⟩, ⟨set, rfl, hmarked⟩, hbecomes⟩)
    -- A null pointer was let through; from here on a chunk was freed.
    · exact ⟨Keeps.of_like hlike, .inl ⟨hzero, hreach, hlike.quarantine, rfl⟩⟩
    have hshadow := congrArg Heap.shadow hmarked
    have hseizes := seizes_of_free hlike hreach hfits hfree hb hstate hentry hsize
      (hshadow.trans (congrArg (Shadow.poisoned · _ _ _) Redzone.shadow_setRecord)) hbecomes
    have hchunk : b ∈ (c.scene hand).chunks := hchunks ▸ ⟨hb, by rw [hstate]; decide⟩
    dsimp only
    refine ends_warn (c := { c with shared := { s with heap } }) hreach.fit.clock _ f.warning fun u hnoted => ?_
    rw [hentry]
    refine (ends_bury hsound (hseizes.like (hnoted.counted _ _ _))).imp ?_ ?_
    · rintro _ c2 ⟨hkeeps, ev, hput, htakes, hburied, hfreed⟩
      exact ⟨hkeeps, .inr ⟨hzero, b, hchunk, huser, hstate, hmismatch, ev, hput, htakes, hburied, hfreed⟩⟩
    · rintro e c2 ⟨hkeeps, hfailing, herror, ev, hput, hfreed⟩
      exact .inr ⟨hzero, hkeeps, hfailing, herror, b, hchunk, huser, hstate, ev, hput, hfreed⟩
  · rintro w heap ⟨rfl, hzero, hwrong⟩
    refine (ends_refuseFree marked hand hreach.fit w).imp
      (fun _ _ hok => hok) ?_
    rintro e c' ⟨rfl, hrefused, haccuses⟩
    rw [hchunks]
    have haccuses := haccuses (counted_of_wrong hwrong)
    refine .inl ⟨hzero, ⟨w, rfl, hwrong, ?_, ?_⟩, (rests_of_like hlike hfit).trans hrefused⟩
    · rw [hs] at haccuses
      exact haccuses.counter
    · rw [haccuses.same, hs]

/-! ## Moving -/

/-- A chunk is handed out and takes over the bytes of the one at `p`, which is freed. -/
structure Relocates (failing marked : Prop) (c : Client) (hand : Multiset Entry) (p fresh size : Nat)
    (allocated freed : Origin) (c' : Client) : Prop where
  ne_zero : p ≠ 0
  chunk : ∃ b ∈ (c.scene hand).chunks, b.record.userBegin = p ∧ b.record.state = .allocated
    ∧ ¬ Redzone.Mismatch c.options b.record .malloc
    ∧ ∃ b' content copied, b'.record = .recordAllocation
        { userBegin := fresh, requestedSize := size, actualSize := b'.size, origin := allocated
          api := .malloc }
      ∧ (∀ a, fresh ≤ a → a < fresh + min size c.options.maxMallocFillSize →
        content a = UInt8.ofNat c.options.mallocFillByte)
      ∧ (∀ i, i < min b.record.requestedSize size →
        copied (fresh + i) = c.shared.heap.contents (p + i))
      ∧ ∃ ev, c.shared.quarantine.put c.thread.batch b.entry = .ok ev ∧ Takes ev c'
        ∧ Reaches failing marked c hand
          (.handOut b' content :: .put fresh (min b.record.requestedSize size) copied
            :: .retire (b.withRecord { b.record with state := .quarantined, freed })
            :: ev.evicted.map .evict) c' hand

/-- What can be moved is a chunk that may be freed; all else would be a wrong free. -/
theorem movable_spec (hfit : c.Fit failing) (hsound : Scene.Sound failing marked (c.scene hand))
    (p : Nat) :
    (∃ b ∈ (c.scene hand).chunks, b.record.userBegin = p ∧ b.record.state = .allocated
      ∧ ¬ Redzone.Mismatch c.options b.record .malloc ∧ movable c p = .ok b.chunk)
    ∨ ∃ w, movable c p = .error w
      ∧ Redzone.Wrong c.options (c.scene hand).chunks p .malloc c.thread.tid w := by
  -- No two chunks begin at one address for users, so the lookup decides about all of them.
  have hfound : ∀ b ∈ (c.scene hand).chunks, b.record.userBegin = p →
      c.shared.heap.chunk? p = some b.chunk := by
    rintro b ⟨hb, hstate⟩ rfl
    exact Redzone.chunk?_eq hfit.heap hb (hsound.fits b hb hstate).userBegin_mem
  unfold movable
  cases hfilter : (c.shared.heap.chunk? p).filter (·.record.userBegin == p) with
  | none =>
      refine .inr ⟨_, rfl, .invalidFree fun b hb huser => ?_⟩
      rw [hfound b hb huser, Option.filter_some_pos (by exact beq_iff_eq.mpr huser)] at hfilter
      exact nomatch hfilter
  | some k =>
      obtain ⟨hfind, huser⟩ := Option.filter_eq_some_iff.mp hfilter
      obtain ⟨b, hb, rfl⟩ := Redzone.of_chunk? hfit.heap hfind
      have huser : b.record.userBegin = p := beq_iff_eq.mp huser
      have hrecord : b.chunk.record = b.record := rfl
      simp only [hrecord]
      cases hstate : b.record.state with
      | recycled =>
          refine .inr ⟨_, rfl, .invalidFree fun b' hb' huser' => hb'.2 ?_⟩
          have hsame := (hfound b' hb' huser').symm.trans hfind
          have : b'.record = b.record := congrArg Chunk.record (Option.some.inj hsame)
          rw [this, hstate]
      | quarantined =>
          exact .inr ⟨_, rfl, .doubleFree b ⟨hb, by rw [hstate]; decide⟩ huser hstate⟩
      | allocated =>
          have hlive : b ∈ (c.scene hand).chunks := ⟨hb, by rw [hstate]; decide⟩
          have hmismatch : (c.options.allocDeallocMismatch && c.options.haltOnFreeError
              && b.record.api != .malloc) = true ↔ Redzone.Mismatch c.options b.record .malloc := by
            unfold Redzone.Mismatch
            rw [Bool.and_eq_true, Bool.and_eq_true, bne_iff_ne, and_comm]
          by_cases hwrong : Redzone.Mismatch c.options b.record .malloc
          · simp only [hmismatch.mpr hwrong, if_true]
            exact .inr ⟨_, rfl, .mismatch b hlive huser hstate hwrong⟩
          · have hpass := Bool.not_eq_true _ ▸ mt hmismatch.mp hwrong
            simp only [hpass, Bool.false_eq_true, if_false]
            exact .inl ⟨b, hlive, huser, hstate, hwrong, rfl⟩

/-- A free of the chunk that was found movable is not wrong. -/
theorem not_wrong {o : RedzoneOptions} {cs : Set Block} {p tid : Nat} {api : Api} {w : FreeError}
    {b : Block} (hb : b ∈ cs) (huser : b.record.userBegin = p) (hstate : b.record.state = .allocated)
    (hmismatch : ¬ Redzone.Mismatch o b.record api)
    (honly : ∀ b' ∈ cs, b'.record.userBegin = p → b' = b) : ¬ Redzone.Wrong o cs p api tid w := by
  rintro (⟨b', hb', huser', hstate'⟩ | ⟨b', hb', huser', -, hmismatch'⟩ | hnone)
  · rw [honly b' hb' huser', hstate] at hstate'
    exact nomatch hstate'
  · rw [honly b' hb' huser'] at hmismatch'
    exact hmismatch hmismatch'
  · exact hnone b hb huser

/-- Where a call comes from after some traces. -/
theorem Keeps.originOf_eq {n : Nat} {ds : List Deed} (h : Keeps n c c')
    (hreach : Reaches failing marked c hand ds c' hand) (stack : StackId) :
    c'.shared.originOf 0 c'.thread.tid stack = c.shared.originOf n c.thread.tid stack := by
  have htid : c'.thread.tid = c.thread.tid := congrArg (· % Thread.tidLimit) hreach.id
  unfold originOf
  rw [htid, hreach.shared.config, h.captures, h.capture]
  rfl

/-- The traces that changing the size of the chunk at `p` takes before it frees the one at `q`: the
    fresh chunk is freed, too, if the old one cannot be. -/
def tracesBefore (p size q : Nat) : Nat :=
  if size = 0 then 0 else if q = p then 1 else 2

/-- What was to be moved stays where it is: it must not be freed, or there is no chunk to move it to. -/
inductive Stays (c : Client) (hand : Multiset Entry) (p size : Nat) : SanitizerError → Prop where
  | wrong {w : FreeError}
      (hwrong : Redzone.Wrong c.options (c.scene hand).chunks p .malloc c.thread.tid w) :
      Stays c hand p size (.free w)
  | unfetched {b : Block} {e : AllocError} {c' : Client} (hb : b ∈ (c.scene hand).chunks)
      (huser : b.record.userBegin = p) (hstate : b.record.state = .allocated)
      (hmismatch : ¬ Redzone.Mismatch c.options b.record .malloc)
      (hrefused : allocate size Shadow.granule .malloc 0 c = .error (.refused e) c') :
      Stays c hand p size (.alloc e)

/-- Freeing a chunk that may be freed takes it from its user. -/
theorem ends_free_chunk (hfit : c.Fit failing) (hsound : Scene.Sound failing marked (c.scene hand))
    {b : Block} (hb : b ∈ (c.scene hand).chunks) (hstate : b.record.state = .allocated) {api : Api}
    (hmismatch : ¬ Redzone.Mismatch c.options b.record api) (hzero : b.record.userBegin ≠ 0)
    (stack : StackId) :
    Act.Ends (free b.record.userBegin api stack) c
      (fun _ c' => Keeps (traces stack) c c'
        ∧ ∃ ev, c.shared.quarantine.put c.thread.batch b.entry = .ok ev ∧ Takes ev c'
          ∧ Reaches failing marked c hand
            (.retire (b.withRecord { b.record with
                state := .quarantined, freed := c.shared.originOf 0 c.thread.tid stack })
              :: ev.evicted.map .evict) c' hand)
      fun e c' => Keeps (traces stack) c c' ∧ failing ∧ (∃ a, e = .alloc a)
        ∧ ∃ ev, c.shared.quarantine.put c.thread.batch b.entry = .ok ev
          ∧ ∃ done rest, ev.evicted = done ++ rest ∧ done ≠ []
            ∧ Reaches failing marked c hand
              (.retire (b.withRecord { b.record with
                  state := .quarantined, freed := c.shared.originOf 0 c.thread.tid stack })
                :: (done.map .evict ++ [.lose rest])) c' hand := by
  have honly : ∀ b' ∈ (c.scene hand).chunks, b'.record.userBegin = b.record.userBegin → b' = b :=
    fun b' hin huser => hsound.chunk_unique hin hb huser
  refine (ends_free hfit hsound b.record.userBegin api stack).imp ?_ ?_
  · rintro _ c' ⟨hkeeps, ⟨hnone, -⟩ | ⟨-, b', hin, huser, -, -, ev, hev, htakes, -, hfreed⟩⟩
    · exact absurd hnone hzero
    obtain rfl := honly b' hin huser
    exact ⟨hkeeps, ev, hev, htakes, hfreed⟩
  · rintro e c' (⟨-, ⟨w, -, hwrong, -⟩, -⟩ | ⟨-, hkeeps, hfailing, herror, b', hin, huser, -, ev, hev, hfreed⟩)
    · exact absurd hwrong (not_wrong hb rfl hstate hmismatch honly)
    obtain rfl := honly b' hin huser
    exact ⟨hkeeps, hfailing, herror, ev, hev, hfreed⟩

/-- A fresh chunk of `size` bytes is handed out and takes over the bytes of the chunk `b`, which
    stays where it is. -/
structure Copies (failing marked : Prop) (c : Client) (hand : Multiset Entry) (b : Block)
    (fresh size : Nat) (c' : Client) : Prop where
  ne : fresh ≠ b.record.userBegin
  chunk : b ∈ (c'.scene hand).chunks
  keeps : Keeps 1 c c'
  same : SameQuarantine c c'
  copy : ∃ b' content copied, b'.record = .recordAllocation
      { userBegin := fresh, requestedSize := size, actualSize := b'.size
        origin := c.shared.originOf 0 c.thread.tid 0, api := .malloc }
    ∧ (∀ a, fresh ≤ a → a < fresh + min size c.options.maxMallocFillSize →
      content a = UInt8.ofNat c.options.mallocFillByte)
    ∧ (∀ i, i < min b.record.requestedSize size →
      copied (fresh + i) = c.shared.heap.contents (b.record.userBegin + i))
    ∧ Reaches failing marked c hand
      [.handOut b' content, .put fresh (min b.record.requestedSize size) copied] c' hand

/-- Copying from a chunk to one that was just handed out. -/
theorem copies_of_allocates {b : Block} {fresh size : Nat} {c1 : Client}
    (hsound : Scene.Sound failing marked (c.scene hand)) (hb : b ∈ (c.scene hand).chunks)
    (hstate : b.record.state = .allocated)
    (h : Allocates failing marked c hand fresh size .malloc (c.shared.originOf 0 c.thread.tid 0) c1)
    (hkeeps : Keeps 1 c c1) (hsame : SameQuarantine c c1) :
    Copies failing marked c hand b fresh size (c1.withSession ⟨c1.shared.heap.mapPages
      (·.copy b.record.userBegin fresh (min b.record.requestedSize size)), c1.thread.cache⟩) := by
  obtain ⟨⟨b', content, hrecord, hfill, hreach⟩⟩ := h
  -- The new chunk and the old one are both there, and apart.
  have hsound1 := hreach.sound hsound
  have hchunks1 : (c1.scene hand).chunks = insert b' (c.scene hand).chunks :=
    hsound.chunks_moves hreach.shared.moves
  have hb' : b' ∈ (c1.scene hand).chunks := hchunks1 ▸ Set.mem_insert _ _
  have hb1 : b ∈ (c1.scene hand).chunks := hchunks1 ▸ Set.mem_insert_of_mem _ hb
  have hfits := hsound1.fits b hb1.1 hb1.2
  have hfits' := hsound1.fits b' hb'.1 hb'.2
  have hapart : Disjoint b.extent b'.extent := (hsound.allowed_first hreach.shared.moves).2.2 b hb
  have hstate' : b'.record.state = .allocated := by rw [hrecord]; rfl
  have huser' : b'.user = Set.Ico fresh (fresh + size) := by
    unfold Block.user
    rw [hrecord]
    rfl
  have hkept : Set.Ico fresh (fresh + min b.record.requestedSize size) ⊆ b'.user := by
    rw [huser']
    exact Set.Ico_subset_Ico_right (by omega)
  have hroom : b.record.userBegin + b.record.requestedSize < Word.limit ∧ fresh + size < Word.limit := by
    have hlt := hfits.lt_past
    have hlt' := hfits'.lt_past
    have hpast := (hreach.fit.heap.past_le hb1.1).2
    have hpast' := (hreach.fit.heap.past_le hb'.1).2
    have hend := hreach.fit.heap.layout.end_lt
    rw [hrecord] at hlt'
    change fresh + size < _ at hlt'
    omega
  have hcopied := hreach.fit.heap.withCopy b.record.userBegin fresh
    (n := min b.record.requestedSize size) (by omega) (by omega)
  have hput := reaches_session_still hreach.fit (Redzone.goes_put failing marked (c1.holders hand)
    (session_wf hreach.fit) hb'.1 hstate' hkept hcopied) rfl rfl rfl Deed.added_put
  refine ⟨?_, hsound1.chunks_moves hput.shared.moves ▸ hb1,
    ⟨hkeeps.fakeStacks, hkeeps.capture, hkeeps.captures⟩, ⟨hsame.queue, hsame.batch⟩,
    b', content, _, hrecord, hfill, ?_, hreach.trans hput⟩
  · rintro rfl
    refine Set.disjoint_left.mp hapart hfits.userBegin_mem ?_
    have hin := hfits'.userBegin_mem
    rwa [hrecord] at hin
  · intro i hi
    have hin : b.record.userBegin + i ∈ b.user := ⟨by omega, by omega⟩
    have hout : b.record.userBegin + i ∉ b'.user := fun hin' =>
      Set.disjoint_left.mp hapart (hfits.user_subset hin) (hfits'.user_subset hin')
    rw [Nat.add_sub_cancel_left]
    exact (hsound.bytes_moves hreach.shared.moves (fun _ _ => rfl) _ ⟨b, hb1.1, hstate, hin⟩).trans
      (if_neg hout)

theorem Forsakes.reaches {p : Nat} {allocated : Origin} {freed : Nat → Origin} {e : SanitizerError}
    (h : Forsakes failing marked c hand p allocated freed e c') :
    ∃ ds, Reaches failing marked c hand ds c' hand := by
  obtain ⟨-, -, b, -, -, -, ev, -, -, before, origin, after, -, -, hreach⟩ := h
  exact ⟨_, hreach⟩

/-- More that is freed and given back leaves the chunk with nobody. -/
theorem Forsakes.more {p : Nat} {allocated : Origin} {freed : Nat → Origin} {e : SanitizerError}
    {last : List Deed} (h : Forsakes failing marked c hand p allocated freed e c')
    (hlast : ∀ d ∈ last, d.Withholds)
    (hsigned : ∀ b, Deed.retire b ∈ last → b.record.freed = freed b.record.userBegin)
    (hreach : Reaches failing marked c' hand last c'' hand) :
    Forsakes failing marked c hand p allocated freed e c'' := by
  obtain ⟨hfailing, herror, b, hb, huser, hstate, ev, hev, hevicted, before, origin, after, hafter, hbefore,
    hreach'⟩ := h
  have hall := hreach'.trans hreach
  have hsigned' := hbefore.append hlast hsigned
  rw [List.append_assoc, List.cons_append] at hall hsigned'
  exact ⟨hfailing, herror, b, hb, huser, hstate, ev, hev, hevicted, before, origin, after ++ last,
    List.forall_mem_append.mpr ⟨hafter, hlast⟩, hsigned', hall⟩

/-- Giving another chunk back, or at least trying to, does not bring the forsaken one back. -/
theorem Forsakes.ends_giveBack {p q : Nat} {allocated : Origin} {freed : Nat → Origin} {e : SanitizerError}
    (h : Forsakes failing marked c hand p allocated freed e c')
    (hsound : Scene.Sound failing marked (c.scene hand))
    (horigin : c'.shared.originOf 0 c'.thread.tid 0 = freed q) :
    Act.Ends (Act.attempt (free q .malloc 0) : Act SanitizerError Client _) c'
      (fun _ c'' => Forsakes failing marked c hand p allocated freed e c'') fun _ _ => False := by
  obtain ⟨ds, hreach'⟩ := h.reaches
  have hfreed : ∀ {c4 : Client} {b4 : Block} {es : List Deed},
      Reaches failing marked c' hand (.retire b4 :: es) c4 hand → b4.record.userBegin = q →
      b4.record.freed = c'.shared.originOf 0 c'.thread.tid 0 → (∀ d ∈ es, d.Unsigned) →
      Forsakes failing marked c hand p allocated freed e c4 := by
    intro c4 b4 es hreach huser hb4 hes
    have hsigned : Deed.Signed allocated freed (.retire b4 :: es) :=
      .retire_cons (by rw [hb4, huser, horigin]) hes
    have hwithholds : ∀ d ∈ Deed.retire b4 :: es, d.Withholds :=
      List.forall_mem_cons.mpr ⟨trivial, fun d hd => (hes d hd).withholds⟩
    exact h.more hwithholds hsigned.retire hreach
  rw [Act.ends_attempt]
  refine (ends_free hreach'.fit (hreach'.sound hsound) q .malloc 0).imp ?_ ?_
  · rintro _ c4 ⟨-, ⟨-, hnone, -⟩ | ⟨-, b4, -, huser, -, -, ev, -, -, -, hreach⟩⟩
    · exact h.more (List.forall_mem_nil _) nofun hnone
    · exact hfreed hreach huser rfl (Deed.unsigned_evicts _)
  · rintro _ c4 (⟨-, -, hnone⟩ | ⟨-, -, -, -, b4, -, huser, -, ev, -, done, rest, -, -, hreach⟩)
    · exact h.more (List.forall_mem_nil _) nofun hnone.reaches
    · exact hfreed hreach huser rfl unsigned_stopped

/-- A move that fails after it has taken the old chunk from its user has signed both chunks. -/
theorem signed_moved {b b' : Block} {content copied : Nat → UInt8} {fresh n : Nat} {allocated : Origin}
    {freed : Nat → Origin} {done rest : List Entry} (hb' : b'.record.allocated = allocated)
    (hb : b.record.freed = freed b.record.userBegin) :
    Deed.Signed allocated freed ([.handOut b' content, .put fresh n copied]
      ++ .retire b :: (done.map .evict ++ [.lose rest])) := by
  have hretire : Deed.Signed allocated freed (.retire b :: (done.map .evict ++ [.lose rest])) :=
    .retire_cons hb unsigned_stopped
  refine .append (.handOut_cons hb' (.of_unsigned ?_) ?_)
    (List.forall_mem_cons.mpr ⟨trivial, fun d hd => (unsigned_stopped d hd).withholds⟩) hretire.retire
  · exact List.forall_mem_singleton.mpr trivial
  · exact List.forall_mem_singleton.mpr trivial

/-- Moving a chunk does all of that, or nothing. -/
theorem ends_move (hfit : c.Fit failing) (hsound : Scene.Sound failing marked (c.scene hand))
    {p : Nat} (hzero : p ≠ 0) {size : Nat} (hsize : size ≠ 0) :
    Act.Ends (move p size) c
      (fun fresh c' => (Keeps 2 c c'
        ∧ Relocates failing marked c hand p fresh size (c.shared.originOf 0 c.thread.tid 0)
          (c.shared.originOf 1 c.thread.tid 0) c')
        ∧ ∃ user c'', allocate size Shadow.granule .malloc 0 c = .ok user c'')
      fun e c' => (Rests failing marked c hand c' ∧ (∀ w, e = .free w → Accuses w c c'))
          ∧ Stays c hand p size e
        ∨ Forsakes failing marked c hand p (c.shared.originOf 0 c.thread.tid 0)
          (fun q => c.shared.originOf (tracesBefore p size q) c.thread.tid 0) e c' := by
  unfold move
  rw [Act.ends_bind, Act.ends_get]
  rcases movable_spec hfit hsound p with ⟨b, hb, huser, hstate, hmismatch, hmovable⟩ |
    ⟨w, hmovable, hwrong⟩
  case inr =>
    simp only [hmovable]
    refine (ends_refuseFree marked hand hfit w).imp (fun _ _ hok => hok) ?_
    rintro _ c' ⟨rfl, hrests, haccuses⟩
    refine .inl ⟨⟨hrests, ?_⟩, .wrong hwrong⟩
    rintro _ ⟨⟩
    exact haccuses (counted_of_wrong hwrong)
  simp only [hmovable]
  rw [Act.ends_bind, Act.ends_mapError]
  refine (ends_allocate hfit hsound size _ .malloc 0).imp_eq ?_ fun _ _ hact hrefused =>
    .inl ⟨⟨hrefused.1, nofun⟩, .unfetched hb huser hstate hmismatch hact⟩
  rintro fresh c1 hact ⟨hallocates, hkeeps1, hsame1⟩
  have hcopies := copies_of_allocates hsound hb hstate hallocates hkeeps1 hsame1
  rw [huser] at hcopies
  rw [Act.ends_bind, ends_onShared]
  refine Act.ends_modify.mpr ?_
  show Act.Ends _ (c1.withSession ⟨c1.shared.heap.mapPages
    (·.copy p fresh (min b.record.requestedSize size)), c1.thread.cache⟩) _ _
  generalize c1.withSession _ = c2 at hcopies ⊢
  obtain ⟨hne, hb2, hkeeps, hsame, b', content, copied, hrecord, hfill, hbytes, hreach⟩ := hcopies
  -- What the old chunk is freed to is told in terms of the first state.
  have hoptions : c2.options = c.options := congrArg Config.redzoneOptions hreach.shared.config
  have hfree := ends_free_chunk hreach.fit (hreach.sound hsound) hb2 hstate (hoptions ▸ hmismatch)
    (huser ▸ hzero) 0
  rw [huser, hsame.queue, hsame.batch, hkeeps.originOf_eq hreach 0] at hfree
  rw [Act.ends_bind, Act.ends_attempt]
  refine hfree.imp ?_ ?_
  · rintro _ c3 ⟨hkeeps3, ev, hev, htakes, hfreed⟩
    have hdone := hreach.trans hfreed
    dsimp only
    rw [Act.ends_bind, ends_onShared]
    refine (ends_count (by decide)).imp ?_ fun _ _ hno => hno
    intro _ u hlike
    exact Act.ends_pure.mpr ⟨⟨(hkeeps.trans hkeeps3).trans (.of_like hlike), hzero, b, hb, huser, hstate,
      hmismatch, b', content, copied, hrecord, hfill, huser ▸ hbytes, ev, hev,
      ⟨hlike.quarantine.trans htakes.queue, htakes.batch⟩,
      hdone.quietly (reaches_shared (hlike.reaches hdone.fit))⟩, fresh, c1, hact⟩
  · rintro e c3 ⟨hkeeps3, hfailing, herror, ev, hev, done, rest, hevicted, hdone, hfreed⟩
    have hall := hreach.trans hfreed
    have horigin := (hkeeps.trans hkeeps3).originOf_eq hall 0
    have hforsakes : Forsakes failing marked c hand p (c.shared.originOf 0 c.thread.tid 0)
        (fun q => c.shared.originOf (tracesBefore p size q) c.thread.tid 0) e c3 := by
      refine ⟨hfailing, herror, b, hb, huser, hstate, ev, hev, ?_, _, _, _,
        fun d hd => (unsigned_stopped d hd).withholds, signed_moved (congrArg _ hrecord) ?_, hall⟩
      · rw [hevicted]
        exact List.append_ne_nil_of_left_ne_nil hdone rest
      · show _ = c.shared.originOf (tracesBefore p size b.record.userBegin) c.thread.tid 0
        rw [tracesBefore, if_neg hsize, if_pos huser]
        rfl
    dsimp only
    rw [Act.ends_bind]
    refine (hforsakes.ends_giveBack hsound (q := fresh) ?_).imp (fun _ _ h => .inr h) fun _ _ hno => hno.elim
    show _ = c.shared.originOf (tracesBefore p size fresh) c.thread.tid 0
    rw [horigin, tracesBefore, if_neg hsize, if_neg (huser ▸ hne)]
    rfl

/-- Changing a size allocates, frees or moves. -/
theorem ends_reallocate (hfit : c.Fit failing) (hsound : Scene.Sound failing marked (c.scene hand))
    (p size : Nat) :
    Act.Ends (reallocate p size) c
      (fun q c' =>
        (∃ n, Keeps n c c')
        ∧ (p = 0 ∧ Allocates failing marked c hand q size .malloc
            (c.shared.originOf 0 c.thread.tid 0) c' ∧ SameQuarantine c c'
          ∨ p ≠ 0 ∧ size = 0 ∧ q = 0
            ∧ Frees failing marked c hand p .malloc (c.shared.originOf 0 c.thread.tid 0) c'
          ∨ size ≠ 0 ∧ Relocates failing marked c hand p q size
            (c.shared.originOf 0 c.thread.tid 0) (c.shared.originOf 1 c.thread.tid 0) c'))
      fun e c' => Rests failing marked c hand c' ∧ (p = 0 → Idles 1 c c')
          ∧ (∀ w, e = .free w → Accuses w c c')
        ∨ p ≠ 0 ∧ Forsakes failing marked c hand p (c.shared.originOf 0 c.thread.tid 0)
          (fun q => c.shared.originOf (tracesBefore p size q) c.thread.tid 0) e c' := by
  unfold reallocate
  by_cases hzero : p = 0
  · rw [if_pos hzero, Act.ends_mapError]
    refine (ends_allocate hfit hsound size _ .malloc 0).imp ?_ fun _ _ hrefused =>
      .inl ⟨hrefused.1, fun _ => hrefused.2, nofun⟩
    rintro q c' ⟨hallocates, hkeeps, hsame⟩
    exact ⟨⟨_, hkeeps⟩, .inl ⟨hzero, hallocates, hsame⟩⟩
  -- Size zero frees the block, whatever the failure of a move would be.
  rw [if_neg hzero]
  by_cases hsize : size = 0
  · rw [if_pos hsize, Act.ends_bind]
    refine (ends_free hfit hsound p .malloc 0).imp ?_ ?_
    · rintro _ c' ⟨hkeeps, ⟨hp, -⟩ | hfrees⟩
      · exact absurd hp hzero
      · exact ⟨⟨_, hkeeps⟩, .inr (.inl ⟨hzero, hsize, rfl, hfrees⟩)⟩
    · rintro _ c' (⟨-, ⟨w, rfl, -, haccuses⟩, hrests⟩ | ⟨-, -, hfailed⟩)
      · refine .inl ⟨hrests, fun h => absurd h hzero, ?_⟩
        rintro _ ⟨⟩
        exact haccuses
      · refine .inr ⟨hzero, hfailed.forsakes ?_⟩
        rw [tracesBefore, if_pos hsize]
  · rw [if_neg hsize]
    refine (ends_move hfit hsound hzero hsize).imp ?_ fun _ _ hno =>
      hno.imp (fun ⟨h, _⟩ => ⟨h.1, fun hp => absurd hp hzero, h.2⟩) fun h => ⟨hzero, h⟩
    rintro q c' ⟨⟨hkeeps, hrelocates⟩, -⟩
    exact ⟨⟨_, hkeeps⟩, .inr (.inr ⟨hsize, hrelocates⟩)⟩

end Sanitizer.Client

end GuardedHeap
