import GuardedHeap.Proofs.Run.States

/-! # Ledgers — what a user could write down

    A ledger has the chunks by the addresses that users got: what was asked
    for, by which call, and where a chunk was freed that has not left the
    quarantine.  It is kept by looking at the calls and their answers
    alone, and at what leaves the quarantine.  `Agrees` says that a ledger
    and the chunks of a heap tell the same; every event of a run without
    failures keeps that up, and so the ledger foretells every free. -/

namespace GuardedHeap

open Quarantine (Entry)

/-- A chunk that was freed at an address waits in the quarantine. -/
def Sanitizer.waits (s : Sanitizer) (p : Nat) : Bool :=
  s.waiting.any (·.user == p)

namespace Ledger

/-- What a ledger has on a chunk. -/
structure Item where
  size : Nat
  api : Api
  allocated : Origin
  /-- Where it was freed, if it was. -/
  freed : Option Origin := none
  deriving DecidableEq, Repr

end Ledger

/-- The chunks that users have, or had and that are still in the quarantine. -/
abbrev Ledger :=
  Nat → Option Ledger.Item

namespace Ledger

/-- A chunk was allocated. -/
def enter (l : Ledger) (p : Nat) (i : Item) : Ledger :=
  Function.update l p (some i)

/-- A chunk was freed. -/
def retire (l : Ledger) (p : Nat) (freed : Origin) : Ledger :=
  Function.update l p ((l p).map fun i => { i with freed := some freed })

/-- Freed chunks are forgotten that wait in the quarantine no more. -/
def forget (l : Ledger) (waits : Nat → Bool) : Ledger := fun p =>
  (l p).filter fun i => i.freed.isNone || waits p

/-- The ledger after an event. -/
def record (l : Ledger) (o : Occurrence) : Ledger :=
  let origin (earlier id : Nat) (stack : StackId) :=
    o.before.originOf earlier (id % Thread.tidLimit) stack
  match o.event with
  | .call (.allocate id size _ api stack) (.ok user) =>
    l.enter user { size, api, allocated := origin 0 id stack }
  | .call (.calloc id times size) (.ok user) =>
    l.enter user { size := times * size, api := .malloc, allocated := origin 0 id 0 }
  | .call (.reallocate id p size) (.ok user) =>
    if p = 0 then l.enter user { size, api := .malloc, allocated := origin 0 id 0 }
    else if size = 0 then l.retire p (origin 0 id 0)
    else (l.enter user { size, api := .malloc, allocated := origin 0 id 0 }).retire p (origin 1 id 0)
  | .call (.free id p _ stack) (.ok _) =>
    if p = 0 then l else l.retire p (origin 0 id stack)
  | _ => l

/-- The ledger of a run: what left the quarantine with an event is forgotten after it. -/
def of (past : List Occurrence) : Ledger :=
  past.foldl (fun l o => (l.record o).forget o.after.waits) fun _ => none

/-- What the ledger says about a free: it is answered at zero, and where a live chunk begins that
    the call matches or need not match. -/
def verdict (l : Ledger) (o : RedzoneOptions) (p : Nat) (api : Api) (tid : Nat) : Answer :=
  if p = 0 then .ok 0
  else
    match l p with
    | none => .error (.free (.invalidFree p tid))
    | some i =>
      match i.freed with
      | some freed => .error (.free (.doubleFree p tid i.size i.allocated freed))
      | none =>
        if i.api ≠ api ∧ o.allocDeallocMismatch = true ∧ o.haltOnFreeError = true then
          .error (.free (.allocDeallocMismatch p tid i.api api i.allocated.stack))
        else .ok 0

/-! ## Ledgers and chunks -/

/-- What a record has to tell. -/
def item (r : ChunkRecord) : Item where
  size := r.requestedSize
  api := r.api
  allocated := r.allocated
  freed := if r.state = .quarantined then some r.freed else none

/-- The ledger has the chunks of a set, and nothing else. -/
def Agrees (l : Ledger) (cs : Set Block) : Prop :=
  ∀ p i, l p = some i ↔ ∃ b ∈ cs, b.record.userBegin = p ∧ item b.record = i

namespace Agrees

variable {failing marked : Prop} {l : Ledger} {cs : Set Block} {s t u : Scene} {b : Block}

theorem get (h : Agrees l cs) (hb : b ∈ cs) : l b.record.userBegin = some (item b.record) :=
  (h _ _).mpr ⟨b, hb, rfl, rfl⟩

/-- A chunk that is handed out is entered. -/
theorem handOut (h : Agrees l s.chunks) (hsound : Scene.Sound failing marked s)
    {content : Nat → UInt8} (hallowed : (Deed.handOut b content).Allowed s.chunks) :
    Agrees (l.enter b.record.userBegin (item b.record)) (insert b s.chunks) := by
  obtain ⟨-, hfits, hapart⟩ := hallowed
  have hother : ∀ c ∈ s.chunks, c.record.userBegin ≠ b.record.userBegin := by
    intro c hc heq
    have hin := (hsound.fits c hc.1 hc.2).userBegin_mem
    rw [heq] at hin
    exact Set.disjoint_left.mp (hapart c hc) hin hfits.userBegin_mem
  intro p i
  by_cases hp : p = b.record.userBegin
  · subst hp
    rw [enter, Function.update_self, Option.some.injEq]
    constructor
    · exact fun hi => ⟨b, Set.mem_insert _ _, rfl, hi⟩
    · rintro ⟨c, rfl | hc, huser, hi⟩
      · exact hi
      · exact absurd huser (hother c hc)
  · rw [enter, Function.update_of_ne hp, h]
    constructor
    · rintro ⟨c, hc, huser, hi⟩
      exact ⟨c, Set.mem_insert_of_mem _ hc, huser, hi⟩
    · rintro ⟨c, rfl | hc, huser, hi⟩
      · exact absurd huser.symm hp
      · exact ⟨c, hc, huser, hi⟩

/-- A chunk that is freed is marked. -/
theorem retire (h : Agrees l s.chunks) (hsound : Scene.Sound failing marked s) (hb : b ∈ s.chunks)
    (freed : Origin) :
    Agrees (l.retire b.record.userBegin freed)
      (insert (b.withRecord { b.record with state := .quarantined, freed })
        {c | c ∈ s.chunks ∧ c.begin ≠ b.begin}) := by
  intro p i
  by_cases hp : p = b.record.userBegin
  · subst hp
    rw [Ledger.retire, Function.update_self, h.get hb, Option.map_some, Option.some.injEq]
    constructor
    · exact fun hi => ⟨_, Set.mem_insert _ _, rfl, hi⟩
    · rintro ⟨c, rfl | ⟨hc, hne⟩, huser, hi⟩
      · exact hi
      · exact absurd (congrArg Block.begin (hsound.chunk_unique hc hb huser)) hne
  · rw [Ledger.retire, Function.update_of_ne hp, h]
    constructor
    · rintro ⟨c, hc, huser, hi⟩
      refine ⟨c, Set.mem_insert_of_mem _ ⟨hc, fun heq => hp ?_⟩, huser, hi⟩
      rw [← huser, hsound.tiled.eq_of_begin hc.1 hb.1 heq]
    · rintro ⟨c, rfl | ⟨hc, -⟩, huser, hi⟩
      · exact absurd huser.symm hp
      · exact ⟨c, hc, huser, hi⟩

/-- What leaves the quarantine is forgotten, and only that. -/
theorem forget (h : Agrees l s.chunks) (hsound : Scene.Sound False marked s)
    {evicted : List Entry} (hmoves : Moves False marked s (evicted.map .evict) t)
    {waits : Nat → Bool} (hwaits : ∀ p, waits p = true ↔ ∃ e ∈ t.waiting, e.user = p) :
    Agrees (l.forget waits) t.chunks := by
  have hsound' := hsound.moves hmoves
  have hsub : t.chunks ⊆ s.chunks := by
    rw [hsound.chunks_moves hmoves]
    clear hmoves
    generalize s.chunks = cs
    induction evicted generalizing cs with
    | nil => exact fun c hc => hc
    | cons e rest ih => exact fun c hc => (ih _ hc).1
  -- What is still there is live or waits; what is gone does neither.
  have hkept : ∀ c ∈ s.chunks, c ∈ t.chunks ↔
      (item c.record).freed.isNone = true ∨ waits c.record.userBegin = true := by
    intro c hc
    rw [hwaits]
    constructor
    · intro hin
      by_cases hstate : c.record.state = .quarantined
      · exact .inr ⟨c.entry, hsound'.quarantined_held not_false c hin.1 hstate, rfl⟩
      · left
        rw [item, if_neg hstate]
        rfl
    · rintro (hlive | ⟨e, he, huser⟩)
      · have hstate : c.record.state = .allocated := by
          cases hstate : c.record.state with
          | recycled => exact absurd hstate hc.2
          | allocated => rfl
          | quarantined =>
              rw [item, if_pos hstate] at hlive
              exact nomatch hlive
        refine hsound.allocated_stays hmoves hc hstate fun r hr => ?_
        obtain ⟨e, -, heq⟩ := List.mem_map.mp hr
        exact nomatch heq
      · obtain ⟨d, hd, rfl, hstate⟩ := hsound'.waiting_block e he
        have hin : d ∈ t.chunks := ⟨hd, by rw [hstate]; decide⟩
        obtain rfl := hsound.chunk_unique (hsub hin) hc huser
        exact hin
  intro p i
  rw [Ledger.forget, Option.filter_eq_some_iff, h, Bool.or_eq_true]
  constructor
  · rintro ⟨⟨b, hb, rfl, rfl⟩, hkeep⟩
    exact ⟨b, (hkept b hb).mpr hkeep, rfl, rfl⟩
  · rintro ⟨b, hb, rfl, rfl⟩
    exact ⟨⟨b, hsub hb, rfl, rfl⟩, (hkept b (hsub hb)).mp hb⟩

/-- A ledger that has the chunks before the evictions that end a call has, once they are forgotten,
    the chunks after it. -/
theorem settle {s t : Sanitizer} (ds : List Deed) (evicted : List Entry)
    (hsound : Scene.Sound False marked (s.scene s.threads 0))
    (hcomes : Sanitizer.Comes False marked s (ds ++ evicted.map .evict) t)
    (h : Agrees l (Deed.allChunks ds s.heap.chunks)) : Agrees (l.forget t.waits) t.heap.chunks := by
  obtain ⟨u, hbefore, hafter⟩ := hcomes.moves.split
  have hchunks : u.chunks = Deed.allChunks ds s.heap.chunks := hsound.chunks_moves hbefore
  refine forget (s := u) (hchunks ▸ h) (hsound.moves hbefore) hafter fun p => ?_
  unfold Sanitizer.waits
  rw [List.any_eq_true, Sanitizer.waiting_scene]
  simp only [beq_iff_eq, Multiset.mem_coe]

/-- Without evictions a ledger that has the chunks has nothing to forget. -/
theorem settle_kept {s t : Sanitizer} {ds : List Deed}
    (hsound : Scene.Sound False marked (s.scene s.threads 0))
    (hcomes : Sanitizer.Comes False marked s ds t)
    (h : Agrees l (Deed.allChunks ds s.heap.chunks)) : Agrees (l.forget t.waits) t.heap.chunks := by
  refine settle ds [] hsound ?_ h
  rw [List.map_nil, List.append_nil]
  exact hcomes

end Agrees

section Record

variable {marked : Prop} {l : Ledger} {s t : Sanitizer} {ds : List Deed} {b : Block}

theorem record_refused (op : Operation) (e : SanitizerError) :
    l.record ⟨s, .call op (.error e), t⟩ = l := by
  cases op <;> rfl

theorem record_quiet {op : Operation} (hop : ¬ op.OnChunks) (a : Nat) :
    l.record ⟨s, .call op (.ok a), t⟩ = l := by
  cases op <;> first | rfl | exact absurd trivial hop

/-- A block that is handed out is entered with what was recorded about it. -/
theorem agrees_enter {content : Nat → UInt8} {a : Allocation} {rest : List Deed}
    (hsound : Scene.Sound False marked (s.scene s.threads 0))
    (hcomes : Sanitizer.Comes False marked s (.handOut b content :: rest) t)
    (hrecord : b.record = .recordAllocation a) (h : Agrees l s.heap.chunks) :
    Agrees (l.enter a.userBegin { size := a.requestedSize, api := a.api, allocated := a.origin })
      (insert b s.heap.chunks) := by
  have hentered := Agrees.handOut (s := s.scene s.threads 0) h hsound
    (hsound.allowed_first hcomes.moves)
  rw [hrecord] at hentered
  exact hentered

/-- After a free the ledger has the chunks again. -/
theorem agrees_retires {u : Thread} {p : Nat} {api : Api} {origin : Origin} (before : List Deed)
    (hsound : Scene.Sound False marked (s.scene s.threads 0))
    (hb : Sanitizer.Retires s u p api origin b ds)
    (hcomes : Sanitizer.Comes False marked s (before ++ ds) t)
    (h : Agrees l (Deed.allChunks before s.heap.chunks))
    (hstays : ∀ v, Moves False marked (s.scene s.threads 0) before v → b ∈ v.chunks) :
    Agrees ((l.retire p origin).forget t.waits) t.heap.chunks := by
  obtain ⟨ev, -, rfl⟩ := hb.deeds
  obtain ⟨v, hbefore, -⟩ := hcomes.moves.split
  have hchunks : v.chunks = Deed.allChunks before s.heap.chunks := hsound.chunks_moves hbefore
  refine Agrees.settle (before ++ [.retire _]) _ hsound
    (by rw [List.append_assoc]; exact hcomes) ?_
  unfold Deed.allChunks at h hchunks ⊢
  rw [List.foldl_append, ← hchunks]
  rw [← hchunks] at h
  have hretired := h.retire (hsound.moves hbefore) (hstays v hbefore) origin
  rw [hb.user] at hretired
  exact hretired

/-- Every event keeps the ledger and the chunks in agreement. -/
theorem agrees_record {e : Event} (hsound : Scene.Sound False marked (s.scene s.threads 0))
    (hcomes : Sanitizer.Comes False marked s ds t) (htells : s.Tells e t ds)
    (h : Agrees l s.heap.chunks) :
    Agrees ((l.record ⟨s, e, t⟩).forget t.waits) t.heap.chunks := by
  cases htells with
  | write => exact Agrees.settle_kept hsound hcomes h
  | tick | readLog | schedule => exact Agrees.settle_kept hsound hcomes h
  | call htold hstacks =>
    cases htold with
    | allocate hu hb =>
        obtain rfl := (Sanitizer.Client.of_thread? hu).2
        exact Agrees.settle_kept hsound hcomes (agrees_enter hsound hcomes hb.record h)
    | calloc hu hrecord =>
        obtain rfl := (Sanitizer.Client.of_thread? hu).2
        exact Agrees.settle_kept hsound hcomes (agrees_enter hsound hcomes hrecord h)
    | reallocateNone hu hb =>
        obtain rfl := (Sanitizer.Client.of_thread? hu).2
        exact Agrees.settle_kept hsound hcomes (agrees_enter hsound hcomes hb.record h)
    | @reallocateZero _ p u b _ hu hp hb =>
        obtain rfl := (Sanitizer.Client.of_thread? hu).2
        have hrecord : l.record ⟨s, .call (.reallocate u.id p 0) (.ok 0), t⟩ =
            l.retire p (s.originOf 0 u.tid 0) := if_neg hp
        rw [hrecord]
        refine agrees_retires [] hsound hb hcomes h fun v hmoves => ?_
        rw [hsound.chunks_moves hmoves]
        exact hb.mem
    -- The new chunk enters first, and the old one retires after it.
    | @reallocate _ p size user u b b' _ _ _ hu hp hsize hb hb' hcopied =>
        obtain rfl := (Sanitizer.Client.of_thread? hu).2
        have hrecord : l.record ⟨s, .call (.reallocate u.id p size) (.ok user), t⟩ =
            (l.enter user { size, api := .malloc, allocated := s.originOf 0 u.tid 0 }).retire p
              (s.originOf 1 u.tid 0) := (if_neg hp).trans (if_neg hsize)
        rw [hrecord]
        refine agrees_retires [_, _] hsound hb hcomes
          (agrees_enter hsound hcomes hb'.record h) fun v hmoves => ?_
        rw [hsound.chunks_moves hmoves]
        exact Set.mem_insert_of_mem _ hb.mem
    | freeNone => exact Agrees.settle_kept hsound hcomes h
    | @free _ p api stack u b _ hu hp hb =>
        obtain rfl := (Sanitizer.Client.of_thread? hu).2
        have hrecord : l.record ⟨s, .call (.free u.id p api stack) (.ok 0), t⟩ =
            l.retire p (s.originOf 0 u.tid stack) := if_neg hp
        rw [hrecord]
        refine agrees_retires [] hsound hb hcomes h fun v hmoves => ?_
        rw [hsound.chunks_moves hmoves]
        exact hb.mem
    | freeWrong =>
        rw [record_refused]
        exact Agrees.settle_kept hsound hcomes h
    | unregister => exact Agrees.settle [] _ hsound hcomes h
    | refused =>
        rw [record_refused]
        exact Agrees.settle_kept hsound hcomes h
    | quiet hop =>
        rw [record_quiet hop]
        exact Agrees.settle_kept hsound hcomes h

end Record

/-! ## What a ledger foretells -/

section Verdict

variable {l : Ledger} {h : Heap} {o : RedzoneOptions} {p : Nat}

/-- The verdict of a ledger on a free that is wrong. -/
theorem verdict_wrong {api : Api} {tid : Nat} {w : FreeError} (hl : Agrees l h.chunks) (hp : p ≠ 0)
    (hw : Redzone.Wrong o h.chunks p api tid w) : l.verdict o p api tid = .error (.free w) := by
  unfold verdict
  rw [if_neg hp]
  cases hw with
  | doubleFree b hb huser hstate =>
      have hitem := hl.get hb
      rw [huser] at hitem
      simp only [hitem, item, hstate, if_true]
  | mismatch b hb huser hstate hmismatch =>
      have hitem := hl.get hb
      rw [huser] at hitem
      simp only [hitem, item, hstate, reduceCtorEq, if_false]
      exact if_pos hmismatch
  | invalidFree hnone =>
      cases hitem : l p with
      | none => rfl
      | some i =>
          obtain ⟨b, hb, huser, -⟩ := (hl p i).mp hitem
          exact absurd huser (hnone b hb)

/-- The verdict of a ledger on a free of a chunk. -/
theorem verdict_retires {s : Sanitizer} {t : Thread} {api : Api} {origin : Origin} {b : Block}
    {ds : List Deed} (tid : Nat) (hl : Agrees l s.heap.chunks)
    (hb : Sanitizer.Retires s t p api origin b ds) : l.verdict s.options p api tid = .ok 0 := by
  have hitem := hl.get hb.mem
  rw [hb.user] at hitem
  unfold verdict
  by_cases hp : p = 0
  · exact if_pos hp
  · simp only [if_neg hp, hitem, item, hb.state, reduceCtorEq, if_false]
    exact if_neg hb.matches_api

/-- A ledger that has the chunks foretells what a free is answered. -/
theorem Agrees.verdict_told {s : Sanitizer} {id : Nat} {t : Thread} {api : Api} {stack : StackId}
    {answer : Answer} {ds : List Deed} (hl : Agrees l s.heap.chunks) (ht : s.thread? id = some t)
    (htold : s.Told (.free id p api stack) answer ds) :
    l.verdict s.options p api t.tid = answer := by
  cases htold with
  | freeNone => exact if_pos rfl
  | free _ _ hb => exact verdict_retires t.tid hl hb
  | freeWrong ht' hp hw =>
      rw [ht] at ht'
      obtain rfl := Option.some.inj ht'
      exact verdict_wrong hl hp hw
  | refused hop => exact (hop _ _ _ _ rfl).elim
  | quiet hop => exact absurd trivial hop

/-- The ledger has the sizes of the chunks that users have. -/
theorem Agrees.usableSize?_eq (hl : Agrees l h.chunks) (hwf : h.WF)
    (hfits : ∀ b ∈ h.blocks, b.record.state ≠ .recycled → b.Fits) :
    h.usableSize? p = ((l p).filter (·.freed.isNone)).map (·.size) := by
  refine Option.ext fun n => ?_
  rw [Redzone.usableSize?_eq_some hwf hfits, Option.map_eq_some_iff]
  constructor
  · rintro ⟨b, hb, rfl, hstate, rfl⟩
    have hitem := hl.get ⟨hb, by rw [hstate]; decide⟩
    refine ⟨_, Option.filter_eq_some_iff.mpr ⟨hitem, ?_⟩, rfl⟩
    rw [item, hstate]
    rfl
  · rintro ⟨i, hi, rfl⟩
    obtain ⟨hitem, hlive⟩ := Option.filter_eq_some_iff.mp hi
    obtain ⟨b, hb, huser, rfl⟩ := (hl p i).mp hitem
    refine ⟨b, hb.1, huser, ?_, rfl⟩
    cases hstate : b.record.state with
    | recycled => exact absurd hstate hb.2
    | allocated => rfl
    | quarantined =>
        rw [item, if_pos hstate] at hlive
        exact nomatch hlive

end Verdict

end Ledger

namespace Run

variable {marked : Prop} {past : List Occurrence} {s : Sanitizer}

/-- The ledger of a run has the chunks that there are. -/
theorem agrees (h : Run False marked past s) : (Ledger.of past).Agrees s.heap.chunks := by
  induction h with
  | @start config log capture now p q s hinit hcalm =>
      obtain ⟨-, hfresh⟩ := begins hinit hcalm
      have hblocks : s.heap.blocks = ∅ := hfresh.heap.blocks
      intro p i
      refine ⟨nofun, ?_⟩
      rintro ⟨b, ⟨hb, -⟩, -⟩
      rw [hblocks] at hb
      exact hb.elim
  | snoc h hstep hfails hmarks ih =>
      obtain ⟨ds, hcomes, htells, -⟩ := hstep.comes h.fit h.sound hfails hmarks
      unfold Ledger.of
      rw [List.foldl_append]
      exact Ledger.agrees_record h.sound hcomes (htells not_false) ih

/-- As long as no call of the operating system fails, the ledger foretells what every thread is
    answered when it frees at any address, and it knows the chunks: where users have one and of
    what size, and what is on record about those that they have and had. -/
theorem ledger_foretells (h : Run False marked past s) {id : Nat} {t : Thread}
    (ht : s.thread? id = some t) (p : Nat) (api : Api) (stack : StackId) :
    (∃ s', (Act.attempt (Operation.free id p api stack).perform : Act Empty Sanitizer Answer) s =
      .ok ((Ledger.of past).verdict s.options p api t.tid) s')
    ∧ (s.owns p = true ↔ ∃ i, Ledger.of past p = some i ∧ i.freed = none)
    ∧ s.allocatedSize p = (((Ledger.of past p).filter (·.freed.isNone)).map (·.size)).getD 0
    ∧ ∀ i, Ledger.of past p = some i →
      ∃ k, s.heap.chunk? p = some k ∧ k.record.userBegin = p ∧ Ledger.item k.record = i
        ∧ k.record.state = if i.freed = none then .allocated else .quarantined := by
  have hl := h.agrees
  have hwf := h.fit.heap
  have hfits : ∀ b ∈ s.heap.blocks, b.record.state ≠ .recycled → b.Fits := h.sound.fits
  have husable := hl.usableSize?_eq (p := p) hwf hfits
  refine ⟨?_, ?_, congrArg (·.getD 0) husable, ?_⟩
  · rcases (Sanitizer.ends_free h.fit h.sound ht p api stack).attempt with
      ⟨a, s', hact, ds, -, htold, -⟩ | ⟨e, s', hact, ds, -, htold, -⟩
    · rw [hl.verdict_told ht (htold not_false).1]
      exact ⟨s', hact⟩
    · rw [hl.verdict_told ht (htold not_false).1]
      exact ⟨s', hact⟩
  · unfold Sanitizer.owns
    rw [husable, Option.isSome_map, Option.isSome_iff_exists]
    simp only [Option.filter_eq_some_iff, Option.isNone_iff_eq_none]
  · intro i hi
    obtain ⟨b, hb, rfl, rfl⟩ := (hl p i).mp hi
    refine ⟨b.chunk, Redzone.chunk?_eq hwf hb.1 (hfits b hb.1 hb.2).userBegin_mem, rfl, rfl, ?_⟩
    show b.record.state = _
    unfold Ledger.item
    cases hstate : b.record.state with
    | recycled => exact absurd hstate hb.2
    | allocated => rfl
    | quarantined => rfl

/-- A chunk of one thread that another has freed: the first is told of both when it frees the chunk
    once more. -/
theorem ledger_foretells_double_free :
    ∃ past s t, Run False True past s ∧ s.thread? 0 = some t
      ∧ Ledger.of past 17660905521280 =
        some { size := 10, api := .malloc, allocated := ⟨1, 0⟩, freed := some ⟨2, 1⟩ }
      ∧ ∃ s', (Act.attempt (Operation.free 0 17660905521280 .malloc 0).perform :
          Act Empty Sanitizer Answer) s =
        .ok (.error (.free (.doubleFree 17660905521280 0 10 ⟨1, 0⟩ ⟨2, 1⟩))) s' := by
  obtain ⟨past, s, hrun, hcheck⟩ := of_plays False True
    (show Request.plays {} .counter {}
      [.call .register, .call .register, .call (.allocate 0 10 8 .malloc 0),
        .call (.free 1 17660905521280 .malloc 0)]
      (fun past s => (s.thread? 0).any (·.tid == 0)
        && Ledger.of past 17660905521280 ==
          some { size := 10, api := .malloc, allocated := ⟨1, 0⟩, freed := some ⟨2, 1⟩ })
      = true by decide +kernel)
    (by simp [Request.Fits, Operation.Marks])
  obtain ⟨hthread, hledger⟩ := Bool.and_eq_true_iff.mp hcheck
  obtain ⟨t, ht, htid⟩ := (Option.any_eq_true _ _).mp hthread
  rw [beq_iff_eq] at hledger htid
  obtain ⟨⟨s', hact⟩, -⟩ := ledger_foretells hrun ht 17660905521280 .malloc 0
  have hverdict : (Ledger.of past).verdict s.options 17660905521280 .malloc t.tid =
      .error (.free (.doubleFree 17660905521280 0 10 ⟨1, 0⟩ ⟨2, 1⟩)) := by
    simp only [Ledger.verdict, hledger, htid]
    rfl
  exact ⟨past, s, t, hrun, ht, hledger, s', hverdict ▸ hact⟩

end Run

end GuardedHeap
