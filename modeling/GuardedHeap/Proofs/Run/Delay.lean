import GuardedHeap.Proofs.Run.Accounts
import GuardedHeap.Proofs.Run.Guards
import GuardedHeap.Proofs.Run.Waiting

/-! # Delay — how long a freed block is kept from being used again

    From its free on an entry is in one of three places: in a batch, in
    the queue, or out of the queue with more than the budget behind it
    (`Delayed`).  Every event keeps that, and a block that an allocation
    returns waits nowhere. -/

namespace GuardedHeap

open Quarantine (Entry weight)

namespace Quarantine

/-- What was in the queue with `behind` behind it is still there, or has more than the budget behind
    it. -/
theorem Joins.kept {q q' : Quarantine} {joined before behind : List Entry} {e : Entry}
    (h : q.Joins joined q') (hsplit : q.queue ++ joined = before ++ e :: behind) :
    (∃ before, q'.queue = before ++ e :: behind) ∨ q.maxBytes < weight (e :: behind) := by
  obtain ⟨gone, heq, hgone⟩ := h.split
  rw [heq] at hsplit
  rcases List.append_eq_append_iff.mp hsplit with ⟨mid, rfl, hmid⟩ | ⟨mid, rfl, hmid⟩
  · exact .inl ⟨mid, hmid⟩
  · cases mid with
    | nil => exact .inl ⟨[], by simpa using hmid.symm⟩
    | cons f mid =>
        obtain ⟨rfl, rfl⟩ := List.cons.inj hmid
        exact .inr (hgone before e mid rfl)

end Quarantine

/-- Where an entry is that was freed, given what has joined the queue since. -/
def Delayed (e : Entry) (joined : List Entry) (s : Sanitizer) : Prop :=
  (∃ id, e ∈ s.batchOf id) ∧ e ∉ joined
  ∨ ∃ before behind, joined = before ++ e :: behind ∧ e ∉ before
    ∧ ((∃ ahead, s.quarantine.queue = ahead ++ e :: behind)
      ∨ s.quarantine.maxBytes < weight (e :: behind))

/-- From the entry on, more than `budget` bytes are in the list. -/
def Outweighed (budget : Nat) (e : Entry) (joined : List Entry) : Prop :=
  ∃ ahead behind, joined = ahead ++ e :: behind ∧ e ∉ ahead ∧ budget < weight (e :: behind)

/-- What is behind the first occurrence of an element is the same in both splits. -/
theorem behind_unique {α : Type} {a : α} {xs xs' ys ys' : List α} (hxs : a ∉ xs)
    (hys : a ∉ ys) (h : xs ++ a :: xs' = ys ++ a :: ys') : xs' = ys' := by
  induction xs generalizing ys with
  | nil =>
      cases ys with
      | nil => exact (List.cons.inj h).2
      | cons y ys => exact absurd (List.cons.inj h).1 (fun heq => hys (heq ▸ List.mem_cons_self))
  | cons x xs ih =>
      cases ys with
      | nil => exact absurd (List.cons.inj h).1 (fun heq => hxs (heq ▸ List.mem_cons_self))
      | cons y ys =>
          exact ih (fun hin => hxs (List.mem_cons_of_mem _ hin))
            (fun hin => hys (List.mem_cons_of_mem _ hin)) (List.cons.inj h).2

namespace Sanitizer.Queues

variable {s t : Sanitizer} {id : Nat} {freed joined past : List Entry} {e : Entry}

/-- What was in a batch, or is freed, joins the queue or is in a batch. -/
theorem batched (h : s.Queues id freed joined t) (he : (∃ i, e ∈ s.batchOf i) ∨ e ∈ freed) :
    e ∈ joined ∨ ∃ i, e ∈ t.batchOf i := by
  have hown : e ∈ s.batchOf id ++ freed → e ∈ joined ∨ ∃ i, e ∈ t.batchOf i := by
    rw [h.own, List.mem_append]
    exact Or.imp_right fun he => ⟨id, he⟩
  rcases he with ⟨i, he⟩ | he
  · by_cases hi : i = id
    · exact hown (List.mem_append_left _ (hi ▸ he))
    · exact .inr ⟨i, h.others i hi ▸ he⟩
  · exact hown (List.mem_append_right _ he)

/-- What comes out of a batch is delayed. -/
theorem delayed_of_batched (h : s.Queues id freed joined t) (hpast : e ∉ past)
    (he : (∃ i, e ∈ s.batchOf i) ∨ e ∈ freed) : Delayed e (past ++ joined) t := by
  by_cases hjoined : e ∈ joined
  · obtain ⟨before, behind, rfl, hbefore⟩ := List.eq_append_cons_of_mem hjoined
    refine .inr ⟨past ++ before, behind, (List.append_assoc ..).symm, ?_, ?_⟩
    · rw [List.mem_append]
      exact fun hin => hin.elim hpast hbefore
    · rw [h.joins.budget]
      exact h.joins.kept (List.append_assoc ..).symm
  · refine .inl ⟨(h.batched he).resolve_left hjoined, ?_⟩
    rw [List.mem_append]
    exact fun hin => hin.elim hpast hjoined

/-- A delayed entry stays delayed. -/
theorem delayed (h : s.Queues id freed joined t) (he : Delayed e past s) :
    Delayed e (past ++ joined) t := by
  rcases he with ⟨hbatched, hpast⟩ | ⟨before, behind, rfl, hbefore, hwhere⟩
  · exact h.delayed_of_batched hpast (.inl hbatched)
  · refine .inr ⟨before, behind ++ joined, by simp, hbefore, ?_⟩
    rw [h.joins.budget]
    rcases hwhere with ⟨ahead, hqueue⟩ | hweight
    · have hsplit : s.quarantine.queue ++ joined = ahead ++ e :: (behind ++ joined) := by
        rw [hqueue, List.append_assoc, List.cons_append]
      exact h.joins.kept hsplit
    · right
      rw [← List.cons_append, Quarantine.weight_append]
      exact Nat.lt_add_right _ hweight

end Sanitizer.Queues

namespace Run

variable {failing marked : Prop} {past before between : List Occurrence} {s t : Sanitizer}
  {o : Occurrence} {e : Entry}

/-- The last event of a run happened in a state of the run. -/
theorem of_snoc (h : Run failing marked (past ++ [o]) s) :
    Run failing marked past o.before ∧ o.before.Step o.event s ∧ o.after = s := by
  generalize hall : past ++ [o] = all at h
  cases h with
  | start => exact absurd hall (by simp)
  | snoc hbefore hstep =>
      obtain ⟨rfl, heq⟩ := List.append_inj' hall rfl
      obtain rfl := (List.cons.inj heq).1
      exact ⟨hbefore, hstep, rfl⟩

/-- The budget of the queue is that of the configuration, and what is read off the events is what
    they queue. -/
theorem budget (h : Run False marked past s) (hpos : 0 < s.config.quarantineSize) :
    s.quarantine.maxBytes = s.config.quarantineSize := by
  induction h with
  | start hinit hcalm => exact (begins hinit hcalm).2.budget
  | snoc hbefore hstep hfails hmarks ih =>
      obtain ⟨ds, hcomes, -⟩ := hstep.comes hbefore.fit hbefore.sound hfails hmarks
      rw [hcomes.config] at hpos ⊢
      have hsame := ih hpos
      have hqueues := hstep.queues hbefore.fit hbefore.sound not_false (hsame ▸ hpos)
      rw [hqueues.joins.budget, hsame]

/-- Every event of a run queues what is read off it. -/
theorem queues (h : Run False marked (past ++ [o]) s) (hpos : 0 < s.config.quarantineSize) :
    Run False marked past o.before ∧ o.before.config = s.config
      ∧ o.before.Queues o.event.caller o.freed o.joined s := by
  obtain ⟨hbefore, hstep, hafter⟩ := h.of_snoc
  have hconfig : s.config = o.before.config := by
    generalize hall : past ++ [o] = all at h
    cases h with
    | start => exact absurd hall (by simp)
    | snoc hbefore hstep hfails hmarks =>
        obtain ⟨rfl, heq⟩ := List.append_inj' hall rfl
        obtain rfl := (List.cons.inj heq).1
        obtain ⟨ds, hcomes, -⟩ := hstep.comes hbefore.fit hbefore.sound hfails hmarks
        exact hcomes.config
  rw [hconfig] at hpos
  have hqueues := hstep.queues hbefore.fit hbefore.sound not_false (hbefore.budget hpos ▸ hpos)
  refine ⟨hbefore, hconfig.symm, ?_⟩
  rw [← hafter] at hqueues ⊢
  exact hqueues

/-- An entry is delayed from its free on. -/
theorem delayed (h : Run False marked (before ++ o :: between) s) (he : e ∈ o.freed)
    (hpos : 0 < s.config.quarantineSize) :
    Delayed e ((o :: between).flatMap Occurrence.joined) s := by
  induction between using List.reverseRecOn generalizing s with
  | nil =>
      obtain ⟨-, -, hqueues⟩ := h.queues hpos
      rw [List.flatMap_singleton]
      have hpast : e ∉ ([] : List Entry) := List.not_mem_nil
      exact hqueues.delayed_of_batched hpast (.inr he)
  | append_singleton between last ih =>
      rw [← List.cons_append, ← List.append_assoc] at h
      obtain ⟨hbefore, hconfig, hqueues⟩ := h.queues hpos
      rw [← List.cons_append, List.flatMap_append, List.flatMap_singleton]
      exact hqueues.delayed (ih hbefore (hconfig ▸ hpos))

/-! ## One thread -/

/-- The chunk that is freed was a user's, and so it did not wait. -/
theorem not_waiting_of_freed (h : Run failing marked past o.before) (he : e ∈ o.freed) :
    e ∉ o.before.waiting := by
  intro hin
  rw [← Multiset.mem_coe, ← Sanitizer.waiting_scene] at hin
  obtain ⟨c, hc, rfl, hwaits⟩ := h.sound.waiting_block _ hin
  obtain ⟨b, hb, hstate, hentry⟩ : ∃ b ∈ o.before.heap.blocks, b.record.state = .allocated
      ∧ c.entry.block = b.begin := by
    unfold Occurrence.freed at he
    split at he
    · obtain ⟨k, hk, heq⟩ := Option.map_eq_some_iff.mp (Option.mem_toList.mp he)
      obtain ⟨p, -, hk⟩ := Option.bind_eq_some_iff.mp hk
      obtain ⟨b, hb, -, hstate, rfl⟩ := (Redzone.userChunk?_eq_some h.fit.heap h.sound.fits).mp hk
      exact ⟨b, hb, hstate, (congrArg Entry.block heq).symm⟩
    · exact absurd he List.not_mem_nil
  rw [h.sound.tiled.eq_of_begin hc hb hentry, hstate] at hwaits
  exact nomatch hwaits

/-- An event frees one chunk at most. -/
theorem freed_eq_singleton (he : e ∈ o.freed) : o.freed = [e] := by
  unfold Occurrence.freed at he ⊢
  split at he
  · unfold Sanitizer.freed at he ⊢
    obtain ⟨k, hk, rfl⟩ := Option.map_eq_some_iff.mp (Option.mem_toList.mp he)
    rw [hk]
    rfl
  · exact absurd he List.not_mem_nil

/-- Where one thread does all the freeing, what is freed has joined the queue or is in its batch, in
    order. -/
theorem freed_in_order (h : Run False marked past s) (hpos : 0 < s.config.quarantineSize) {id : Nat}
    (hone : ∀ o ∈ past, o.freed ≠ [] → o.event.caller = id) :
    past.flatMap Occurrence.freed = past.flatMap Occurrence.joined ++ s.batchOf id
      ∧ ∀ i, i ≠ id → s.batchOf i = [] := by
  -- On the run, from its last call: what one call adds to the queue and to the batch stands behind all
  -- that was freed before.
  induction past using List.reverseRecOn generalizing s with
  | nil =>
      generalize hall : ([] : List Occurrence) = all at h
      cases h with
      | snoc => exact absurd hall (by simp)
      | start hinit hcalm =>
          have hthreads := (begins hinit hcalm).2.threads
          have hnone : ∀ i, s.batchOf i = [] := by
            intro i
            unfold Sanitizer.batchOf Sanitizer.thread?
            rw [hthreads]
            rfl
          exact ⟨(hnone id).symm, fun i _ => hnone i⟩
  | append_singleton past o ih =>
      obtain ⟨hbefore, hconfig, hqueues⟩ := h.queues hpos
      obtain ⟨horder, hothers⟩ := ih hbefore (hconfig ▸ hpos)
        fun o ho => hone o (List.mem_append_left _ ho)
      rw [List.flatMap_append, List.flatMap_append, List.flatMap_singleton, List.flatMap_singleton,
        horder, List.append_assoc, List.append_assoc]
      by_cases hcaller : o.event.caller = id
      · have hown := hqueues.own
        rw [hcaller] at hown
        exact ⟨by rw [hown], fun i hi => (hqueues.others i (hcaller ▸ hi)).trans (hothers i hi)⟩
      · have hfreed : o.freed = [] := by
          by_contra hne
          exact hcaller (hone o (List.mem_append_right _ (List.mem_singleton.mpr rfl)) hne)
        have hown := hqueues.own
        rw [hothers _ hcaller, hfreed] at hown
        obtain ⟨hjoined, hbatch⟩ := List.append_eq_nil_iff.mp hown.symm
        rw [hfreed, hjoined, hqueues.others id (Ne.symm hcaller)]
        refine ⟨by simp, fun i hi => ?_⟩
        by_cases hi' : i = o.event.caller
        · rw [hi', hbatch]
        · rw [hqueues.others i hi', hothers i hi]

/-- A run up to one of its events. -/
theorem up_to (h : Run False marked (before ++ o :: between) s)
    (hpos : 0 < s.config.quarantineSize) :
    Run False marked before o.before ∧ o.before.config = s.config := by
  induction between using List.reverseRecOn generalizing s with
  | nil =>
      obtain ⟨hbefore, hconfig, -⟩ := h.queues hpos
      exact ⟨hbefore, hconfig⟩
  | append_singleton between last ih =>
      rw [← List.cons_append, ← List.append_assoc] at h
      obtain ⟨hlast, hconfig, -⟩ := h.queues hpos
      obtain ⟨hbefore, hconfig'⟩ := ih hlast (hconfig ▸ hpos)
      exact ⟨hbefore, hconfig'.trans hconfig⟩

/-- Where one thread does all the freeing, what joins the queue from an entry on was freed from its
    free on. -/
theorem joined_weight_le (h : Run False marked (before ++ o :: between) s)
    (hpos : 0 < s.config.quarantineSize) {id : Nat}
    (hone : ∀ o' ∈ before ++ o :: between, o'.freed ≠ [] → o'.event.caller = id) (he : e ∈ o.freed)
    {ahead behind : List Entry} (hahead : e ∉ ahead)
    (hjoined : (o :: between).flatMap Occurrence.joined = ahead ++ e :: behind) :
    weight (e :: behind) ≤ weight ((o :: between).flatMap Occurrence.freed) := by
  obtain ⟨hbefore, hconfig⟩ := h.up_to hpos
  have hwhole := (h.freed_in_order hpos hone).1
  have hfirst := (hbefore.freed_in_order (hconfig ▸ hpos)
    fun o' ho' => hone o' (List.mem_append_left _ ho')).1
  have hout : e ∉ o.before.batchOf id := fun hin =>
    hbefore.not_waiting_of_freed he (Sanitizer.mem_waiting_of_batchOf hin)
  -- The batch at the free comes first, and then what was freed from there on.
  rw [List.flatMap_append, List.flatMap_append, hfirst, hjoined, List.append_assoc,
    List.append_assoc] at hwhole
  have hsame := List.append_cancel_left hwhole
  rw [List.flatMap_cons, freed_eq_singleton he, List.singleton_append] at hsame ⊢
  rw [List.append_assoc, List.cons_append] at hsame
  rw [behind_unique hout hahead hsame, ← List.cons_append, Quarantine.weight_append]
  exact Nat.le_add_right _ _

/-! ## Reuse -/

/-- A block that an allocation returns waited nowhere. -/
theorem not_waiting_of_returned (h : Run False marked past s) {op : Operation} {user a : Nat}
    {k : Chunk} (hstep : s.Step (.call op (.ok user)) t) (hop : op.Allocates)
    (hk : t.heap.userChunk? user = some k) (hin : k.block ≤ a ∧ a < k.block + k.record.actualSize)
    (he : e.block ≤ a ∧ a < e.block + e.size) : e ∉ s.waiting := by
  intro hwaiting
  rw [← Multiset.mem_coe, ← Sanitizer.waiting_scene] at hwaiting
  obtain ⟨c, hc, rfl, hwaits⟩ := h.sound.waiting_block _ hwaiting
  have hmarks : (Event.call op (.ok user)).Marks → marked := by
    cases op <;> first | exact hop.elim | exact False.elim
  have hnext := h.snoc hstep False.elim hmarks
  obtain ⟨ds, hcomes, htells, -⟩ := hstep.comes h.fit h.sound False.elim hmarks
  cases htells not_false with
  | call htold _ =>
      obtain ⟨b, hb, hbegin, hstate, hapart⟩ := htold.handed_out h.sound hop hcomes.moves
      obtain ⟨d, hd, huser, hstate', rfl⟩ :=
        (Redzone.userChunk?_eq_some hnext.fit.heap hnext.sound.fits).mp hk
      have hlive : ∀ {b : Block}, b.record.state = .allocated → b.record.state ≠ .recycled :=
        fun heq => by rw [heq]; decide
      obtain rfl := hnext.sound.chunk_unique ⟨hd, hlive hstate'⟩ ⟨hb, hlive hstate⟩
        (huser.trans hbegin.symm)
      have hlast : a ∈ d.extent := by
        refine ⟨hin.1, ?_⟩
        show a < d.begin + d.size
        rw [← (hnext.sound.fits d hd (hlive hstate')).actual]
        exact hin.2
      exact Set.disjoint_left.mp (hapart c ⟨hc, by rw [hwaits]; decide⟩) he hlast

/-- A freed chunk that waits looks freed, unless users mark the shadow by hand. -/
theorem byteAt_of_waiting (h : Run False marked past s) (hmarked : ¬ marked) (he : e ∈ s.waiting)
    {a : Nat} (ha : e.block ≤ a ∧ a < e.block + e.size) :
    s.heap.shadow.byteAt a = .ok Shadow.Magic.heapFreed.byte := by
  rw [← Multiset.mem_coe, ← Sanitizer.waiting_scene] at he
  obtain ⟨b, hb, rfl, hstate⟩ := h.sound.waiting_block _ he
  have hin : a ∈ b.extent := ha
  rw [h.fit.heap.byteAt_eq (h.fit.heap.extent_subset hb hin)]
  have hcode := (h.guarded hmarked b ⟨hb, by rw [hstate]; decide⟩).code a hin
  exact congrArg _ (hcode.trans (if_pos hstate))

/-- From its free on an entry waits, or has been outweighed. -/
theorem waits_or_outweighed (h : Run False marked (before ++ o :: between) s)
    (hpos : 0 < s.config.quarantineSize) (he : e ∈ o.freed) :
    e ∈ s.waiting ∨ Outweighed s.config.quarantineSize e ((o :: between).flatMap Occurrence.joined) := by
  rcases h.delayed he hpos with ⟨⟨i, hbatch⟩, -⟩ | ⟨ahead, behind, hjoined, hahead, ⟨x, hqueue⟩ | hweight⟩
  · exact .inl (Sanitizer.mem_waiting_of_batchOf hbatch)
  · refine .inl (List.mem_append_left _ ?_)
    rw [hqueue]
    exact List.mem_append_right _ List.mem_cons_self
  · rw [h.budget hpos] at hweight
    exact .inr ⟨ahead, behind, hjoined, hahead, hweight⟩

/-- A freed chunk looks freed as long as it waits, and waits until more than the budget of the
    quarantine has joined the queue from it on; before that no allocation returns bytes of its block.
    Where one thread does all the freeing, more than the budget is freed until then. -/
theorem reuse_delayed (h : Run False marked (before ++ o :: between) s)
    (hpos : 0 < s.config.quarantineSize) (he : e ∈ o.freed) :
    (e ∈ s.waiting ∨ Outweighed s.config.quarantineSize e ((o :: between).flatMap Occurrence.joined))
    ∧ (¬ marked → e ∈ s.waiting → ∀ a, e.block ≤ a ∧ a < e.block + e.size →
      s.heap.shadow.byteAt a = .ok Shadow.Magic.heapFreed.byte)
    ∧ ∀ op user t k a, s.Step (.call op (.ok user)) t → op.Allocates →
      t.heap.userChunk? user = some k → k.block ≤ a ∧ a < k.block + k.record.actualSize →
      e.block ≤ a ∧ a < e.block + e.size →
        Outweighed s.config.quarantineSize e ((o :: between).flatMap Occurrence.joined)
        ∧ ∀ id, (∀ o' ∈ before ++ o :: between, o'.freed ≠ [] → o'.event.caller = id) →
          s.config.quarantineSize < weight ((o :: between).flatMap Occurrence.freed) := by
  have hwaits := h.waits_or_outweighed hpos he
  refine ⟨hwaits, fun hmarked hwaiting a ha => h.byteAt_of_waiting hmarked hwaiting ha, ?_⟩
  intro op user t k a hstep hop hk hin hblock
  have hout := h.not_waiting_of_returned hstep hop hk hin hblock
  obtain ⟨ahead, behind, hjoined, hahead, hweight⟩ := hwaits.resolve_left hout
  refine ⟨⟨ahead, behind, hjoined, hahead, hweight⟩, fun id hone => ?_⟩
  exact Nat.lt_of_lt_of_le hweight (h.joined_weight_le hpos hone he hahead hjoined)

/-- Of two freed chunks the first makes room for the second, and its block is returned at once. -/
theorem reuse_delayed_by_one : ∃ before o between s t user k,
    Run False False (before ++ o :: between) s
      ∧ o.freed = [⟨17660905521152, 17660905521280, 272⟩]
      ∧ s.Step (.call (.allocate 0 10 8 .malloc 0) (.ok user)) t
      ∧ t.heap.userChunk? user = some k ∧ k.block = 17660905521152
      ∧ Outweighed 1000 ⟨17660905521152, 17660905521280, 272⟩
        ((o :: between).flatMap Occurrence.joined) := by
  obtain ⟨past, s, hrun, hcheck⟩ := of_plays False False
    (show Request.plays { quarantineSize := 1000, threadQuarantineSize := 0 } .counter {}
      [.call .register, .call (.allocate 0 10 8 .malloc 0), .call (.allocate 0 500 8 .malloc 0),
        .call (.free 0 17660905521280 .malloc 0), .call (.free 0 17742509899904 .malloc 0)]
      (fun past s => s.config.quarantineSize == 1000
        && (past.drop 3).head?.any (fun o => o.freed == [⟨17660905521152, 17660905521280, 272⟩])
        && ((Request.call (.allocate 0 10 8 .malloc 0)).occurrence s).any fun o =>
          o.returned?.any fun user => (o.after.heap.userChunk? user).any fun k =>
            k.block == 17660905521152 && k.record.actualSize == 272) = true by
      decide +kernel)
    (by simp [Request.Fits, Operation.Marks])
  obtain ⟨hcheck, hreturned⟩ := Bool.and_eq_true _ _ ▸ hcheck
  obtain ⟨hbudget, hfreed⟩ := Bool.and_eq_true _ _ ▸ hcheck
  have hbudget := beq_iff_eq.mp hbudget
  obtain ⟨o, ho, hfreed⟩ := (Option.any_eq_true _ _).mp hfreed
  have hfreed := beq_iff_eq.mp hfreed
  -- The third request of the run is the free.
  obtain ⟨between, hsplit⟩ : ∃ between, past.drop 3 = o :: between :=
    ⟨(past.drop 3).tail, List.eq_cons_of_mem_head? ho⟩
  rw [← List.take_append_drop 3 past, hsplit] at hrun
  obtain ⟨⟨_, event, t⟩, hoccurs, hreturns⟩ := (Option.any_eq_true _ _).mp hreturned
  obtain ⟨rfl, hstep, answer, rfl⟩ := Request.of_occurrence_call hoccurs
  cases answer with
  | error e => exact absurd hreturns Bool.false_ne_true
  | ok user =>
      obtain ⟨_, huser, hfound⟩ := (Option.any_eq_true _ _).mp hreturns
      obtain rfl := Option.some.inj huser
      obtain ⟨k, hk, hblock⟩ := (Option.any_eq_true _ _).mp hfound
      obtain ⟨hblock, hsize⟩ := Bool.and_eq_true _ _ ▸ hblock
      have hblock := beq_iff_eq.mp hblock
      have hsize := beq_iff_eq.mp hsize
      obtain ⟨-, -, hlate⟩ := reuse_delayed hrun (by rw [hbudget]; decide)
        (by rw [hfreed]; exact List.mem_singleton_self _)
      have hin : 17660905521152 ≤ 17660905521152 ∧ 17660905521152 < 17660905521152 + 272 := by decide
      have hweighed := (hlate _ user t k _ hstep trivial hk (by rw [hblock, hsize]; exact hin) hin).1
      rw [hbudget] at hweighed
      exact ⟨_, o, between, _, t, user, k, hrun, hfreed, hstep, hk, hblock, hweighed⟩

end Run

end GuardedHeap
