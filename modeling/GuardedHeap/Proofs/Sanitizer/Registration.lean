import GuardedHeap.Proofs.Heap.Kept
import GuardedHeap.Proofs.Sanitizer.Frames
import GuardedHeap.Proofs.Sanitizer.Threads

/-! # Registration — threads come and go

    A thread comes with a fake stack (`ends_createFakeStack`), whose block
    is mapped and backs it in one step, and goes with it
    (`ends_releaseFakeStack`).  It leaves nothing behind unless a call of
    the operating system failed (`ends_unregister`). -/

namespace GuardedHeap

open Quarantine (Entry)

/-- A large block that backs a fake stack as soon as it is mapped was never free. -/
theorem Scene.idle_back_grow (s : Scene) (b : Block) :
    ((s.grow .large b.size ([b.begin] : List Nat)).back b).idle = s.idle := by
  funext k
  unfold Scene.back Scene.grow
  by_cases hk : k = .large
  · subst hk
    simp only [Function.update_self]
    rw [Multiset.coe_singleton, add_comm, Multiset.singleton_add, Multiset.erase_cons_head]
  · simp only [Function.update_of_ne hk]

namespace Sanitizer

variable {failing marked : Prop} {s s' : Sanitizer} {t : Thread} {ts : List Thread}
  {hand : Multiset Entry} {ds es : List Deed}

/-! ## Fake stacks come and go -/

/-- Other pages, and nothing that can be seen. -/
theorem reaches_repaged {heap : Heap} (hfit : s.Fit failing ts) (hpages : s.heap.Repaged heap) :
    Reaches failing marked s ts hand [] { s with heap } ts hand := by
  have h := hpages.becomes hfit.heap
  have hstill : Still marked s ts hand { s with heap } ts hand :=
    .of_pages (by rw [← hpages.same])
  refine ⟨hfit.becomes h, rfl, rfl, rfl, (Moves.none _).of_eq ?_, hstill.lasts, fun _ => .of_same fun _ _ => rfl,
    hstill.guards⟩
  refine Eq.trans ?_ (scene_withFakeStacks heap s.fakeStacks h.free).symm
  rw [h.blocks, h.opened, h.contents]
  rfl

/-- A fake stack more fits in if its owner has none. -/
theorem Fit.addFakeStack {f : FakeStack} {owner : Nat} (hfit : s.Fit failing ts) (hf : f.WF)
    (hnew : owner ∉ s.fakeStacks.map (·.owner)) (howner : owner < s.registrations) :
    ({ s with fakeStacks := s.fakeStacks ++ [{ owner, stack := f }] } : Sanitizer).Fit failing ts :=
  { hfit with
    stack := List.forall_mem_append.mpr ⟨hfit.stack, List.forall_mem_singleton.mpr hf⟩
    owners_nodup := by
      rw [List.map_append, List.map_singleton]
      refine List.nodup_append.mpr ⟨hfit.owners_nodup, List.nodup_singleton _, fun a ha b hb hab => ?_⟩
      obtain rfl : a = owner := hab.trans (List.mem_singleton.mp hb)
      exact hnew ha
    owner_lt := List.forall_mem_append.mpr ⟨hfit.owner_lt, List.forall_mem_singleton.mpr howner⟩ }

/-- A block is mapped for a fake stack, and backs it. -/
theorem moves_back {heap : Heap} {f : FakeStack} {owner : Nat} (hclaims : f.claims = ∅)
    (hoff : ∀ b ∈ s.heap.blocks, b.begin ≠ f.begin)
    (h : Heap.Becomes s.heap heap
      ((s.heap.outline.grow .large f.block.size [f.begin]).close f.block.extent)) :
    Moves failing marked (s.scene ts hand) []
      (({ s with heap, fakeStacks := s.fakeStacks ++ [{ owner, stack := f }] } : Sanitizer).scene ts hand) := by
  have hin : f.block ∈ heap.blocks := by
    rw [h.blocks]
    exact .inr ⟨f.begin, List.mem_singleton.mpr rfl, rfl⟩
  have hgrow : Move failing marked (s.scene ts hand) []
      ((s.scene ts hand).grow .large f.block.size ([f.begin] : List Nat)) := by
    refine .of_tiled (h.wf.tiled.solid f.block hin) h.wf.tiled h.blocks (List.nodup_singleton _) fun p hp b hb => ?_
    rw [List.mem_singleton.mp hp]
    exact hoff b hb
  have hidle : ((s.scene ts hand).grow .large f.block.size ([f.begin] : List Nat)).idle .large =
      ([f.begin] : List Nat) := by
    show Function.update (s.scene ts hand).idle .large
      ((s.scene ts hand).idle .large + ([f.begin] : List Nat)) .large = _
    rw [Function.update_self]
    exact zero_add _
  refine (Moves.more hgrow (.one (.back f.block ?_ ?_))).of_eq ?_
  · exact .inr ⟨f.begin, Multiset.mem_coe.mpr (List.mem_singleton.mpr rfl), rfl⟩
  · rw [hidle]
    exact Multiset.mem_coe.mpr (List.mem_singleton.mpr rfl)
  · -- The block was free between the two moves only.
    have hfree : (((s.scene ts hand).grow .large f.block.size ([f.begin] : List Nat)).back f.block).idle =
        (s.scene ts hand).idle := Scene.idle_back_grow ..
    have hbacking : ((s.fakeStacks ++ [({ owner, stack := f } : OwnedStack)]).map (·.stack.block) :
        Multiset Block) = f.block ::ₘ s.backing := by
      rw [List.map_append, ← Multiset.coe_add, add_comm]
      rfl
    have hclaimed : {a | ∃ o ∈ s.fakeStacks ++ [({ owner, stack := f } : OwnedStack)], a ∈ o.stack.claims} =
        s.claimed := by
      ext a
      constructor
      · rintro ⟨o, ho, ha⟩
        rcases List.mem_append.mp ho with ho | ho
        · exact ⟨o, ho, ha⟩
        · rw [List.mem_singleton.mp ho, hclaims] at ha
          exact ha.elim
      · exact fun ⟨o, ho, ha⟩ => ⟨o, List.mem_append_left _ ho, ha⟩
    refine Eq.trans ?_ (scene_withFakeStacks heap _ h.free).symm
    rw [hbacking, hclaimed, h.blocks, h.opened, h.contents, ← hfree]
    rfl

/-- A fake stack more is no deed. -/
theorem reaches_back {heap : Heap} {f : FakeStack} {owner : Nat} (hfit : s.Fit failing ts)
    (hf : f.WF) (hclaims : f.claims = ∅)
    (hnew : owner ∉ s.fakeStacks.map (·.owner)) (howner : owner < s.registrations)
    (hmem : owner ∈ ts.map (·.id)) {sizeLog : Nat}
    (hcreate : FakeStack.create sizeLog s.heap = .ok f heap)
    (hoff : ∀ b ∈ s.heap.blocks, b.begin ≠ f.begin)
    (h : Heap.Becomes s.heap heap
      ((s.heap.outline.grow .large f.block.size [f.begin]).close f.block.extent)) :
    Reaches failing marked s ts hand []
      { s with heap, fakeStacks := s.fakeStacks ++ [{ owner, stack := f }] } ts hand :=
  ⟨(hfit.becomes h).addFakeStack hf hnew howner, rfl, rfl, rfl, moves_back hclaims hoff h,
    fun hsteady _ hK hstart => hK.back hsteady hmem hcreate hstart,
    fun _ => .of_same fun _ _ => rfl, fun _ => FakeStack.guarded_create hfit.heap hcreate⟩

variable (marked hand) in
/-- Making a fake stack maps a block that backs it, or changes nothing that can be seen. -/
theorem ends_createFakeStack {owner : Nat} (hfit : s.Fit failing ts)
    (hnew : owner ∉ s.fakeStacks.map (·.owner)) (howner : owner < s.registrations)
    (hmem : owner ∈ ts.map (·.id)) :
    Act.Ends (createFakeStack owner) s
      (fun _ s' => Reaches failing marked s ts hand [] s' ts hand)
      fun _ s' => Reaches failing marked s ts hand [] s' ts hand ∧ s'.fakeStacks = s.fakeStacks := by
  unfold createFakeStack onHeap
  rw [Act.ends_bind, Act.ends_get, Act.ends_bind, Act.ends_mapError, Act.ends_onPart]
  refine (FakeStack.ends_create hfit.heap _).imp_ok ?_ fun _ heap hsame =>
    ⟨reaches_repaged hfit hsame.1, rfl⟩
  rintro f heap hcreate ⟨hf, hclaims, -, hoff, hbecomes⟩
  rw [Act.ends_bind]
  exact reaches_back hfit hf hclaims hnew howner hmem hcreate hoff hbecomes

/-- A fake stack less fits in. -/
theorem Fit.dropFakeStack (hfit : s.Fit failing ts) (owner : Nat) :
    ({ s with fakeStacks := s.fakeStacks.filter (·.owner != owner) } : Sanitizer).Fit failing ts :=
  { hfit with
    stack := fun o ho => hfit.stack o (List.mem_of_mem_filter ho)
    owners_nodup := hfit.owners_nodup.sublist (List.filter_sublist.map _)
    owner_lt := fun o ho => hfit.owner_lt o (List.mem_of_mem_filter ho) }

/-- What is claimed lies in the other fake stacks, or is gone. -/
theorem claimed_dropFakeStack {o : OwnedStack} {gone : Set Nat} (hfit : s.Fit failing ts)
    (hsound : Scene.Sound failing marked (s.scene ts hand)) (ho : o ∈ s.fakeStacks)
    (hall : o.stack.block.extent ⊆ gone)
    (hgone : ∀ c ∈ s.heap.blocks, c ≠ o.stack.block → Disjoint c.extent gone) :
    {a | ∃ o' ∈ s.fakeStacks.filter (·.owner != o.owner), a ∈ o'.stack.claims} = s.claimed \ gone := by
  have hextent : ∀ o' ∈ s.fakeStacks, o'.stack.claims ⊆ o'.stack.block.extent := fun o' ho' => by
    rw [FakeStack.extent_block (hfit.stack o' ho')]
    exact FakeStack.claims_subset (hfit.stack o' ho')
  ext a
  constructor
  · rintro ⟨o', ho', ha⟩
    obtain ⟨hin, howner⟩ := List.mem_filter.mp ho'
    have hne : o'.stack.block ≠ o.stack.block := fun heq =>
      bne_iff_ne.mp howner (congrArg OwnedStack.owner (block_unique hsound hin ho heq))
    have hblock := (hsound.backing_block _ (mem_backing hin)).1
    exact ⟨⟨o', hin, ha⟩, Set.disjoint_left.mp (hgone _ hblock hne) (hextent o' hin ha)⟩
  · rintro ⟨⟨o', ho', ha⟩, hout⟩
    refine ⟨o', List.mem_filter.mpr ⟨ho', bne_iff_ne.mpr fun howner => hout ?_⟩, ha⟩
    obtain rfl := hfit.stack_unique ho' ho howner
    exact hall (hextent _ ho ha)

/-- The block of a fake stack is unmapped when the stack goes. -/
theorem reaches_unback {heap : Heap} {o : OwnedStack} {gone : Set Nat} (hfit : s.Fit failing ts)
    (hsound : Scene.Sound failing marked (s.scene ts hand)) (ho : o ∈ s.fakeStacks)
    (hall : o.stack.block.extent ⊆ gone)
    (hgone : ∀ c ∈ s.heap.blocks, c ≠ o.stack.block → Disjoint c.extent gone)
    (hbytes : ∀ a, a ∉ gone → heap.contents a = s.heap.contents a)
    (hrelease : ¬ failing → o.stack.release s.heap = .ok () heap)
    (hshadow : heap.shadow = s.heap.shadow)
    (h : Heap.Becomes s.heap heap (s.heap.outline.unmap o.stack.block gone heap.contents)) :
    Reaches failing marked s ts hand []
      { s with heap, fakeStacks := s.fakeStacks.filter (·.owner != o.owner) } ts hand := by
  have hchunks : heap.chunks ⊆ s.heap.chunks := by
    rintro c ⟨hc, hstate⟩
    rw [h.blocks] at hc
    exact ⟨hc.1, hstate⟩
  have hbacking : ((s.fakeStacks.filter (·.owner != o.owner)).map (·.stack.block) : Multiset Block) =
      s.backing.erase o.stack.block := by
    have hperm := perm_cons_filter hfit.owners_nodup ho
    have hcoe : s.backing = o.stack.block
        ::ₘ ((s.fakeStacks.filter (·.owner != o.owner)).map (·.stack.block) : Multiset Block) := by
      rw [Multiset.cons_coe]
      exact Multiset.coe_eq_coe.mpr (hperm.map _)
    rw [hcoe, Multiset.erase_cons_head]
  refine ⟨(hfit.becomes h).dropFakeStack _, rfl, rfl, rfl, ?_, fun hsteady _ hK hstart =>
    hK.unback hsteady ho (hrelease hsteady.calm) hstart, fun _ => .of_same fun _ _ => rfl,
    fun _ hguarded => hguarded.kept fun c hc => ⟨hchunks hc, fun a _ => congrArg (Shadow.code · a) hshadow⟩⟩
  refine (Moves.one (.unback o.stack.block gone heap.contents (mem_backing ho) hgone hall hbytes)).of_eq ?_
  refine Eq.trans ?_ (scene_withFakeStacks heap _ h.free).symm
  rw [hbacking, claimed_dropFakeStack hfit hsound ho hall hgone, h.blocks, h.opened]
  rfl

/-- The fake stack of a thread is released with its block, if there is one. -/
theorem ends_releaseFakeStack {owner : Nat} (hfit : s.Fit failing ts)
    (hsound : Scene.Sound failing marked (s.scene ts hand)) :
    Act.Ends (releaseFakeStack owner) s
      (fun _ s' => Reaches failing marked s ts hand [] s' ts hand
        ∧ ∀ o ∈ s'.fakeStacks, o.owner ≠ owner)
      fun _ s' => failing ∧ Reaches failing marked s ts hand [] s' ts hand := by
  unfold releaseFakeStack
  rw [Act.ends_bind, Act.ends_get]
  cases hstack : s.fakeStackOf? owner with
  | none =>
      refine ⟨.refl hfit, fun o ho howner => ?_⟩
      have hfind := List.find?_eq_none.mp (Option.map_eq_none_iff.mp hstack) o ho
      exact hfind (beq_iff_eq.mpr howner)
  | some f =>
      obtain ⟨o, ho, rfl, rfl⟩ := of_fakeStackOf? hstack
      have hblock := (hsound.backing_block _ (mem_backing ho)).1
      obtain ⟨gone, hall, hgone, hends⟩ := FakeStack.ends_release hfit.heap hblock
      unfold onHeap
      rw [Act.ends_bind, Act.ends_set, Act.ends_mapError, Act.ends_onPart]
      refine (hends.and_leaves ((FakeStack.fixes_release o.stack).leaves s.heap)).imp_ok ?_ ?_
      · rintro _ heap hrelease ⟨⟨hbecomes, hbytes⟩, hshadow⟩
        refine ⟨reaches_unback hfit hsound ho hall hgone hbytes (fun _ => hrelease) hshadow hbecomes, ?_⟩
        exact fun o' ho' => bne_iff_ne.mp (List.mem_filter.mp ho').2
      · rintro _ heap ⟨⟨hbecomes, hbytes, harmed⟩, hshadow⟩
        have hfailing : failing := by
          by_contra hnot
          exact harmed (hfit.calm hnot)
        exact ⟨hfailing, reaches_unback hfit hsound ho hall hgone hbytes (absurd hfailing) hshadow hbecomes⟩

/-! ## Registering -/

/-- A thread that holds nothing can be left out. -/
theorem scene_idle_thread (hcache : ∀ c, t.cache.held c = []) (hbatch : t.batch.entries = []) :
    s.scene (t :: ts) hand = s.scene ts hand := by
  have hcached : cached (t :: ts) = cached ts := by
    funext k
    cases k with
    | large => rfl
    | small c =>
        rw [cached_cons, hcache]
        exact zero_add _
  have hbatched : batched (t :: ts) = batched ts := by
    rw [batched_cons, hbatch]
    exact zero_add _
  unfold scene
  rw [hcached, hbatched]

/-- A thread less. -/
theorem Fit.leave (hfit : s.Fit failing (t :: ts)) : s.Fit failing ts :=
  { hfit with
    cache := fun u hu => hfit.cache u (List.mem_cons_of_mem _ hu)
    batch := fun u hu => hfit.batch u (List.mem_cons_of_mem _ hu)
    ids_nodup := (List.nodup_cons.mp hfit.ids_nodup).2
    id_lt := fun u hu => hfit.id_lt u (List.mem_cons_of_mem _ hu) }

/-- The next thread that registers, before anybody has seen it. -/
structure Newcomer (s : Sanitizer) (t : Thread) : Prop where
  id : t.id = s.registrations
  cache : t.cache = Cache.new s.heap.classes.count
  batch : t.batch = {}

namespace Newcomer

theorem scene (h : Newcomer s t) (r : Sanitizer) (ts : List Thread) :
    r.scene (t :: ts) hand = r.scene ts hand := by
  refine scene_idle_thread (fun c => ?_) ?_
  · rw [h.cache]
    exact Heap.Session.held_new
  · rw [h.batch]

/-- A registration uses a number up, and the thread that gets it fits in with the others. -/
theorem fit (h : Newcomer s t) (hfit : s.Fit failing ts) :
    ({ s with registrations := s.registrations + 1 } : Sanitizer).Fit failing (t :: ts) :=
  { hfit with
    cache := by
      intro v hv
      rcases List.mem_cons.mp hv with rfl | hv
      · rw [h.cache]
        exact Array.size_replicate
      · exact hfit.cache v hv
    batch := by
      intro v hv
      rcases List.mem_cons.mp hv with rfl | hv
      · rw [h.batch]
        rfl
      · exact hfit.batch v hv
    ids_nodup := by
      refine List.nodup_cons.mpr ⟨fun hin => ?_, hfit.ids_nodup⟩
      obtain ⟨v, hv, heq⟩ := List.mem_map.mp hin
      have hlt := hfit.id_lt v hv
      change v.id = t.id at heq
      rw [heq, h.id] at hlt
      exact Nat.lt_irrefl _ hlt
    id_lt := by
      intro v hv
      rcases List.mem_cons.mp hv with rfl | hv
      · rw [h.id]
        exact Nat.lt_succ_self _
      · exact Nat.lt_succ_of_lt (hfit.id_lt v hv)
    owner_lt := fun o ho => Nat.lt_succ_of_lt (hfit.owner_lt o ho) }

/-- What lasts from where the newcomer is among the threads lasts from where it is not yet. -/
theorem lasts (h : Newcomer s t)
    (hlasts : Lasts failing marked { s with registrations := s.registrations + 1 } (t :: ts) hand s' ts' hand') :
    Lasts failing marked s ts hand s' ts' hand' := by
  intro hsteady K hK hstart
  refine hlasts ⟨hsteady.calm, h.fit hsteady.fit, ?_⟩ K hK ?_
  · rw [h.scene]
    exact hsteady.sound
  · refine hK.join (by rw [h.batch]) (hK.still ?_ hstart)
    exact .unseen rfl rfl rfl rfl rfl rfl

variable {r : Sanitizer}

/-- The newcomer is put in the list. -/
theorem joins (hnew : Newcomer s t)
    (h : Reaches failing marked { s with registrations := s.registrations + 1 } (t :: s.threads) 0 [] r
      (t :: s.threads) 0) :
    Comes failing marked s [] { r with threads := r.threads ++ [t] } := by
  have hthreads : r.threads = s.threads := h.threads
  rw [hthreads]
  have hperm : (t :: s.threads).Perm (s.threads ++ [t]) := (List.perm_append_singleton _ _).symm
  have hfit : ({ r with threads := s.threads ++ [t] } : Sanitizer).Fit failing (t :: s.threads) :=
    { h.fit with }
  refine ⟨hfit.perm hperm, h.config, ?_, fun hsteady K hK hstart => ?_, h.counts, h.guards⟩
  · have hmoves := h.moves
    rw [hnew.scene] at hmoves
    exact hmoves.of_eq (scene_perm hperm)
  · exact hK.still ((Still.threads r _).trans (.of_perm hperm))
      (hnew.lasts h.lasts hsteady K hK hstart)

/-- The newcomer is refused. -/
theorem refused (hnew : Newcomer s t)
    (h : Reaches failing marked { s with registrations := s.registrations + 1 } (t :: s.threads) 0 [] r
      (t :: s.threads) 0)
    (hstacks : ∀ o ∈ r.fakeStacks, o.owner ≠ t.id) : Comes failing marked s [] r := by
  have hthreads : r.threads = s.threads := h.threads
  have hmoves := h.moves
  rw [hnew.scene, hnew.scene] at hmoves
  refine ⟨?_, h.config, ?_, ?_, h.counts, h.guards⟩ <;> rw [hthreads]
  · exact h.fit.leave
  · exact hmoves
  · exact fun hsteady K hK hstart =>
      hK.leave (by rw [hnew.batch]) hstacks (hnew.lasts h.lasts hsteady K hK hstart)

end Newcomer

/-- The thread that registers next. -/
def newcomer (s : Sanitizer) : Thread :=
  { id := s.registrations, cache := Cache.new s.heap.classes.count }

theorem newcomer_new (s : Sanitizer) : Newcomer s s.newcomer :=
  ⟨rfl, rfl, rfl⟩

/-- The last steps of a registration: the newcomer is logged and put in the list. -/
def enlist (t : Thread) (stack : Option FakeStack) : Act SanitizerError Sanitizer Nat := do
  emit .info "thread_register" fun e =>
    (e.withTid t.tid).withDetails
      (.object [("fake_stack", Json.option (.str <| Text.hex ·.begin) stack)])
  modify fun s => { s with threads := s.threads ++ [t] }
  return t.id

theorem ends_enlist {no : SanitizerError → Sanitizer → Prop} (hclock : s.clock.isSome = true)
    (t : Thread) (stack : Option FakeStack) :
    Act.Ends (enlist t stack) s
      (fun id r => id = t.id ∧ r = { s with log := r.log, threads := s.threads ++ [t] }) no := by
  unfold enlist
  rw [Act.ends_bind]
  refine (ends_emit_eq hclock _ _ _).imp (fun _ r hr => ?_) fun _ _ hno => hno
  rw [Act.ends_bind, Act.ends_modify, Act.ends_pure, hr]
  exact ⟨rfl, rfl⟩

/-- A registration uses a number up, makes a fake stack if the options ask for one, and enlists
    the newcomer. -/
theorem ends_register_of {ok : Nat → Sanitizer → Prop} {no : SanitizerError → Sanitizer → Prop}
    (hmade : Act.Ends (createFakeStack s.registrations) { s with registrations := s.registrations + 1 }
      (fun f r => Act.Ends (enlist s.newcomer (some f)) r ok no) no)
    (hnone : Act.Ends (enlist s.newcomer none) { s with registrations := s.registrations + 1 } ok no) :
    Act.Ends register s ok no := by
  unfold register
  rw [Act.ends_bind, Act.ends_get, Act.ends_bind, Act.ends_set]
  by_cases hfake : s.config.useFakeStack = true
  · rw [if_pos hfake, Act.ends_bind, Act.ends_map]
    exact hmade
  · rw [if_neg hfake, Act.ends_bind, Act.ends_pure]
    exact hnone

/-- What a registration leaves as it was, each of its parts does. -/
theorem leaves_register_of {P : Sanitizer → Prop}
    (hused : P { s with registrations := s.registrations + 1 })
    (hmake : Act.Leaves P (createFakeStack s.registrations)
      { s with registrations := s.registrations + 1 })
    (henlist : ∀ stack r, P r → Act.Leaves P (enlist s.newcomer stack) r) :
    Act.Leaves P register s := by
  unfold register
  refine Act.leaves_get_bind (Act.leaves_set_bind ?_)
  by_cases hfake : s.config.useFakeStack = true
  · rw [if_pos hfake]
    exact hmake.map.bind fun stack r _ hr => henlist stack r hr
  · rw [if_neg hfake]
    exact henlist none _ hused

/-- A registration uses a number up and adds a thread, or fails. -/
theorem ends_register (hfit : s.Fit failing s.threads) :
    Act.Ends register s
      (fun id s' => id = s.registrations ∧ Comes failing marked s [] s')
      fun _ s' => Comes failing marked s [] s' := by
  have hnew := s.newcomer_new
  have hu := hnew.fit hfit
  have hfresh : ∀ o ∈ s.fakeStacks, o.owner ≠ s.newcomer.id := fun o ho heq =>
    Nat.lt_irrefl _ (hnew.id ▸ heq ▸ hfit.owner_lt o ho)
  have hunowned : s.registrations ∉ s.fakeStacks.map (·.owner) := by
    rintro hin
    obtain ⟨o, ho, heq⟩ := List.mem_map.mp hin
    exact hfresh o ho heq
  have hjoin : ∀ (stack : Option FakeStack) (r : Sanitizer),
      Reaches failing marked { s with registrations := s.registrations + 1 } (s.newcomer :: s.threads) 0 [] r
        (s.newcomer :: s.threads) 0 →
      Act.Ends (enlist s.newcomer stack) r
        (fun id s' => id = s.registrations ∧ Comes failing marked s [] s')
        (fun _ s' => Comes failing marked s [] s') := by
    intro stack r hr
    refine (ends_enlist hr.fit.clock _ stack).imp ?_ fun _ _ hno => hno
    rintro _ r' ⟨rfl, hr'⟩
    rw [hr']
    exact ⟨rfl, hnew.joins (hr.trans ((Like.logged r r'.log).reaches hr.fit))⟩
  refine ends_register_of ?_ (hjoin none _ (.refl hu))
  refine (ends_createFakeStack marked 0 hu hunowned (Nat.lt_succ_self _)
    (List.mem_map.mpr ⟨s.newcomer, List.mem_cons_self, hnew.id⟩)).imp ?_ ?_
  · exact fun f r hr => hjoin (some f) r hr
  · rintro _ r ⟨hr, hstacks⟩
    exact hnew.refused hr (hstacks ▸ hfresh)

/-! ## Unregistering -/

namespace Client

variable {c : Client}

/-- A thread that gives its cached blocks back has none of them any more. -/
theorem ends_drain {hand : Multiset Entry} (hfit : c.Fit failing)
    (hsound : Scene.Sound failing marked (c.scene hand)) (no : AllocError → Client → Prop) :
    Act.Ends (onSession Heap.Session.drain) c
      (fun _ c' => Reaches failing marked c hand [] c' hand ∧ (∀ n, c'.thread.cache.held n = [])
        ∧ Keeps 0 c c' ∧ SameQuarantine c c') no := by
  rw [ends_onSession]
  refine (Heap.Session.ends_drain failing marked (c.holders hand) (session_wf hfit)
    fun _ _ => False).imp_ok ?_ fun _ _ hno => hno.elim
  rintro _ t hact ⟨hgoes, hcache⟩
  have hkept := (Heap.Session.leaves_drain (P := fun h =>
    h.large = c.shared.heap.large ∧ h.shadow = c.shared.heap.shadow) (fun _ _ _ hs => hs)
    (s := c.session) ⟨rfl, rfl⟩).of_ok hact
  rw [scene_session] at hsound
  have hchunks : t.heap.chunks = c.shared.heap.chunks := hsound.chunks_moves hgoes.moves
  refine ⟨reaches_session_still hfit hgoes hkept.1 hchunks hkept.2 Deed.added_nil, fun n => ?_,
    ⟨rfl, rfl, rfl⟩, rfl, rfl⟩
  show t.cache.held n = []
  rw [hcache]
  exact Heap.Session.held_new

/-- What a thread hands back when it ends is all that it holds, unless a call of the operating
    system fails. -/
theorem ends_handBack (hfit : c.Fit failing) (hsound : Scene.Sound failing marked (c.scene 0)) :
    Act.Ends handBack c
      (fun _ c' => ∃ ev, c.shared.quarantine.drain c.thread.batch = .ok ev
        ∧ Reaches failing marked c 0 (ev.evicted.map .evict) c' 0
        ∧ (∀ n, c'.thread.cache.held n = []) ∧ c'.thread.batch.entries = []
        ∧ ∀ o ∈ c'.shared.fakeStacks, o.owner ≠ c'.thread.id)
      fun e c' => failing ∧ ∃ ev, c.shared.quarantine.drain c.thread.batch = .ok ev
        ∧ c'.thread.batch.entries = []
        ∧ ((∃ a, e = .alloc a) ∧ (∃ done rest, ev.evicted = done ++ rest ∧ done ≠ []
            ∧ Reaches failing marked c 0 (done.map .evict ++ [.lose rest]) c' 0)
          ∨ Reaches failing marked c 0 (ev.evicted.map .evict) c' 0) := by
  -- A thread leaves in four steps: its batch joins the queue, what this evicts is recycled, its cache
  -- is emptied, and its fake stack goes. A failure of the second or fourth ends the call there.
  unfold handBack
  rw [Act.ends_bind, Act.ends_mapError]
  refine (ends_drainBatch hfit hsound fun _ _ => False).imp ?_ fun _ _ hno => hno.elim
  rintro _ c₁ ⟨ev, hdrain, rfl, -, hempty, hdrained⟩
  rw [Act.ends_bind, Act.ends_mapError]
  refine (ends_recycle ev.evicted hdrained.fit (hdrained.sound hsound)).imp ?_ ?_
  · rintro _ c₂ ⟨hrecycled, -, hsame, -⟩
    have hfirst := hdrained.trans hrecycled
    rw [Act.ends_bind, Act.ends_mapError]
    refine (ends_drain hrecycled.fit (hfirst.sound hsound) fun _ _ => False).imp ?_
      fun _ _ hno => hno.elim
    rintro _ c₃ ⟨hemptied, hcache, -, hsame'⟩
    have hsecond := hfirst.quietly hemptied
    have hbatch : c₃.thread.batch.entries = [] := by rw [hsame'.batch, hsame.batch, hempty]
    rw [Act.ends_bind, Act.ends_get, Act.ends_bind, ends_onShared]
    refine (ends_releaseFakeStack hsecond.fit (hsecond.sound hsound)).imp ?_ ?_
    · rintro _ s₄ ⟨hreleased, hstacks⟩
      have hthird := hsecond.quietly (reaches_shared hreleased)
      rw [ends_onShared]
      refine (ends_emit hthird.fit.clock _ _ _).imp ?_ fun _ _ hno => hno
      intro _ s₅ hlike
      refine ⟨ev, hdrain, hthird.quietly (reaches_shared (hlike.reaches hthird.fit)), hcache, hbatch, ?_⟩
      show ∀ o ∈ s₅.fakeStacks, o.owner ≠ c₃.thread.id
      rw [hlike.fakeStacks]
      exact hstacks
    · rintro _ s₄ ⟨hfailing, hreleased⟩
      exact ⟨hfailing, ev, hdrain, hbatch, .inr (hsecond.quietly (reaches_shared hreleased))⟩
  -- What was not recycled is lost: it left the queue with its batch.
  · rintro e c₂ ⟨hfailing, done, rest, hevicted, hdone, hsame, -, hrecycled⟩
    refine ⟨hfailing, ev, hdrain, ?_, .inl ⟨⟨e, rfl⟩, done, rest, hevicted, hdone,
      hdrained.trans hrecycled⟩⟩
    rw [hsame.batch, hempty]

end Client

open Client

/-- The scene without a thread, if it may have taken free blocks along. -/
theorem moves_forget (hfailing : failing) (hbatch : t.batch.entries = []) :
    Moves failing marked (s.scene (t :: ts) hand) [.lose 0] (s.scene ts hand) := by
  refine (Moves.one (.lose hfailing (s.scene ts hand).idle (s.scene ts hand).waiting 0 ?_ ?_)).of_eq rfl
  · intro k
    cases k with
    | large => exact le_refl _
    | small n =>
        show (s.heap.free n : Multiset Nat) + _ ≤ (s.heap.free n : Multiset Nat) + _
        rw [cached_cons]
        gcongr
        exact Multiset.le_add_left _ _
  · show 0 + (hand + (_ + _)) = hand + (_ + batched (t :: ts))
    rw [batched_cons, hbatch, Multiset.coe_nil, zero_add, zero_add]

/-- A thread that has been taken out of the list, with those that are left. -/
structure Leaver (s : Sanitizer) (t : Thread) (rest : List Thread) : Prop where
  perm : s.threads.Perm (t :: rest)
  others : ∀ u ∈ rest, u.id ≠ t.id

namespace Leaver

variable {rest : List Thread} {c : Client}

theorem of_mem (hfit : s.Fit failing s.threads) (ht : t ∈ s.threads) :
    Leaver s t (s.threads.filter (·.id != t.id)) :=
  ⟨perm_cons_filter hfit.ids_nodup ht, fun _ hu => bne_iff_ne.mp (List.mem_filter.mp hu).2⟩

theorem crew_eq (h : Leaver s t rest) (hthreads : c.shared.threads = rest) (hid : c.thread.id = t.id) :
    c.crew = c.thread :: rest := by
  unfold crew Client.others
  rw [hthreads, hid, List.filter_eq_self.mpr fun u hu => bne_iff_ne.mpr (h.others u hu)]

theorem fit (h : Leaver s t rest) (hfit : s.Fit failing s.threads) :
    Client.Fit failing ⟨t, { s with threads := rest }⟩ := by
  unfold Client.Fit
  rw [h.crew_eq rfl rfl]
  exact { hfit.perm h.perm with }

theorem scene_eq (h : Leaver s t rest) :
    Client.scene ⟨t, { s with threads := rest }⟩ hand = s.scene s.threads hand := by
  unfold Client.scene
  rw [h.crew_eq rfl rfl, scene_perm h.perm]
  rfl

theorem sound (h : Leaver s t rest) (hsound : Scene.Sound failing marked (s.scene s.threads hand)) :
    Scene.Sound failing marked (Client.scene ⟨t, { s with threads := rest }⟩ hand) := by
  rw [h.scene_eq]
  exact hsound

/-- The others fit together without the leaver, whatever it has reached. -/
theorem leaves (h : Leaver s t rest)
    (hreach : Client.Reaches failing marked ⟨t, { s with threads := rest }⟩ 0 ds c 0) :
    c.shared.threads = rest ∧ c.crew = c.thread :: rest ∧ c.shared.Fit failing rest
      ∧ Moves failing marked (s.scene s.threads 0) ds (c.shared.scene (c.thread :: rest) 0) := by
  have hcrew : c.crew = c.thread :: rest := h.crew_eq hreach.shared.threads hreach.id
  have hall : c.shared.Fit failing (c.thread :: rest) := hcrew ▸ hreach.fit
  have hmoves : Moves failing marked (Client.scene ⟨t, { s with threads := rest }⟩ 0) ds (c.scene 0) :=
    hreach.shared.moves
  rw [h.scene_eq, Client.scene, hcrew] at hmoves
  exact ⟨hreach.shared.threads, hcrew, hall.leave, hmoves⟩

/-- What the leaver reaches, the sanitizer comes to with the others if the leaver keeps nothing. -/
theorem comes (h : Leaver s t rest) (hfit : s.Fit failing s.threads)
    (hsound : Scene.Sound failing marked (s.scene s.threads 0))
    (hreach : Client.Reaches failing marked ⟨t, { s with threads := rest }⟩ 0 ds c 0)
    (hcache : ∀ n, c.thread.cache.held n = []) (hbatch : c.thread.batch.entries = [])
    (hstacks : ∀ o ∈ c.shared.fakeStacks, o.owner ≠ c.thread.id) : Comes failing marked s ds c.shared := by
  obtain ⟨hthreads, hcrew, hothers, hmoves⟩ := h.leaves hreach
  refine ⟨hthreads ▸ hothers, hreach.shared.config, ?_, fun hsteady K hK hbegun => ?_, hreach.shared.counts,
    hreach.shared.guards⟩ <;> rw [hthreads]
  · exact hmoves.of_eq (scene_idle_thread hcache hbatch)
  · have hlasts := hreach.shared.lasts ⟨hsteady.calm, h.fit hfit, h.sound hsound⟩ K hK
    rw [h.crew_eq rfl rfl, hcrew] at hlasts
    exact hK.leave hbatch hstacks
      (hlasts (hK.still ((Still.of_perm h.perm).trans (.threads s rest)) hbegun))

/-- After a failure the leaver may take along what it has. -/
theorem forsakes (h : Leaver s t rest) (hfailing : failing)
    (hreach : Client.Reaches failing marked ⟨t, { s with threads := rest }⟩ 0 ds c 0)
    (hbatch : c.thread.batch.entries = []) : Comes failing marked s (ds ++ [.lose 0]) c.shared := by
  obtain ⟨hthreads, -, hothers, hmoves⟩ := h.leaves hreach
  refine ⟨hthreads ▸ hothers, hreach.shared.config, ?_, fun hsteady => absurd hfailing hsteady.calm,
    fun hcalm => absurd hfailing hcalm, hreach.shared.guards⟩
  rw [hthreads]
  exact hmoves.trans (moves_forget hfailing hbatch)

end Leaver

/-- A thread that unregisters is gone, with all that it held handed back unless a call of the
    operating system failed. -/
theorem ends_unregister {id : Nat} (hfit : s.Fit failing s.threads)
    (hsound : Scene.Sound failing marked (s.scene s.threads 0)) (ht : s.thread? id = some t) :
    Act.Ends (unregister id) s
      (fun _ s' => ∃ ev, s.quarantine.drain t.batch = .ok ev
        ∧ Comes failing marked s (ev.evicted.map .evict) s')
      fun e s' => failing ∧ ∃ ev, s.quarantine.drain t.batch = .ok ev
        ∧ ((∃ a, e = .alloc a) ∧ (∃ done rest, ev.evicted = done ++ rest ∧ done ≠ []
            ∧ Comes failing marked s (done.map .evict ++ [.lose rest, .lose 0]) s')
          ∨ Comes failing marked s (ev.evicted.map .evict ++ [.lose 0]) s') := by
  obtain ⟨hmem, rfl⟩ := of_thread? ht
  have hleaver := Leaver.of_mem hfit hmem
  have hback := ends_handBack (hleaver.fit hfit) (hleaver.sound hsound)
  unfold Act.Ends unregister at *
  rw [ht]
  dsimp only
  generalize s.threads.filter (·.id != t.id) = rest at hleaver hback ⊢
  cases hact : handBack ⟨t, { s with threads := rest }⟩ with
  | ok a c =>
      rw [hact] at hback
      obtain ⟨ev, hdrain, hreach, hcache, hbatch, hstacks⟩ := hback
      exact ⟨ev, hdrain, hleaver.comes hfit hsound hreach hcache hbatch hstacks⟩
  | error e c =>
      rw [hact] at hback
      cases e with
      | refused e =>
          obtain ⟨hfailing, ev, hdrain, hbatch, ⟨herror, done, rest, hevicted, hdone, hreach⟩ | hreach⟩ := hback
          · have hcomes := hleaver.forsakes hfailing hreach hbatch
            rw [List.append_assoc] at hcomes
            exact ⟨hfailing, ev, hdrain, .inl ⟨herror, done, rest, hevicted, hdone, hcomes⟩⟩
          · exact ⟨hfailing, ev, hdrain, .inr (hleaver.forsakes hfailing hreach hbatch)⟩
      | stopped => exact hback

end Sanitizer

end GuardedHeap
