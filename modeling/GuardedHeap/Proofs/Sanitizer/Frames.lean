import GuardedHeap.Proofs.Sanitizer.Client
import GuardedHeap.Sanitizer.Frames
import Mathlib.Tactic.LinearCombination
import Mathlib.Tactic.Ring

/-! # Fake frames — calls on a fake stack reframe its block

    The block of a registered fake stack backs it and nothing else, so what
    a call does to its frames is one move of the whole scene
    (`reaches_setFakeStack`).  What it claims, gives back and collects is
    counted, so that the balance of frames stays as it is
    (`Sanitizer.frameBalance`). -/

namespace GuardedHeap

open Quarantine (Entry)

namespace FakeStack

/-- Claimed bytes are bytes of frames. -/
theorem claims_subset {f : FakeStack} (hf : f.WF) : f.claims ⊆ f.range := by
  rintro a ⟨classId, c, slot, hc, hslot, -, ha⟩
  exact frame_subset hf hc hslot ha

end FakeStack

/-- How a counter goes into the balance of frames. -/
def Counter.frameSign : Counter → ZMod Word.limit
  | fakeFramesAllocated => 1
  | fakeFramesFreed => -1
  | fakeFramesCollected => -1
  | _ => 0

namespace Sanitizer

variable {failing marked : Prop} {s : Sanitizer} {ts : List Thread} {hand : Multiset Entry}
  {o : OwnedStack}

/-! ## Owners -/

/-- A thread has one fake stack at most. -/
theorem Fit.stack_unique (hfit : s.Fit failing ts) {o o' : OwnedStack} (ho : o ∈ s.fakeStacks)
    (ho' : o' ∈ s.fakeStacks) (howner : o.owner = o'.owner) : o = o' :=
  List.inj_on_of_nodup_map hfit.owners_nodup ho ho' howner

theorem mem_backing (ho : o ∈ s.fakeStacks) : o.stack.block ∈ (s.scene ts hand).backing :=
  Multiset.mem_coe.mpr (List.mem_map_of_mem ho)

/-- Different fake stacks have different blocks. -/
theorem block_unique (hsound : Scene.Sound failing marked (s.scene ts hand)) {o o' : OwnedStack}
    (ho : o ∈ s.fakeStacks) (ho' : o' ∈ s.fakeStacks) (hblock : o.stack.block = o'.stack.block) :
    o = o' :=
  List.inj_on_of_nodup_map (Multiset.coe_nodup.mp hsound.backing_nodup) ho ho' hblock

/-- A registered fake stack lies in the range of the shadow. -/
theorem view_wf (hfit : s.Fit failing ts) (hsound : Scene.Sound failing marked (s.scene ts hand))
    (ho : o ∈ s.fakeStacks) : FakeStack.View.WF ⟨o.stack, s.heap.shadow⟩ := by
  have hblock := (hsound.backing_block _ (mem_backing ho)).1
  have hf := hfit.stack o ho
  obtain ⟨hlo, hhi⟩ := hfit.heap.past_le hblock
  have hl := hfit.heap.layout
  have hpast : o.stack.block.past = o.stack.past := by
    unfold FakeStack.block Block.past Block.blank FakeStack.past
    rw [FakeStack.roundUp_totalSize hf.min_le]
  rw [hpast] at hhi
  exact
    { stack := hf
      begin_dvd := (hfit.heap.granule_dvd hblock).1
      begin_le := hl.shadow_begin.le.trans hlo
      past_le := hhi.trans hl.shadow_end.ge
      end_le := hl.shadow_end.le.trans (Nat.le_of_lt hl.end_lt) }

theorem of_fakeStackOf? {id : Nat} {f : FakeStack} (h : s.fakeStackOf? id = some f) :
    ∃ o ∈ s.fakeStacks, o.owner = id ∧ o.stack = f := by
  obtain ⟨o, ho, rfl⟩ := Option.map_eq_some_iff.mp h
  exact ⟨o, List.mem_of_find?_eq_some ho, by simpa using List.find?_some ho, rfl⟩

/-! ## Other heaps and other fake stacks -/

/-- What the heap has become fits in if it did before. -/
theorem Fit.becomes {heap : Heap} {outline : Outline} (hfit : s.Fit failing ts)
    (h : Heap.Becomes s.heap heap outline) : ({ s with heap } : Sanitizer).Fit failing ts :=
  { hfit with
    heap := h.wf
    calm := fun hnot => h.calm (hfit.calm hnot)
    classes := h.classes.trans hfit.classes
    cache := h.classes.symm ▸ hfit.cache }

/-- The scene shows the heap and the fake stacks, if the free lists are the same. -/
theorem scene_withFakeStacks (heap : Heap) (os : List OwnedStack) (hfree : heap.free = s.heap.free) :
    ({ s with heap, fakeStacks := os } : Sanitizer).scene ts hand = {
      blocks := heap.blocks
      opened := heap.opened
      bytes := heap.contents
      idle := (s.scene ts hand).idle
      waiting := (s.scene ts hand).waiting
      backing := (os.map (·.stack.block) : Multiset Block)
      claimed := {a | ∃ o ∈ os, a ∈ o.stack.claims} } := by
  have hidle : (({ s with heap, fakeStacks := os } : Sanitizer).scene ts hand).idle =
      (s.scene ts hand).idle := by
    funext k
    cases k with
    | large => rfl
    | small c => exact congrArg (fun free : Nat → List Nat => (free c : Multiset Nat) + _) hfree
  rw [← hidle]
  rfl

/-! ## Reframing -/

theorem mem_setFakeStack {owner : Nat} {f : FakeStack} {o : OwnedStack} :
    o ∈ (Client.setFakeStack owner f s).fakeStacks ↔
      (o.owner = owner ∧ o.stack = f ∧ ∃ o' ∈ s.fakeStacks, o'.owner = owner)
        ∨ o.owner ≠ owner ∧ o ∈ s.fakeStacks := by
  unfold Client.setFakeStack
  simp only [List.mem_map]
  constructor
  · rintro ⟨o', ho', rfl⟩
    by_cases howner : o'.owner = owner
    · rw [if_pos howner]
      exact .inl ⟨howner, rfl, o', ho', howner⟩
    · rw [if_neg howner]
      exact .inr ⟨howner, ho'⟩
  · rintro (⟨howner, rfl, o', ho', howner'⟩ | ⟨howner, ho⟩)
    · refine ⟨o', ho', ?_⟩
      rw [if_pos howner']
      cases o
      cases o'
      simp_all
    · exact ⟨o, ho, if_neg howner⟩

theorem owners_setFakeStack (owner : Nat) (f : FakeStack) (s : Sanitizer) :
    (Client.setFakeStack owner f s).fakeStacks.map (·.owner) = s.fakeStacks.map (·.owner) := by
  unfold Client.setFakeStack
  rw [List.map_map]
  refine List.map_congr_left fun o _ => ?_
  by_cases howner : o.owner = owner
  · simp only [Function.comp_apply, if_pos howner]
  · simp only [Function.comp_apply, if_neg howner]

/-- Another fake stack of a thread fits in as well as the one before. -/
theorem Fit.setFakeStack {f : FakeStack} (hfit : s.Fit failing ts) (hf : f.WF) (owner : Nat) :
    (Client.setFakeStack owner f s).Fit failing ts :=
  { hfit with
    stack := by
      intro o ho
      rcases mem_setFakeStack.mp ho with ⟨-, hstack, -⟩ | ⟨-, ho⟩
      · exact hstack ▸ hf
      · exact hfit.stack o ho
    owners_nodup := (owners_setFakeStack owner f s).symm ▸ hfit.owners_nodup
    owner_lt := by
      intro o ho
      rcases mem_setFakeStack.mp ho with ⟨howner, -, o', ho', howner'⟩ | ⟨-, ho⟩
      · rw [howner, ← howner']
        exact hfit.owner_lt o' ho'
      · exact hfit.owner_lt o ho }

/-- The blocks are the same if the new fake stack lies where the old one does. -/
theorem backing_setFakeStack {f : FakeStack} (hfit : s.Fit failing ts) (ho : o ∈ s.fakeStacks)
    (hblock : f.block = o.stack.block) : (Client.setFakeStack o.owner f s).backing = s.backing := by
  unfold backing Client.setFakeStack
  rw [List.map_map]
  refine congrArg _ (List.map_congr_left fun o' ho' => ?_)
  by_cases howner : o'.owner = o.owner
  · obtain rfl := hfit.stack_unique ho' ho howner
    simp only [Function.comp_apply, if_true]
    exact hblock
  · simp only [Function.comp_apply, if_neg howner]

/-- The claims of the other fake stacks lie in other blocks. -/
theorem disjoint_claims (hfit : s.Fit failing ts)
    (hsound : Scene.Sound failing marked (s.scene ts hand)) {o' : OwnedStack} (ho : o ∈ s.fakeStacks)
    (ho' : o' ∈ s.fakeStacks) (hne : o'.stack.block ≠ o.stack.block) :
    Disjoint o'.stack.claims o.stack.block.extent := by
  have hblock := (hsound.backing_block _ (mem_backing ho)).1
  have hblock' := (hsound.backing_block _ (mem_backing ho')).1
  refine Set.disjoint_left.mpr fun a ha hin => hne (hsound.tiled.eq_of_mem hblock' hblock ?_ hin)
  rw [FakeStack.extent_block (hfit.stack o' ho')]
  exact FakeStack.claims_subset (hfit.stack o' ho') ha

/-- What is claimed changes as the claims of the one fake stack do. -/
theorem claimed_setFakeStack {f : FakeStack} {freed taken : Set Nat} (hfit : s.Fit failing ts)
    (hsound : Scene.Sound failing marked (s.scene ts hand)) (ho : o ∈ s.fakeStacks)
    (hfreed : freed ⊆ o.stack.block.extent) (hclaims : f.claims = o.stack.claims \ freed ∪ taken) :
    (Client.setFakeStack o.owner f s).claimed = s.claimed \ freed ∪ taken := by
  ext a
  constructor
  · rintro ⟨o', ho', ha⟩
    rcases mem_setFakeStack.mp ho' with ⟨-, hstack, -⟩ | ⟨howner, ho'⟩
    · rw [hstack, hclaims] at ha
      exact ha.imp (fun ha => ⟨⟨o, ho, ha.1⟩, ha.2⟩) id
    · have hne : o'.stack.block ≠ o.stack.block := fun heq =>
        howner (congrArg OwnedStack.owner (block_unique hsound ho' ho heq))
      have hout := Set.disjoint_left.mp (disjoint_claims hfit hsound ho ho' hne) ha
      exact .inl ⟨⟨o', ho', ha⟩, fun hin => hout (hfreed hin)⟩
  · have hnew : { o with stack := f } ∈ (Client.setFakeStack o.owner f s).fakeStacks :=
      mem_setFakeStack.mpr (.inl ⟨rfl, rfl, o, ho, rfl⟩)
    rintro (⟨⟨o', ho', ha⟩, hout⟩ | htaken)
    · by_cases howner : o'.owner = o.owner
      · obtain rfl := hfit.stack_unique ho' ho howner
        exact ⟨_, hnew, hclaims ▸ .inl ⟨ha, hout⟩⟩
      · exact ⟨o', mem_setFakeStack.mpr (.inr ⟨howner, ho'⟩), ha⟩
    · exact ⟨_, hnew, hclaims ▸ .inr htaken⟩

/-- What can be accessed changes as it does in the fake stack. -/
theorem opened_of_goes {heap : Heap} {f : FakeStack} {v : FakeStack.View} {freed taken : Set Nat}
    (hwf : heap.WF) (hf : f.WF) (hblock : f.block ∈ heap.blocks)
    (h : FakeStack.View.Goes ⟨f, heap.shadow⟩ freed taken v) :
    ({ heap with shadow := v.shadow } : Heap).opened = heap.opened \ freed ∪ taken := by
  refine (hwf.withShadow h.range).opened.trans (Set.ext fun a => ?_)
  have haddr : a ∈ heap.committed → (v.shadow.Addressable a ↔
      heap.shadow.Addressable a ∧ a ∉ freed ∨ a ∈ taken) :=
    fun ha => h.addressable a (hwf.lt_limit ha)
  have htaken : a ∈ taken → a ∈ heap.committed := by
    intro ha
    have hin := h.taken_subset ha
    change a ∈ f.range at hin
    rw [← FakeStack.extent_block hf] at hin
    exact hwf.extent_subset hblock hin
  constructor
  · rintro ⟨hcommitted, ha⟩
    exact ((haddr hcommitted).mp ha).imp (fun h => ⟨⟨hcommitted, h.1⟩, h.2⟩) id
  · rintro (⟨⟨hcommitted, ha⟩, hout⟩ | ha)
    · exact ⟨hcommitted, (haddr hcommitted).mpr (.inl ⟨ha, hout⟩)⟩
    · exact ⟨htaken ha, (haddr (htaken ha)).mpr (.inr ha)⟩

/-- A change of a fake stack and of the marks of its frames is a move. -/
theorem reaches_setFakeStack (hfit : s.Fit failing ts)
    (hsound : Scene.Sound failing marked (s.scene ts hand)) (ho : o ∈ s.fakeStacks)
    {v : FakeStack.View} (hv : FakeStack.View.Changes ⟨o.stack, s.heap.shadow⟩ v) :
    Reaches failing marked s ts hand []
      (Client.setFakeStack o.owner v.stack { s with heap := { s.heap with shadow := v.shadow } })
      ts hand := by
  obtain ⟨freed, taken, hgoes⟩ := hv
  have hf := hfit.stack o ho
  have hblock := hsound.backing_block _ (mem_backing ho)
  have hextent := FakeStack.extent_block hf
  have hsame : v.stack.block = o.stack.block := by
    unfold FakeStack.block
    rw [hgoes.begin_eq, hgoes.sizeLog_eq]
  have hfreed : freed ⊆ o.stack.block.extent := hextent ▸ hgoes.freed_subset
  have htaken : taken ⊆ o.stack.block.extent := hextent ▸ hgoes.taken_subset
  have hmarked : ({ s with heap := { s.heap with shadow := v.shadow } } : Sanitizer).Fit failing ts :=
    hfit.becomes (hfit.heap.withShadow hgoes.range)
  have hstill : Still marked s ts hand
      (Client.setFakeStack o.owner v.stack { s with heap := { s.heap with shadow := v.shadow } }) ts hand := by
    constructor
    case code =>
      -- The frames lie in the block of the fake stack, and that is no chunk.
      intro _ b hb a ha
      have hout : a ∉ o.stack.range := fun hin => by
        rw [← hextent] at hin
        exact hb.2 (hsound.tiled.eq_of_mem hb.1 hblock.1 ha hin ▸ rfl)
      exact hgoes.outside a (hfit.heap.lt_limit (hfit.heap.extent_subset hb.1 ha)) hout
    case owners => exact owners_setFakeStack ..
    case ids => exact .refl _
    case counters => exact fun _ _ => rfl
    all_goals rfl
  refine ⟨hmarked.setFakeStack hgoes.wf.stack _, rfl, rfl, rfl, ?_, hstill.lasts, fun _ => hstill.counted,
    hstill.guards⟩
  refine (Moves.one (.reframe (s := s.scene ts hand) o.stack.block freed taken (mem_backing ho) hfreed
    htaken)).of_eq ?_
  refine Eq.trans ?_ (scene_withFakeStacks { s.heap with shadow := v.shadow }
    (Client.setFakeStack o.owner v.stack s).fakeStacks rfl).symm
  have hopened := opened_of_goes hfit.heap hf hblock.1 hgoes
  have hbacking := backing_setFakeStack hfit ho hsame
  have hclaimed := claimed_setFakeStack hfit hsound ho hfreed hgoes.claims
  unfold backing at hbacking
  unfold claimed at hclaimed
  rw [hopened, hclaimed]
  exact congrArg (fun backing => { (s.scene ts hand).reframe freed taken with backing }) hbacking.symm

/-! ## Balance -/

/-- The number of claimed frames in all fake stacks. -/
def claimedFrames (s : Sanitizer) : Nat :=
  (s.fakeStacks.map (·.stack.claimedCount)).sum

/-- The frames that were claimed, and neither given back, nor collected, nor are claimed still. -/
def frameBalance (s : Sanitizer) : ZMod Word.limit :=
  s.metrics.fakeFramesAllocated - s.metrics.fakeFramesFreed - s.metrics.fakeFramesCollected
    - s.claimedFrames

/-- The number of frames that the fake stack of a thread has collected, zero if it has none. -/
def collectedOf (s : Sanitizer) (id : Nat) : Nat :=
  ((s.fakeStackOf? id).map (·.collected)).getD 0

/-- Another fake stack of a thread counts for the one before. -/
theorem claimedFrames_setFakeStack (hfit : s.Fit failing ts) (ho : o ∈ s.fakeStacks) (f : FakeStack) :
    (Client.setFakeStack o.owner f s).claimedFrames + o.stack.claimedCount =
      s.claimedFrames + f.claimedCount := by
  have hnodup := hfit.owners_nodup
  unfold claimedFrames Client.setFakeStack
  show ((s.fakeStacks.map _).map _).sum + _ = _
  generalize s.fakeStacks = list at ho hnodup
  induction list with
  | nil => exact nomatch ho
  | cons x rest ih =>
      obtain ⟨hx, hrest⟩ := List.nodup_cons.mp hnodup
      change x.owner ∉ rest.map (·.owner) at hx
      simp only [List.map_cons, List.sum_cons]
      by_cases howner : x.owner = o.owner
      · -- No other thread with this number follows, so the rest stays as it is.
        have hsame : rest.map (fun y => if y.owner = o.owner then { y with stack := f } else y) = rest := by
          refine (List.map_congr_left fun y hy => ?_).trans (List.map_id' rest)
          refine if_neg fun heq => hx ?_
          rw [howner, ← heq]
          exact List.mem_map_of_mem hy
        have hin : o = x := by
          rcases List.mem_cons.mp ho with rfl | ho
          · rfl
          · refine absurd ?_ hx
            rw [howner]
            exact List.mem_map_of_mem ho
        rw [if_pos howner, hsame, hin]
        show f.claimedCount + _ + _ = _
        omega
      · have hin : o ∈ rest := (List.mem_cons.mp ho).resolve_left fun heq => howner (heq ▸ rfl)
        have hsum := ih hin hrest
        rw [if_neg howner]
        omega

theorem fakeStackOf?_setFakeStack (ho : o ∈ s.fakeStacks) (f : FakeStack) :
    (Client.setFakeStack o.owner f s).fakeStackOf? o.owner = some f := by
  have hin : { o with stack := f } ∈ (Client.setFakeStack o.owner f s).fakeStacks :=
    mem_setFakeStack.mpr (.inl ⟨rfl, rfl, o, ho, rfl⟩)
  unfold fakeStackOf?
  cases hfind : (Client.setFakeStack o.owner f s).fakeStacks.find? (·.owner == o.owner) with
  | none => exact absurd (beq_iff_eq.mpr rfl) (List.find?_eq_none.mp hfind { o with stack := f } hin)
  | some o' =>
      have howner : o'.owner = o.owner := by simpa using List.find?_some hfind
      rcases mem_setFakeStack.mp (List.mem_of_find?_eq_some hfind) with ⟨-, hstack, -⟩ | ⟨hne, -⟩
      · exact congrArg some hstack
      · exact absurd howner hne

/-- What a call has done to the fake stack of a thread, before anything of it is counted. -/
structure Reframes (failing marked : Prop) (s : Sanitizer) (ts : List Thread) (hand : Multiset Entry)
    (id claimed freed collected : Nat) (t : Sanitizer) : Prop where
  reaches : Reaches failing marked s ts hand [] t ts hand
  metrics : t.metrics = s.metrics
  count : t.claimedFrames + freed = s.claimedFrames + claimed
  collected : (t.collectedOf id : ZMod Word.limit) = s.collectedOf id + collected

/-- What is settled on a fake stack and its shadow is settled for the sanitizer. -/
theorem reframes_of_settles (hfit : s.Fit failing ts)
    (hsound : Scene.Sound failing marked (s.scene ts hand)) {id : Nat} {f : FakeStack}
    (hf : s.fakeStackOf? id = some f) {v : FakeStack.View} {claimed freed collected : Nat}
    (hv : FakeStack.View.Settles claimed freed collected ⟨f, s.heap.shadow⟩ v) :
    Reframes failing marked s ts hand id claimed freed collected
      (Client.setFakeStack id v.stack { s with heap := { s.heap with shadow := v.shadow } }) := by
  obtain ⟨o, ho, rfl, rfl⟩ := of_fakeStackOf? hf
  refine ⟨reaches_setFakeStack hfit hsound ho hv.changes, rfl, ?_, ?_⟩
  · have hframes := claimedFrames_setFakeStack hfit ho v.stack
    have hcount := hv.count
    show (Client.setFakeStack o.owner v.stack s).claimedFrames + freed = _
    change v.stack.claimedCount + freed = o.stack.claimedCount + claimed at hcount
    omega
  · have hafter := fakeStackOf?_setFakeStack
      (s := { s with heap := { s.heap with shadow := v.shadow } }) ho v.stack
    unfold collectedOf
    rw [hafter, hf]
    exact hv.collected

/-- What was claimed and is not counted yet goes off the balance, and what was given back goes onto it. -/
theorem Reframes.balance {id claimed freed collected : Nat} {t : Sanitizer}
    (h : Reframes failing marked s ts hand id claimed freed collected t) :
    t.frameBalance = s.frameBalance + freed - claimed := by
  have hcount : (t.claimedFrames : ZMod Word.limit) + freed = s.claimedFrames + claimed := by
    rw [← Nat.cast_add, h.count, Nat.cast_add]
  unfold frameBalance
  rw [h.metrics]
  linear_combination -hcount

/-- Nothing has changed that the scene shows, and the balance of frames has by `shift`. -/
structure Shifts (shift : ZMod Word.limit) (s t : Sanitizer) : Prop where
  like : Like 0 s t
  balance : t.frameBalance = s.frameBalance + shift

theorem Shifts.of_eq {z z' : ZMod Word.limit} {t : Sanitizer} (h : Shifts z s t) (heq : z = z') :
    Shifts z' s t :=
  heq ▸ h

theorem Shifts.trans {z z' : ZMod Word.limit} {t u : Sanitizer} (h : Shifts z s t)
    (h' : Shifts z' t u) : Shifts (z + z') s u :=
  ⟨h.like.trans h'.like, by rw [h'.balance, h.balance, add_assoc]⟩

theorem ends_countBy_shifts {ε : Type} {no : ε → Sanitizer → Prop} {k : Counter}
    (hk : k ∉ Counter.ofChunks) (n : Nat) :
    Act.Ends (countBy k n) s (fun _ t => Shifts (k.frameSign * n) s t) no := by
  have hlike : Act.Ends (countBy k n) s (fun _ t => Like 0 s t) no := ends_countBy hk n
  refine Act.ends_modify.mpr ⟨Act.ends_modify.mp hlike, ?_⟩
  unfold frameBalance
  cases k <;> simp [Metrics.add, Metrics.setValue, Metrics.value, Word.cast_wrapAdd, Counter.frameSign,
    claimedFrames] <;> ring

theorem ends_emit_shifts {ε : Type} {no : ε → Sanitizer → Prop} (hclock : s.clock.isSome = true)
    (level : EventLog.Level) (event : String) (more : EventLog.Entry → EventLog.Entry) :
    Act.Ends (emit level event more) s (fun _ t => Shifts 0 s t) no := by
  refine (ends_emit_eq hclock level event more).imp (fun _ t ht => ?_) fun _ _ hno => hno
  rw [ht]
  exact ⟨.logged s _, (add_zero _).symm⟩

/-! ## Calls -/

namespace Client

variable {c : Client}

/-- A call on the fake stack of a thread settles what it settles there. -/
theorem ends_onFakeStack {α : Type} {act : Act FakeStackError FakeStack.View α} {f : FakeStack}
    {id : Nat} (hfit : s.Fit failing ts) (hsound : Scene.Sound failing marked (s.scene ts hand))
    (hf : s.fakeStackOf? id = some f) {ok : α → Sanitizer → Prop}
    {no : FakeStackError → Sanitizer → Prop}
    (hact : ∀ v : FakeStack.View, v.WF → v = ⟨f, s.heap.shadow⟩ → Act.Ends act v
      (fun a w => ok a (setFakeStack id w.stack { s with heap := { s.heap with shadow := w.shadow } }))
      fun e w => no e (setFakeStack id w.stack { s with heap := { s.heap with shadow := w.shadow } })) :
    Act.Ends (onFakeStack id f act) s ok no := by
  obtain ⟨o, ho, rfl, rfl⟩ := of_fakeStackOf? hf
  unfold onFakeStack
  rw [Act.ends_onPart]
  exact hact _ (view_wf hfit hsound ho) rfl

/-- Count and log what the fake stack `f` of a thread answered. -/
def settleFrame (t : Thread) (f : FakeStack) (classId size realStack : Nat)
    (result : Except FakeStackError Nat) : Act FakeStackError Sanitizer Nat := do
  let collected := (((← get).fakeStackOf? t.id).map (·.collected)).getD 0
  countBy .fakeFramesCollected (← Word.sub collected f.collected)
  match result with
  | .ok frame =>
    count .fakeFramesAllocated
    return frame
  | .error (.exhausted _) =>
    count .fakeStackFallbacks
    emit .debug "fake_stack_exhausted" fun e =>
      ((e.withTid t.tid).withSize size).withDetails (.object [("class_id", .nat classId)])
    return realStack
  | .error e => Act.refuse e

/-- The frames that an answer of a fake stack hands out. -/
def served : Except FakeStackError Nat → Nat
  | .ok _ => 1
  | .error _ => 0

/-- What the fake stack served goes onto the balance, and what it has collected since goes off.  Where it has
    served nothing, the answer is the real stack. -/
theorem ends_settleFrame {s : Sanitizer} {ts : List Thread} (hfit : s.Fit failing ts) (t : Thread)
    (f : FakeStack) (classId size realStack : Nat) (result : Except FakeStackError Nat) :
    Act.EndsOrStops (settleFrame t f classId size realStack result) s
      (fun a u => Shifts (served result - (s.collectedOf t.id - f.collected)) s u
        ∧ (result = .ok a ∨ a = realStack))
      fun _ u => Shifts (served result - (s.collectedOf t.id - f.collected)) s u := by
  unfold settleFrame
  rw [Act.endsOrStops_bind]
  refine Act.Ends.orStops ?_
  rw [Act.ends_get, Act.endsOrStops_bind, Act.endsOrStops_liftM]
  intro collected hsub
  -- The collected frames of the thread have grown by what was collected now.
  have hcollected : (collected : ZMod Word.limit) = s.collectedOf t.id - f.collected := by
    change Word.sub (s.collectedOf t.id) f.collected = _ at hsub
    unfold Word.sub at hsub
    by_cases hle : f.collected ≤ s.collectedOf t.id
    · rw [if_pos hle] at hsub
      rw [← Except.ok.inj hsub, Nat.cast_sub hle]
    · rw [if_neg hle] at hsub
      exact nomatch hsub
  rw [← hcollected]
  refine Act.Ends.orStops ?_
  rw [Act.ends_bind]
  refine (ends_countBy_shifts (by decide) collected).imp ?_ fun _ _ hno => hno
  intro _ u hu
  cases result with
  | ok frame =>
      dsimp only
      rw [Act.ends_bind]
      refine (ends_countBy_shifts (by decide) 1).imp ?_ fun _ _ hno => hno
      intro _ v hv
      refine ⟨(hu.trans hv).of_eq ?_, .inl rfl⟩
      simp only [Counter.frameSign, served, Nat.cast_one]
      ring
  -- What was not served counts nothing, whether it is counted as exhausted or not.
  | error e =>
      have hrefused : Shifts (served (.error e) - (collected : ZMod Word.limit)) s u := by
        refine hu.of_eq ?_
        simp only [Counter.frameSign, served, Nat.cast_zero]
        ring
      cases e with
      | exhausted _ =>
          dsimp only
          rw [Act.ends_bind]
          refine (ends_countBy_shifts (by decide) 1).imp ?_ fun _ _ hno => hno
          intro _ v hv
          rw [Act.ends_bind]
          refine (ends_emit_shifts (hv.like.fit (hu.like.fit hfit)).clock _ _ _).imp ?_ fun _ _ hno => hno
          intro _ w hw
          refine ⟨((hu.trans hv).trans hw).of_eq ?_, .inr rfl⟩
          simp only [Counter.frameSign, served, Nat.cast_zero]
          ring
      | _ => exact hrefused

/-- Where the class and the size of a frame fit and the thread has a fake stack, it is asked, and its answer is
    counted and logged. -/
theorem endsOrStops_allocateFrame_of (hfit : c.Fit failing)
    (hsound : Scene.Sound failing marked (c.scene hand)) {classId size realStack : Nat}
    {ok : Nat → Client → Prop} {no : FakeStackError → Client → Prop} (hno : ∀ e, no e c)
    (hnone : ∀ t, Shifts 0 c.shared t → ok realStack { c with shared := t })
    (hsome : checkFrame classId size = .ok () → ∀ f v, c.shared.fakeStackOf? c.thread.id = some f →
      v.WF → v = ⟨f, c.shared.heap.shadow⟩ →
      Act.Ends (FakeStack.View.allocate classId realStack) v
        (fun p w => Act.EndsOrStops (settleFrame c.thread f classId size realStack (.ok p))
          (setFakeStack c.thread.id w.stack
            { c.shared with heap := { c.shared.heap with shadow := w.shadow } })
          (fun a t => ok a { c with shared := t }) fun e t => no e { c with shared := t })
        fun e w => Act.EndsOrStops (settleFrame c.thread f classId size realStack (.error e))
          (setFakeStack c.thread.id w.stack
            { c.shared with heap := { c.shared.heap with shadow := w.shadow } })
          (fun a t => ok a { c with shared := t }) fun e t => no e { c with shared := t }) :
    Act.EndsOrStops (allocateFrame classId size realStack) c ok no := by
  unfold allocateFrame
  rw [Act.endsOrStops_bind]
  refine Act.Ends.orStops ?_
  rw [Act.ends_ofExcept]
  refine ⟨fun _ hcheck => ?_, fun e _ => hno e⟩
  rw [Act.endsOrStops_bind]
  refine Act.Ends.orStops ?_
  rw [Act.ends_get]
  unfold onShared
  rw [Act.endsOrStops_onPart, Act.endsOrStops_bind]
  refine Act.Ends.orStops ?_
  rw [Act.ends_get]
  -- A thread without a fake stack gets its real one back, and only a counter changes.
  cases hf : c.shared.fakeStackOf? c.thread.id with
  | none =>
      refine Act.Ends.orStops ?_
      rw [Act.ends_bind]
      refine (ends_countBy_shifts (by decide) 1).imp (fun _ t ht => hnone t ?_) fun _ _ hno => hno
      exact ht.of_eq (zero_mul _)
  | some f =>
      rw [Act.endsOrStops_bind]
      refine Act.Ends.orStops ?_
      rw [Act.ends_attempt]
      exact ends_onFakeStack hfit hsound hf fun v hv heq => hsome hcheck f v hf hv heq

/-- Claiming a frame has no deed and keeps the balance, whether the fake stack serves it or not. -/
theorem ends_allocateFrame (hfit : c.Fit failing)
    (hsound : Scene.Sound failing marked (c.scene hand)) (classId size realStack : Nat) :
    Act.EndsOrStops (allocateFrame classId size realStack) c
      (fun _ c' => Reaches failing marked c hand [] c' hand
        ∧ c'.shared.frameBalance = c.shared.frameBalance)
      fun _ c' => Reaches failing marked c hand [] c' hand
        ∧ c'.shared.frameBalance = c.shared.frameBalance := by
  refine endsOrStops_allocateFrame_of hfit hsound (fun _ => ⟨.refl hfit, rfl⟩)
    (fun t ht => ⟨reaches_shared (ht.like.reaches hfit), ht.balance.trans (add_zero _)⟩)
    fun _ f v hf hv heq => ?_
  subst heq
  -- What the call on the fake stack returned decides what is counted and logged.
  have hnext : ∀ (result : Except FakeStackError Nat) (n : Nat) (t : Sanitizer),
      Reframes failing marked c.shared c.crew hand c.thread.id (served result) n n t →
      Act.EndsOrStops (settleFrame c.thread f classId size realStack result) t
        (fun _ t => Reaches failing marked c hand [] { c with shared := t } hand
          ∧ t.frameBalance = c.shared.frameBalance)
        fun _ t => Reaches failing marked c hand [] { c with shared := t } hand
          ∧ t.frameBalance = c.shared.frameBalance := by
    intro result n t ht
    have hdone : ∀ u, Shifts (served result - (t.collectedOf c.thread.id - f.collected)) t u →
        Reaches failing marked c hand [] { c with shared := u } hand
          ∧ u.frameBalance = c.shared.frameBalance := by
      intro u hu
      refine ⟨reaches_shared (ht.reaches.trans (hu.like.reaches ht.reaches.fit)), ?_⟩
      have hbefore : c.shared.collectedOf c.thread.id = f.collected := by
        unfold collectedOf
        rw [hf]
        rfl
      rw [hu.balance, ht.balance, ht.collected, hbefore]
      ring
    exact (ends_settleFrame ht.reaches.fit _ _ _ _ _ _).imp (fun _ u hu => hdone u hu.1)
      fun _ u hu => hdone u hu
  refine (FakeStack.View.ends_allocate hv realStack).imp ?_ ?_
  · exact fun frame w ⟨n, hw⟩ => hnext (.ok frame) n _ (reframes_of_settles hfit hsound hf hw)
  · exact fun e w ⟨_, n, hw⟩ => hnext (.error e) n _ (reframes_of_settles hfit hsound hf hw)

/-- A frame of the real stack is ignored; another one is given back to the fake stack, if its class and its
    size fit and the thread has one. -/
theorem ends_freeFrame_of (hfit : c.Fit failing)
    (hsound : Scene.Sound failing marked (c.scene hand)) {p classId size realStack : Nat}
    {ok : Unit → Client → Prop} {no : FakeStackError → Client → Prop} (hreal : p = realStack → ok () c)
    (hcheck : ∀ e, p ≠ realStack → checkFrame classId size = .error e → no e c)
    (hnone : p ≠ realStack → c.shared.fakeStackOf? c.thread.id = none → no (.notAllocated p) c)
    (hsome : p ≠ realStack → ∀ f v, c.shared.fakeStackOf? c.thread.id = some f →
      v.WF → v = ⟨f, c.shared.heap.shadow⟩ →
      Act.Ends (FakeStack.View.free p classId) v
        (fun _ w => ∀ t, Shifts (-1) (setFakeStack c.thread.id w.stack
          { c.shared with heap := { c.shared.heap with shadow := w.shadow } }) t → ok () { c with shared := t })
        fun e w => no e { c with
          shared := setFakeStack c.thread.id w.stack
            { c.shared with heap := { c.shared.heap with shadow := w.shadow } } }) :
    Act.Ends (freeFrame p classId size realStack) c ok no := by
  unfold freeFrame
  by_cases heq : p = realStack
  · rw [if_pos heq]
    exact hreal heq
  rw [if_neg heq, Act.ends_bind, Act.ends_ofExcept]
  refine ⟨fun _ _ => ?_, fun e he => hcheck e heq he⟩
  rw [Act.ends_bind, Act.ends_get, ends_onShared, Act.ends_bind, Act.ends_get, Act.ends_bind,
    Act.ends_orRefuse]
  refine ⟨fun f hf => ?_, hnone heq⟩
  rw [Act.ends_bind]
  refine ends_onFakeStack hfit hsound hf fun v hv hview => (hsome heq f v hf hv hview).imp ?_
    fun _ _ hno => hno
  intro _ w hw
  refine (ends_countBy_shifts (by decide) 1).imp (fun _ t ht => hw t (ht.of_eq ?_)) fun _ _ hno => hno
  simp [Counter.frameSign]

/-- Giving a frame back has no deed and keeps the balance. -/
theorem ends_freeFrame (hfit : c.Fit failing)
    (hsound : Scene.Sound failing marked (c.scene hand)) (p classId size realStack : Nat) :
    Act.Ends (freeFrame p classId size realStack) c
      (fun _ c' => Reaches failing marked c hand [] c' hand
        ∧ c'.shared.frameBalance = c.shared.frameBalance)
      fun _ c' => Reaches failing marked c hand [] c' hand
        ∧ c'.shared.frameBalance = c.shared.frameBalance := by
  have hsame : Reaches failing marked c hand [] c hand ∧ c.shared.frameBalance = c.shared.frameBalance :=
    ⟨.refl hfit, rfl⟩
  refine ends_freeFrame_of hfit hsound (fun _ => hsame) (fun _ _ _ => hsame) (fun _ _ => hsame)
    fun _ f v hf hv heq => ?_
  subst heq
  refine (FakeStack.View.ends_free hv p).imp ?_ ?_
  · rintro _ w ⟨-, hw⟩ u hu
    have hfreed := reframes_of_settles hfit hsound hf hw
    refine ⟨reaches_shared (hfreed.reaches.trans (hu.like.reaches hfreed.reaches.fit)), ?_⟩
    show u.frameBalance = _
    rw [hu.balance, hfreed.balance]
    simp
  · rintro _ w ⟨rfl, -, -⟩
    have hkept := reframes_of_settles hfit hsound hf (.refl hv)
    exact ⟨reaches_shared hkept.reaches, hkept.balance.trans (by simp)⟩

/-- Leaving frames behind has no deed and keeps the balance. -/
theorem ends_noReturn {ε : Type} (hfit : c.Fit failing)
    (hsound : Scene.Sound failing marked (c.scene hand)) {no : ε → Client → Prop} :
    Act.Ends (noReturn : Act ε Client Unit) c
      (fun _ c' => Reaches failing marked c hand [] c' hand
        ∧ c'.shared.frameBalance = c.shared.frameBalance) no := by
  unfold noReturn
  rw [Act.ends_bind, Act.ends_get, ends_onShared]
  refine Act.ends_modify.mpr ?_
  cases hf : c.shared.fakeStackOf? c.thread.id with
  | none => exact ⟨reaches_shared (.refl hfit), rfl⟩
  | some f =>
      obtain ⟨o, ho, -, rfl⟩ := of_fakeStackOf? hf
      have hv := view_wf hfit hsound ho
      have hleft := reframes_of_settles hfit hsound hf
        (.of_stack hv (f := o.stack.noReturn) { hv.stack with } rfl rfl rfl rfl rfl)
      exact ⟨reaches_shared hleft.reaches, hleft.balance.trans (by simp)⟩

end Client

end Sanitizer

end GuardedHeap
