import GuardedHeap.Proofs.Run.Spared

/-! # Nested frames — no frame in use is collected

    A thread uses a frame from its allocation until the thread gives it
    back, abandons it or ends.  In a `NestedRun` its functions nest: one
    that asks for a frame lies below those whose frames are in use.

    What the frames in use have (`Sanitizer.Tracks`) is kept by every call
    (`Sanitizer.Tracks.ends_perform`): a collection looks for owners below
    the function that asks, which no function with a frame in use is, and
    the frame that this one gets was nobody's.  So in any such run a frame in
    use is there until it is given back, and can be given back
    (`collections_spare_uses`). -/

namespace GuardedHeap

open Act

/-- A frame that a thread was given, with what was asked for. -/
structure UsedFrame where
  ptr : Nat
  classId : Nat
  size : Nat
  realStack : Nat
  deriving DecidableEq

namespace UsedFrame

/-- The frame is not that of the real stack. -/
def Fake (u : UsedFrame) : Prop :=
  u.ptr ≠ u.realStack

/-- The call that gives the frame back. -/
def back (u : UsedFrame) (id : Nat) : Operation :=
  .freeFrame id u.ptr u.classId u.size u.realStack

end UsedFrame

namespace Operation

/-- The real stack address of the function for which the thread asks for a frame. -/
def asksFor? (id : Nat) : Operation → Option Nat
  | allocateFrame i _ _ realStack => if i = id then some realStack else none
  | _ => none

/-- If the thread asks for a frame, then for a function that lies above none of those with frames in use. -/
def Nests (id : Nat) (uses : List UsedFrame) (op : Operation) : Prop :=
  ∀ realStack ∈ op.asksFor? id, ∀ u ∈ uses, realStack ≤ u.realStack

instance (id : Nat) (uses : List UsedFrame) (op : Operation) : Decidable (op.Nests id uses) :=
  inferInstanceAs (Decidable (∀ realStack ∈ op.asksFor? id, ∀ u ∈ uses, realStack ≤ u.realStack))

/-- The frames of a thread that are in use after a call, if none is abandoned. -/
def stillUsed (id : Nat) (uses : List UsedFrame) (op : Operation) (answer : Answer) : List UsedFrame :=
  match op, answer with
  | allocateFrame i classId size realStack, .ok ptr =>
    if i = id then ⟨ptr, classId, size, realStack⟩ :: uses else uses
  | freeFrame i ptr classId size realStack, .ok _ =>
    if i = id then
      if ptr = realStack then uses.erase ⟨ptr, classId, size, realStack⟩
      else uses.filter fun u => u.ptr = u.realStack ∨ u.ptr ≠ ptr
    else uses
  | unregister i, _ => if i = id then [] else uses
  | _, _ => uses

end Operation

namespace Event

/-- If the event is a call, then it nests. -/
def Nests (id : Nat) (uses : List UsedFrame) : Event → Prop
  | call op _ => op.Nests id uses
  | _ => True

/-- The frames of a thread that are in use after an event, if none is abandoned. -/
def stillUsed (id : Nat) (uses : List UsedFrame) : Event → List UsedFrame
  | call op answer => op.stillUsed id uses answer
  | _ => uses

end Event

/-- A run in which the functions of a thread nest, with the frames that they use since some moment.  At any time
    some of them may be abandoned. -/
inductive NestedRun (failing marked : Prop) (id : Nat) : List Occurrence → Sanitizer → List UsedFrame → Prop where
  | start {past : List Occurrence} {s : Sanitizer} (hrun : Run failing marked past s) :
      NestedRun failing marked id past s []
  | event {past : List Occurrence} {s t : Sanitizer} {uses : List UsedFrame} {e : Event}
      (h : NestedRun failing marked id past s uses) (hstep : s.Step e t) (hfails : e.Fails → failing)
      (hmarks : e.Marks → marked) (hnests : e.Nests id uses) :
      NestedRun failing marked id (past ++ [⟨s, e, t⟩]) t (e.stillUsed id uses)
  | abandon {past : List Occurrence} {s : Sanitizer} {uses left : List UsedFrame}
      (h : NestedRun failing marked id past s uses) (hleft : left.Sublist uses) :
      NestedRun failing marked id past s left

namespace Sanitizer

variable {failing marked : Prop} {s t : Sanitizer} {id : Nat} {uses left : List UsedFrame} {u : UsedFrame}

/-- The frames in use are those of a registered thread; the fake ones are claimed for their owners, and no
    two of them are the same. -/
structure Tracks (s : Sanitizer) (id : Nat) (uses : List UsedFrame) : Prop where
  registered : uses ≠ [] → id ∈ s.ids
  served : ∀ u ∈ uses, u.Fake →
    Client.checkFrame u.classId u.size = .ok () ∧ s.Serves id u.classId u.ptr u.realStack
  apart : uses.Pairwise fun u w => u.Fake → w.Fake → u.ptr ≠ w.ptr

namespace Tracks

theorem nil : s.Tracks id [] where
  registered hne := absurd rfl hne
  served _ hu := nomatch hu
  apart := .nil

theorem sublist (h : s.Tracks id uses) (hleft : left.Sublist uses) : s.Tracks id left where
  registered hne := h.registered fun heq => hne (List.sublist_nil.mp (heq ▸ hleft))
  served u hu := h.served u (hleft.subset hu)
  apart := h.apart.sublist hleft

/-- Frames that are spared can be used on. -/
theorem spared {which : Nat → Nat → Prop} (h : s.Tracks id uses) (hids : id ∈ s.ids → id ∈ t.ids)
    (hspares : s.Spares id which t) (hwhich : ∀ u ∈ uses, u.Fake → which u.ptr u.realStack) :
    t.Tracks id uses where
  registered hne := hids (h.registered hne)
  served u hu hfake :=
    (h.served u hu hfake).imp_right (hspares u.classId u.ptr u.realStack (hwhich u hu hfake))
  apart := h.apart

theorem kept (h : s.Tracks id uses) (hids : id ∈ s.ids → id ∈ t.ids)
    (hspares : s.Spares id (fun _ _ => True) t) : t.Tracks id uses :=
  h.spared hids hspares fun _ _ _ => trivial

/-- A frame that nobody had comes to those in use. -/
theorem cons (h : t.Tracks id uses) (hid : id ∈ t.ids)
    (hserved : u.Fake → Client.checkFrame u.classId u.size = .ok () ∧ t.Serves id u.classId u.ptr u.realStack)
    (hfresh : u.Fake → ∀ w ∈ uses, w.Fake → u.ptr ≠ w.ptr) : t.Tracks id (u :: uses) where
  registered _ := hid
  served := List.forall_mem_cons.mpr ⟨hserved, h.served⟩
  apart := List.pairwise_cons.mpr ⟨fun w hw hu hfake => hfresh hu w hw hfake, h.apart⟩

end Tracks

/-! ## Calls -/

section Calls

variable (hfit : s.Fit failing s.threads) (hsound : Scene.Sound failing marked (s.scene s.threads 0))

include hfit hsound

/-- An allocation of the thread brings a frame to those in use, one of another thread brings none. -/
theorem Tracks.ends_allocateFrame (h : s.Tracks id uses) {i classId size realStack : Nat}
    (hnests : (Operation.allocateFrame i classId size realStack).Nests id uses) :
    EndsOrStops (Operation.allocateFrame i classId size realStack).perform s
      (fun p t => t.Tracks id ((Operation.allocateFrame i classId size realStack).stillUsed id uses (.ok p)))
      fun _ t => t.Tracks id uses := by
  have hids : Fixes ids (Operation.allocateFrame i classId size realStack).perform :=
    fixes_ids nofun fun _ => nofun
  have hcall : EndsOrStops (Operation.allocateFrame i classId size realStack).perform s
      (fun p t => (i ∈ s.ids ∧ (p ≠ realStack → Client.checkFrame classId size = .ok ()
          ∧ t.Serves i classId p realStack ∧ ∀ j owner, realStack ≤ owner → ¬ s.Serves i j p owner))
        ∧ s.Spares id (fun _ owner => i = id → realStack ≤ owner) t)
      fun _ t => s.Spares id (fun _ owner => i = id → realStack ≤ owner) t := by
    refine endsOrStops_asThread fun th hth => ?_
    obtain ⟨hclient, hscene⟩ := client_sound hfit hsound hth
    obtain rfl : th.id = i := (Client.of_thread? hth).2
    rw [endsOrStops_mapError]
    exact (Client.spares_allocateFrame hclient hscene classId size realStack).imp
      (fun p c h => ⟨⟨mem_ids.mpr ⟨th, hth⟩, h.1⟩, h.2 id⟩) fun _ c h => h id
  refine ((hids.leaves s).orStops.and hcall).imp ?_ ?_
  · rintro p t ⟨hsame, ⟨hregistered, hgiven⟩, hspares⟩
    have hkept : t.Tracks id uses :=
      h.spared (fun hid => hsame ▸ hid) hspares fun u hu _ hid => hnests realStack (if_pos hid) u hu
    show t.Tracks id (if i = id then _ else _)
    by_cases hid : i = id
    · subst hid
      rw [if_pos rfl]
      refine hkept.cons (hsame ▸ hregistered) (fun hfake => ?_) fun hfake w hw hfake' heq => ?_
      · obtain ⟨hcheck, hserves, -⟩ := hgiven hfake
        exact ⟨hcheck, hserves⟩
      · have hbefore := (h.served w hw hfake').2
        rw [← heq] at hbefore
        exact (hgiven hfake).2.2 w.classId w.realStack (hnests realStack (if_pos rfl) w hw) hbefore
    · rw [if_neg hid]
      exact hkept
  · rintro e t ⟨hsame, hspares⟩
    exact h.spared (fun hid => hsame ▸ hid) hspares fun u hu _ hid => hnests realStack (if_pos hid) u hu

/-- Giving a frame back takes it from those in use. -/
theorem Tracks.ends_freeFrame (h : s.Tracks id uses) (i p classId size realStack : Nat) :
    EndsOrStops (Operation.freeFrame i p classId size realStack).perform s
      (fun a t => t.Tracks id ((Operation.freeFrame i p classId size realStack).stillUsed id uses (.ok a)))
      fun _ t => t.Tracks id uses := by
  have hids : Fixes ids (Operation.freeFrame i p classId size realStack).perform :=
    fixes_ids nofun fun _ => nofun
  have hcall : EndsOrStops (Operation.freeFrame i p classId size realStack).perform s
      (fun _ t => s.Spares id (fun addr _ => i = id → p ≠ realStack → addr ≠ p) t)
      fun _ t => s.Spares id (fun _ _ => True) t := by
    unfold Operation.perform
    rw [endsOrStops_map]
    refine endsOrStops_asThread fun th hth => ?_
    obtain ⟨hclient, hscene⟩ := client_sound hfit hsound hth
    obtain rfl : th.id = i := (Client.of_thread? hth).2
    rw [endsOrStops_mapError]
    exact ((Client.spares_freeFrame hclient hscene p classId size realStack).imp (fun _ _ h => h id)
      fun _ _ h => h.1 id).orStops
  refine ((hids.leaves s).orStops.and hcall).imp ?_ ?_
  · rintro a t ⟨hsame, hspares⟩
    have hkept : ∀ {left : List UsedFrame}, left.Sublist uses →
        (∀ u ∈ left, u.Fake → i = id → p ≠ realStack → u.ptr ≠ p) → t.Tracks id left := fun hleft hother =>
      (h.sublist hleft).spared (fun hid => hsame ▸ hid) hspares hother
    show t.Tracks id (if i = id then if p = realStack then _ else _ else _)
    by_cases hid : i = id
    · rw [if_pos hid]
      by_cases hreal : p = realStack
      · rw [if_pos hreal]
        exact hkept List.erase_sublist fun _ _ _ _ hne => absurd hreal hne
      · rw [if_neg hreal]
        refine hkept List.filter_sublist fun u hu hfake _ _ => ?_
        exact (of_decide_eq_true (List.mem_filter.mp hu).2).resolve_left hfake
    · rw [if_neg hid]
      exact hkept (List.Sublist.refl _) fun _ _ _ heq => absurd heq hid
  · rintro e t ⟨hsame, hspares⟩
    exact h.kept (fun hid => hsame ▸ hid) hspares

/-- Whatever is called, the frames that are in use then are tracked. -/
theorem Tracks.ends_perform (h : s.Tracks id uses) {op : Operation} (hnests : op.Nests id uses) :
    EndsOrStops op.perform s (fun a t => t.Tracks id (op.stillUsed id uses (.ok a)))
      fun e t => t.Tracks id (op.stillUsed id uses (.error e)) := by
  -- Calls that are not about frames leave the fake stacks as they are.
  by_cases hop : OfFrames op
  case neg =>
    have hsame : ∀ answer, op.stillUsed id uses answer = uses := by
      intro answer
      cases op <;> first | rfl | exact absurd trivial hop
    have hids : Fixes ids op.perform :=
      fixes_ids (fun heq => hop (heq ▸ trivial)) fun _ heq => hop (heq ▸ trivial)
    have hleaves : Leaves (fun t => t.Tracks id uses) op.perform s :=
      (((fixes_frames hop).leaves s).and (hids.leaves s)).imp fun t ⟨hframes, hids⟩ =>
        h.kept (fun hid => hids ▸ hid) (spares_of_eq (fakeStackOf?_of_eq (Prod.mk.inj hframes).1 id))
    simp only [hsame]
    exact hleaves.orStops
  cases op with
  | register =>
      exact (prolongs_register.imp fun t hlonger =>
        h.kept (fun hid => hlonger.2.subset hid) hlonger.spares).orStops
  | unregister i =>
      refine endsOrStops_map.mpr (Leaves.orStops (P := fun t : Sanitizer => t.Tracks id (if i = id then [] else uses)) ?_)
      by_cases hid : i = id
      · rw [if_pos hid]
        exact Leaves.imp leaves_unregister_ids fun _ _ => .nil
      · rw [if_neg hid]
        refine ((spares_unregister hid).and leaves_unregister_ids).imp fun t ⟨hspares, hids⟩ =>
          h.kept (fun hin => ?_) hspares
        rw [hids]
        exact List.mem_filter.mpr ⟨hin, bne_iff_ne.mpr (Ne.symm hid)⟩
  | allocateFrame i classId size realStack => exact h.ends_allocateFrame hfit hsound hnests
  | freeFrame i p classId size realStack => exact h.ends_freeFrame hfit hsound i p classId size realStack
  | noReturn i =>
      have hids : Fixes ids (Operation.noReturn i).perform := fixes_ids nofun fun _ => nofun
      have hcall : EndsOrStops (Operation.noReturn i).perform s
          (fun _ t => s.Spares id (fun _ _ => True) t) fun _ t => s.Spares id (fun _ _ => True) t := by
        unfold Operation.perform
        rw [endsOrStops_map]
        refine endsOrStops_asThread fun th hth => ?_
        exact (Client.spares_noReturn.imp (fun _ _ h => h id) fun _ _ h => h).orStops
      exact ((hids.leaves s).orStops.and hcall).imp
        (fun _ t ⟨hsame, hspares⟩ => h.kept (fun hid => hsame ▸ hid) hspares)
        fun _ t ⟨hsame, hspares⟩ => h.kept (fun hid => hsame ▸ hid) hspares
  | _ => exact hop.elim

/-- A frame in use can be given back. -/
theorem Tracks.ends_back (h : s.Tracks id uses) (hu : u ∈ uses) :
    Ends (u.back id).perform s (fun a _ => a = 0) fun _ _ => False := by
  obtain ⟨th, hth⟩ := mem_ids.mp (h.registered (List.ne_nil_of_mem hu))
  obtain ⟨hclient, hscene⟩ := client_sound hfit hsound hth
  obtain rfl : th.id = id := (Client.of_thread? hth).2
  refine ends_map.mpr (ends_asThread hth ?_)
  rw [ends_mapError]
  refine (Client.spares_freeFrame hclient hscene u.ptr u.classId u.size u.realStack).imp (fun _ _ _ => rfl) ?_
  rintro e c ⟨-, hfake, hnot⟩
  obtain ⟨hcheck, hserves⟩ := h.served u hu hfake
  exact hnot hcheck u.realStack hserves

end Calls

/-- Whatever happens, the frames that are in use then are tracked. -/
theorem Step.tracks {e : Event} (hfit : s.Fit failing s.threads)
    (hsound : Scene.Sound failing marked (s.scene s.threads 0)) (h : s.Tracks id uses)
    (hnests : e.Nests id uses) (hstep : s.Step e t) : t.Tracks id (e.stillUsed id uses) := by
  cases hstep with
  | @call op answer t hact =>
      have hends : EndsOrStops (attempt op.perform : Act Empty Sanitizer Answer) s
          (fun answer t => t.Tracks id (op.stillUsed id uses answer)) fun _ _ => True :=
        endsOrStops_attempt.mpr (h.ends_perform hfit hsound hnests)
      exact hends.of_ok hact
  | write | tick | readLog | schedule => exact ⟨h.registered, h.served, h.apart⟩

end Sanitizer

namespace NestedRun

variable {failing marked : Prop} {id : Nat} {past : List Occurrence} {s : Sanitizer} {uses : List UsedFrame}

theorem run (h : NestedRun failing marked id past s uses) : Run failing marked past s := by
  induction h with
  | start hrun => exact hrun
  | event _ hstep hfails hmarks _ ih => exact ih.snoc hstep hfails hmarks
  | abandon _ _ ih => exact ih

theorem tracks (h : NestedRun failing marked id past s uses) : s.Tracks id uses := by
  induction h with
  | start => exact .nil
  | event h hstep _ _ hnests ih => exact hstep.tracks h.run.fit h.run.sound ih hnests
  | abandon _ hleft ih => exact ih.sublist hleft

/-- What the functions of a thread can do. -/
inductive Move where
  | call (op : Operation)
  /-- The functions that use the latest frames do not return. -/
  | abandon (count : Nat)

/-- One move after the other, as long as the functions nest. -/
def follow (id : Nat) (s : Sanitizer) (uses : List UsedFrame) :
    List Move → Option (Sanitizer × List UsedFrame)
  | [] => some (s, uses)
  | .call op :: rest =>
    if op.Nests id uses then
      (returned? (attempt op.perform : Act Empty Sanitizer Answer) s).bind fun r =>
        follow id r.2 (op.stillUsed id uses r.1) rest
    else none
  | .abandon count :: rest => follow id s (uses.drop count) rest

theorem follow_moves (h : NestedRun failing True id past s uses) {moves : List Move} {r : Sanitizer × List UsedFrame}
    (hmoves : follow id s uses moves = some r) : ∃ past, NestedRun failing True id past r.1 r.2 := by
  induction moves generalizing past s uses with
  | nil =>
      obtain rfl := Option.some.inj hmoves
      exact ⟨past, h⟩
  | cons move rest ih =>
      cases move with
      | call op =>
          unfold follow at hmoves
          by_cases hnests : op.Nests id uses
          · rw [if_pos hnests] at hmoves
            obtain ⟨answered, hanswered, hrest⟩ := Option.bind_eq_some_iff.mp hmoves
            exact ih (h.event (.call (of_returned? hanswered)) False.elim (fun _ => trivial) hnests) hrest
          · rw [if_neg hnests] at hmoves
            exact nomatch hmoves
      | abandon count => exact ih (h.abandon (List.drop_sublist count uses)) hmoves

/-- A sanitizer for a configuration on fresh pages, after some moves of a thread. -/
def play (config : Config) (now : Calendar.Moment) (id : Nat) (moves : List Move) :
    Option (Sanitizer × List UsedFrame) :=
  match Sanitizer.init config { threshold := config.logThreshold } .counter now {} with
  | .ok s _ => follow id s [] moves
  | .error _ _ => none

variable (failing) in
/-- A nested run can be found by playing it. -/
theorem of_play {config : Config} {now : Calendar.Moment} {moves : List Move}
    {check : Sanitizer × List UsedFrame → Bool} (h : (play config now id moves).any check = true) :
    ∃ past s uses, NestedRun failing True id past s uses ∧ check (s, uses) = true := by
  obtain ⟨r, hr, hcheck⟩ := (Option.any_eq_true _ _).mp h
  unfold play at hr
  cases hinit : Sanitizer.init config { threshold := config.logThreshold } .counter now {} with
  | ok s q =>
      rw [hinit] at hr
      obtain ⟨past, hnested⟩ := follow_moves (.start (.start hinit fun harmed => absurd rfl harmed)) hr
      exact ⟨past, r.1, r.2, hnested, hcheck⟩
  | error e q =>
      rw [hinit] at hr
      exact nomatch hr

end NestedRun

/-- A collection gives back and poisons exactly the claimed frames of all classes whose owners lie below an
    address, counts them, and would find no more if it went through every class.  So where functions nest, a
    frame in use can be given back; a fake one is no other frame in use, and is claimed for its owner, before and
    after any collection that a nested function can cause. -/
theorem collections_spare_uses (failing marked : Prop) :
    (∀ {calls v}, FakeStack.StackRun marked calls v → ∀ realStack,
      Ends (FakeStack.View.gc realStack) v
        (fun n w => FakeStack.View.Sheds (v.stack.deeper realStack) n n v w
          ∧ w.stack.collected = Word.wrapAdd v.stack.collected n)
        (fun _ _ => False)
      ∧ FakeStack.View.scan realStack v = FakeStack.View.gc realStack v)
    ∧ ∀ {id past s uses}, NestedRun failing marked id past s uses →
      (∀ u ∈ uses, Ends (u.back id).perform s (fun a _ => a = 0) (fun _ _ => False)
        ∧ (u.Fake → ∃ f slot, s.fakeStackOf? id = some f ∧ u.ptr = f.frameAddr u.classId slot
          ∧ f.owner? u.classId slot = some u.realStack
          ∧ ∀ realStack, (∀ w ∈ uses, realStack ≤ w.realStack) →
            Ends (FakeStack.View.gc realStack) ⟨f, s.heap.shadow⟩
              (fun _ v => v.stack.owner? u.classId slot = some u.realStack) (fun _ _ => False)))
      ∧ uses.Pairwise fun u w => u.Fake → w.Fake → u.ptr ≠ w.ptr := by
  refine ⟨fun hrun realStack => hrun.collects realStack, fun h => ⟨fun u hu => ⟨?_, fun hfake => ?_⟩, ?_⟩⟩
  · exact h.tracks.ends_back h.run.fit h.run.sound hu
  · obtain ⟨-, f, hf, slot, haddr, howner⟩ := h.tracks.served u hu hfake
    refine ⟨f, slot, hf, haddr, howner, fun realStack hnests => ?_⟩
    obtain ⟨o, ho, -, rfl⟩ := Sanitizer.of_fakeStackOf? hf
    have hv := Sanitizer.view_wf h.run.fit h.run.sound ho
    refine (FakeStack.View.ends_gc hv).imp (fun _ v hsheds => ?_) fun _ _ hno => hno
    refine (hsheds.owner?_eq_some hv).mpr ⟨howner, fun hswept => ?_⟩
    obtain ⟨-, -, -, owner, hlt, howner'⟩ := (FakeStack.View.mem_swept hv).mp hswept
    obtain rfl := Option.some.inj (howner.symm.trans howner')
    exact Nat.not_lt.mpr (hnests u hu) hlt
  · exact h.tracks.apart

/-- A collection of the deeper one of two frames; and a thread that has abandoned the second one of its frames
    when it asks for a third, whereupon the first one is left and the second one is collected. -/
theorem collections_spare_uses_abandoned :
    (∃ calls v w, FakeStack.StackRun True calls v ∧ FakeStack.View.gc 0x900 v = .ok 1 w
      ∧ FakeStack.View.Sheds (v.stack.deeper 0x900) 1 1 v w)
    ∧ ∃ past s u w f slot, NestedRun False True 0 past s [w, u]
      ∧ u = ⟨18691697676288, 0, 10, 0x9000⟩ ∧ w.realStack = 0x7000 ∧ s.metrics.fakeFramesCollected = 1
      ∧ Ends (u.back 0).perform s (fun a _ => a = 0) (fun _ _ => False)
      ∧ s.fakeStackOf? 0 = some f ∧ u.ptr = f.frameAddr 0 slot ∧ f.owner? 0 slot = some 0x9000
      ∧ Ends (FakeStack.View.gc 0x7000) ⟨f, s.heap.shadow⟩
        (fun _ v => v.stack.owner? 0 slot = some 0x9000) (fun _ _ => False) := by
  constructor
  · obtain ⟨calls, v, hrun, hcheck⟩ := FakeStack.StackRun.of_played True
      (show (FakeStack.StackRun.played 16 [.allocate 0 0x1000, .allocate 1 0x800, .noReturn]).any
        (fun r => (returned? (FakeStack.View.gc 0x900) r.2).any fun p => p.1 == 1) = true by decide +kernel)
    obtain ⟨⟨n, w⟩, hgc, hn⟩ := (Option.any_eq_true _ _).mp hcheck
    obtain rfl : n = 1 := beq_iff_eq.mp hn
    have hact := of_returned? hgc
    exact ⟨calls, v, w, hrun, hact,
      ((collections_spare_uses False True).1 hrun 0x900).1.of_ok hact |>.1⟩
  · obtain ⟨past, s, uses, hnested, hcheck⟩ := NestedRun.of_play False
      (show (NestedRun.play { fakeStackSizeLog := 16 } {} 0
        [.call .register, .call (.allocateFrame 0 0 10 0x9000), .call (.allocateFrame 0 1 100 0x5000),
          .call (.noReturn 0), .abandon 1, .call (.allocateFrame 0 2 200 0x7000)]).any
        (fun r => r.2 == [⟨18691697807360, 2, 200, 0x7000⟩, ⟨18691697676288, 0, 10, 0x9000⟩]
          && r.1.metrics.fakeFramesCollected == 1) = true by decide +kernel)
    simp only [Bool.and_eq_true, beq_iff_eq] at hcheck
    obtain ⟨rfl, hcollected⟩ := hcheck
    obtain ⟨hall, -⟩ := (collections_spare_uses False True).2 hnested
    obtain ⟨hback, hclaimed⟩ := hall ⟨18691697676288, 0, 10, 0x9000⟩ (by simp)
    obtain ⟨f, slot, hf, haddr, howner, hspared⟩ := hclaimed (show 18691697676288 ≠ 0x9000 by decide)
    refine ⟨past, s, _, _, f, slot, hnested, rfl, rfl, hcollected, hback, hf, haddr, howner, ?_⟩
    exact hspared 0x7000 (by decide)

end GuardedHeap
