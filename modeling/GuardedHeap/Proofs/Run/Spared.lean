import GuardedHeap.Proofs.FakeStack.Collection
import GuardedHeap.Proofs.Run.Frames
import GuardedHeap.Proofs.Run.Threads

/-! # Spared frames — what calls leave to a thread of its frames

    A thread loses frames by what it calls itself: an allocation may collect
    frames of owners below its own (`Client.spares_allocateFrame`), and
    giving a frame back takes just that one (`Client.spares_freeFrame`).
    Whatever other threads do, they register and unregister included, its
    frames are spared (`prolongs_register`, `spares_unregister`). -/

namespace GuardedHeap

open Act

namespace Sanitizer

variable {failing marked : Prop} {s t u : Sanitizer} {id : Nat} {which : Nat → Nat → Prop}

/-- The fake stack of a thread has a frame claimed for the function at `owner`. -/
def Serves (s : Sanitizer) (id classId addr owner : Nat) : Prop :=
  ∃ f, s.fakeStackOf? id = some f ∧ f.Serves classId addr owner

/-- The frames of a thread with such addresses and owners are claimed for their owners still. -/
def Spares (id : Nat) (which : Nat → Nat → Prop) (s t : Sanitizer) : Prop :=
  ∀ classId addr owner, which addr owner → s.Serves id classId addr owner → t.Serves id classId addr owner

theorem Spares.trans (h : s.Spares id which t) (h' : t.Spares id which u) : s.Spares id which u :=
  fun classId addr owner hwhich hserves =>
    h' classId addr owner hwhich (h classId addr owner hwhich hserves)

/-- A thread that has its fake stack still has its frames. -/
theorem spares_of_eq (h : t.fakeStackOf? id = s.fakeStackOf? id) : s.Spares id which t := by
  rintro classId addr owner - ⟨f, hf, hserves⟩
  exact ⟨f, h.trans hf, hserves⟩

theorem fakeStackOf?_of_eq (h : t.fakeStacks = s.fakeStacks) (id : Nat) :
    t.fakeStackOf? id = s.fakeStackOf? id := by
  unfold fakeStackOf?
  rw [h]

theorem Serves.of_eq {classId addr owner : Nat} (h : s.Serves id classId addr owner)
    (heq : t.fakeStacks = s.fakeStacks) : t.Serves id classId addr owner := by
  obtain ⟨f, hf, hserves⟩ := h
  exact ⟨f, (fakeStackOf?_of_eq heq id).trans hf, hserves⟩

/-! ## Calls on the fake stack of a thread -/

section SetFakeStack

variable {owner : Nat} {f g : FakeStack}

theorem fakeStackOf?_setFakeStack_of_ne (hne : owner ≠ id) :
    (Client.setFakeStack owner g s).fakeStackOf? id = s.fakeStackOf? id := by
  unfold fakeStackOf? Client.setFakeStack
  dsimp only
  rw [List.find?_map, Option.map_map]
  have hsame : ∀ o : OwnedStack, (if o.owner = owner then { o with stack := g } else o).owner = o.owner :=
    fun o => by split <;> rfl
  have hfind : ((fun o : OwnedStack => o.owner == id) ∘ fun o => if o.owner = owner then { o with stack := g }
      else o) = (·.owner == id) := funext fun o => congrArg (· == id) (hsame o)
  rw [hfind]
  refine Option.map_congr fun o ho => ?_
  have howner : o.owner = id := by simpa using List.find?_some ho
  rw [Function.comp_apply, if_neg fun heq => hne (heq.symm.trans howner)]

/-- What a fake stack serves, its thread is served. -/
theorem serves_setFakeStack (hf : s.fakeStackOf? owner = some f) {classId addr real : Nat}
    (h : g.Serves classId addr real) : (Client.setFakeStack owner g s).Serves owner classId addr real := by
  obtain ⟨o, ho, rfl, -⟩ := of_fakeStackOf? hf
  exact ⟨g, fakeStackOf?_setFakeStack ho g, h⟩

/-- What a fake stack spares, its thread is spared; and the other threads are spared everything. -/
theorem spares_setFakeStack (hf : s.fakeStackOf? owner = some f) {among : Nat → Nat → Prop}
    (h : f.Spares among g) (hamong : ∀ addr real, which addr real → owner = id → among addr real) :
    s.Spares id which (Client.setFakeStack owner g s) := by
  by_cases hid : owner = id
  · subst hid
    rintro classId addr real hwhich ⟨f', hf', hserves⟩
    obtain rfl := Option.some.inj (hf.symm.trans hf')
    exact serves_setFakeStack hf (h classId addr real (hamong addr real hwhich rfl) hserves)
  · exact spares_of_eq (fakeStackOf?_setFakeStack_of_ne hid)

end SetFakeStack

/-- The fake stack of one thread is given back, and those of others are not. -/
theorem fixes_releaseFakeStack_of_ne {owner : Nat} (hne : owner ≠ id) :
    Fixes (fun s => s.fakeStackOf? id) (releaseFakeStack owner) := by
  have hblind : Blind fun s => s.fakeStackOf? id := fun _ _ _ _ _ _ _ => rfl
  unfold releaseFakeStack
  refine fixes_get_bind fun s => ?_
  cases s.fakeStackOf? owner with
  | none => rfl
  | some f =>
      refine ((hblind.fixes_onHeap f.release).mapError _).trans ?_
      unfold fakeStackOf?
      rw [List.find?_filter]
      congr 2
      funext o
      by_cases ho : o.owner = id
      · simp [ho, Ne.symm hne]
      · simp [ho]

namespace Client

variable {c : Client} {hand : Multiset Quarantine.Entry}

/-- A frame that a thread is given was nobody's whose owner does not lie below, and the frames of these
    owners are spared. -/
theorem spares_allocateFrame (hfit : c.Fit failing)
    (hsound : Scene.Sound failing marked (c.scene hand)) (classId size realStack : Nat) :
    EndsOrStops (allocateFrame classId size realStack) c
      (fun p c' => (p ≠ realStack → checkFrame classId size = .ok ()
          ∧ c'.shared.Serves c.thread.id classId p realStack
          ∧ ∀ i owner, realStack ≤ owner → ¬ c.shared.Serves c.thread.id i p owner)
        ∧ ∀ id, c.shared.Spares id (fun _ owner => c.thread.id = id → realStack ≤ owner) c'.shared)
      fun _ c' => ∀ id, c.shared.Spares id (fun _ owner => c.thread.id = id → realStack ≤ owner) c'.shared := by
  -- Counting and logging leave the fake stack as the call on it has.
  have hspared : ∀ {f : FakeStack} {w : FakeStack.View} {z : ZMod Word.limit} {t : Sanitizer},
      c.shared.fakeStackOf? c.thread.id = some f → f.Spares (fun _ owner => realStack ≤ owner) w.stack →
      Shifts z (setFakeStack c.thread.id w.stack
        { c.shared with heap := { c.shared.heap with shadow := w.shadow } }) t →
      ∀ id, c.shared.Spares id (fun _ owner => c.thread.id = id → realStack ≤ owner) t :=
    fun hf hspares hshift id => (spares_setFakeStack hf hspares fun _ _ hwhich => hwhich).trans
      (spares_of_eq (fakeStackOf?_of_eq hshift.like.fakeStacks id))
  refine endsOrStops_allocateFrame_of hfit hsound (fun _ _ => spares_of_eq rfl)
    (fun t ht => ⟨fun hne => absurd rfl hne, fun id => spares_of_eq (fakeStackOf?_of_eq ht.like.fakeStacks id)⟩)
    fun hcheck f v hf hv heq => ?_
  subst heq
  refine ((FakeStack.View.ends_allocate hv realStack).and_endsOrStops
    (FakeStack.View.ends_allocate_serves hv classId realStack).orStops).imp ?_ ?_
  · rintro p w ⟨⟨n, hsettles⟩, hserves, hfresh, hspares⟩
    have hreached := (reframes_of_settles hfit hsound hf hsettles).reaches
    refine (ends_settleFrame hreached.fit _ _ _ _ _ _).imp ?_ fun _ t hshift => hspared hf hspares hshift
    rintro a t ⟨hshift, hanswer⟩
    refine ⟨fun hne => ?_, hspared hf hspares hshift⟩
    obtain rfl := Except.ok.inj (hanswer.resolve_right hne)
    refine ⟨hcheck, (serves_setFakeStack hf hserves).of_eq hshift.like.fakeStacks, ?_⟩
    rintro i owner hle ⟨f', hf', hserves'⟩
    obtain rfl := Option.some.inj (hf.symm.trans hf')
    exact hfresh i owner hle hserves'
  · rintro e w ⟨⟨-, n, hsettles⟩, hspares⟩
    have hreached := (reframes_of_settles hfit hsound hf hsettles).reaches
    refine (ends_settleFrame hreached.fit _ _ _ _ _ _).imp ?_ fun _ t hshift => hspared hf hspares hshift
    rintro a t ⟨hshift, hanswer⟩
    exact ⟨fun hne => absurd (hanswer.resolve_right hne) nofun, hspared hf hspares hshift⟩

/-- Only the frame that is given back goes, and only one that is not there cannot be given back. -/
theorem spares_freeFrame (hfit : c.Fit failing)
    (hsound : Scene.Sound failing marked (c.scene hand)) (p classId size realStack : Nat) :
    Ends (freeFrame p classId size realStack) c
      (fun _ c' => ∀ id, c.shared.Spares id (fun addr _ => c.thread.id = id → p ≠ realStack → addr ≠ p)
        c'.shared)
      fun _ c' => (∀ id, c.shared.Spares id (fun _ _ => True) c'.shared) ∧ p ≠ realStack
        ∧ (checkFrame classId size = .ok () → ∀ owner, ¬ c.shared.Serves c.thread.id classId p owner) := by
  refine ends_freeFrame_of hfit hsound (fun _ _ => spares_of_eq rfl)
    (fun e hne he => ⟨fun _ => spares_of_eq rfl, hne, fun hok => nomatch he.symm.trans hok⟩)
    (fun hne hnone => ⟨fun _ => spares_of_eq rfl, hne, ?_⟩) fun hne f v hf hv heq => ?_
  · rintro - owner ⟨f, hf, -⟩
    exact nomatch hnone.symm.trans hf
  · subst heq
    refine (FakeStack.View.ends_free_spares hv p classId).imp ?_ ?_
    · intro _ w hspares t hshift id
      exact (spares_setFakeStack hf hspares fun _ _ hwhich hid => hwhich hid hne).trans
        (spares_of_eq (fakeStackOf?_of_eq hshift.like.fakeStacks id))
    · rintro e w ⟨rfl, hnot⟩
      refine ⟨fun _ => spares_setFakeStack hf (fun _ _ _ _ hserves => hserves) fun _ _ hwhich _ => hwhich,
        hne, ?_⟩
      rintro - owner ⟨f', hf', hserves⟩
      obtain rfl := Option.some.inj (hf.symm.trans hf')
      exact hnot owner hserves

/-- Leaving frames behind takes none. -/
theorem spares_noReturn {ε : Type} {no : ε → Client → Prop} : Ends (noReturn : Act ε Client Unit) c
    (fun _ c' => ∀ id, c.shared.Spares id which c'.shared) no := by
  unfold noReturn
  rw [ends_bind, ends_get, ends_onShared]
  refine ends_modify.mpr fun id => ?_
  cases hf : c.shared.fakeStackOf? c.thread.id with
  | none => exact spares_of_eq rfl
  | some f =>
      have hspares : f.Spares which f.noReturn := fun _ _ _ _ hserves => hserves
      exact spares_setFakeStack hf hspares fun _ _ hwhich _ => hwhich

/-! ## Other threads -/

/-- What a thread hands back when it ends are not the frames of others. -/
theorem leaves_handBack (hne : c.thread.id ≠ id) :
    Leaves (fun c' => (c'.thread.id, c'.shared.fakeStackOf? id) = (c.thread.id, c.shared.fakeStackOf? id))
      handBack c := by
  have hblind : BlindToQuarantine fun c => (c.thread.id, c.shared.fakeStackOf? id) :=
    { shared := fun _ _ _ _ _ _ _ _ => rfl
      cache := fun _ _ => rfl
      held := fun _ _ => rfl }
  unfold handBack
  refine Leaves.bind (hblind.fixes_drainBatch.mapError.leaves c) fun _ c₁ _ h₁ => ?_
  refine Leaves.bind ((hblind.fixes_recycle _).mapError.leaves_eq h₁) fun _ c₂ _ h₂ => ?_
  refine Leaves.bind ((hblind.fixes_onSession _).mapError.leaves_eq h₂) fun _ c₃ _ h₃ => ?_
  refine leaves_get_bind ?_
  have hother : c₃.thread.id ≠ id := (Prod.mk.inj h₃).1 ▸ hne
  have hrelease : Fixes (fun c => (c.thread.id, c.shared.fakeStackOf? id))
      (onShared (releaseFakeStack c₃.thread.id)) := fixes_onShared fun c =>
    Fixes.comp (g := fun f => (c.thread.id, f)) (fixes_releaseFakeStack_of_ne hother)
  refine Leaves.bind (hrelease.leaves_eq h₃) fun _ c₄ _ h₄ => ?_
  exact (fixes_onShared fun c => (hblind.shared c).fixes_emit _ _ _).leaves_eq h₄

end Client

/-- A thread that ends takes the frames of no other thread with it. -/
theorem spares_unregister {i : Nat} (hne : i ≠ id) : Leaves (s.Spares id which) (unregister i) s := by
  refine leaves_unregister (fun _ => spares_of_eq rfl) fun u hu => ?_
  have hid : u.id = i := (Client.of_thread? hu).2
  exact (Client.leaves_handBack (hid ▸ hne)).imp fun c' hc' => spares_of_eq (Prod.mk.inj hc').2

/-- The fake stacks and the threads of a sanitizer are those of an earlier one, with others behind them. -/
def Prolongs (s t : Sanitizer) : Prop :=
  s.fakeStacks <+: t.fakeStacks ∧ s.ids <+: t.ids

theorem Prolongs.leaves {ε α : Type} {act : Act ε Sanitizer α} (h : s.Prolongs t)
    (hfixes : Fixes (fun s => (s.fakeStacks, s.ids)) act) : Leaves (s.Prolongs ·) act t := by
  refine (hfixes.leaves t).imp fun u hu => ?_
  obtain ⟨hstacks, hids⟩ := Prod.mk.inj hu
  exact ⟨hstacks ▸ h.1, hids ▸ h.2⟩

/-- A thread that is added comes behind the others, and so does its fake stack. -/
theorem prolongs_register : Leaves (s.Prolongs ·) register s := by
  have hblind : Blind fun s => (s.fakeStacks, s.ids) := fun _ _ _ _ _ _ _ => rfl
  have hused : s.Prolongs { s with registrations := s.registrations + 1 } :=
    ⟨List.prefix_rfl, List.prefix_rfl⟩
  refine leaves_register_of hused ?_ fun stack r hr => ?_
  · unfold createFakeStack
    refine leaves_get_bind (Leaves.bind (hused.leaves (hblind.fixes_onHeap _).mapError) fun f u _ hu => ?_)
    exact Leaves.bind (leaves_modify ⟨hu.1.trans (List.prefix_append _ _), hu.2⟩) fun _ _ _ hdone => hdone
  · unfold enlist
    refine Leaves.bind (hr.leaves (hblind.fixes_emit _ _ _)) fun _ u _ hu => ?_
    refine Leaves.bind (leaves_modify ⟨hu.1, ?_⟩) fun _ _ _ hdone => hdone
    unfold ids
    rw [List.map_append]
    exact hu.2.trans (List.prefix_append _ _)

theorem Prolongs.spares (h : s.Prolongs t) : s.Spares id which t := by
  rintro classId addr owner - ⟨f, hf, hserves⟩
  obtain ⟨more, hmore⟩ := h.1
  obtain ⟨o, ho, rfl⟩ := Option.map_eq_some_iff.mp hf
  refine ⟨o.stack, ?_, hserves⟩
  unfold fakeStackOf?
  rw [← hmore, List.find?_append, ho]
  rfl

end Sanitizer

end GuardedHeap
