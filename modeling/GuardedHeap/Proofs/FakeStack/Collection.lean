import GuardedHeap.Proofs.FakeStack.History

/-! # Collections — exactly the frames that lie too deep

    A collection looks at the classes that count as used, and there gives
    back the claimed frames of owners below an address.  As no claimed frame
    is in a class that does not count as used, these are all such frames
    (`StackRun.collects`), and going through every class would give back the
    same ones (`View.scan_eq`).

    So an allocation spares the frames of owners that do not lie below its
    own, and what it returns is none of these (`View.ends_allocate_serves`);
    giving a frame back spares the frames at other addresses
    (`View.ends_free_spares`). -/

namespace GuardedHeap

namespace FakeStack

open Act

/-- The claimed frames of all classes whose owners lie below `realStack`. -/
def deeper (f : FakeStack) (realStack : Nat) : Set (Nat × Nat) :=
  {p | ∃ c, f.classes[p.1]? = some c ∧ p.2 < c.frames ∧ c.claimed.get p.2 = true
    ∧ c.owner.get p.2 < realStack}

theorem mem_deeper {f : FakeStack} {realStack : Nat} {p : Nat × Nat} :
    p ∈ f.deeper realStack ↔ ∃ owner < realStack, f.owner? p.1 p.2 = some owner := by
  simp only [owner?_eq_some]
  constructor
  · rintro ⟨c, hc, hslot, hclaimed, hlt⟩
    exact ⟨_, hlt, c, hc, hslot, hclaimed, rfl⟩
  · rintro ⟨_, hlt, c, hc, hslot, hclaimed, rfl⟩
    exact ⟨c, hc, hslot, hclaimed, hlt⟩

namespace View

variable {v w : View} {realStack : Nat}

/-- Free the abandoned frames of some classes and count them, whether the classes count as used or not. -/
def scanClasses (realStack : Nat) : List Nat → Act FakeStackError View Nat
  | [] => pure 0
  | classId :: rest => do
    let c ← frameClass classId
    let freed ← freeSlots classId (abandoned c realStack)
    return freed + (← scanClasses realStack rest)

/-- Collect every claimed frame whose owner lies below `realStack`, in classes that count as used and in
    others. -/
def scan (realStack : Nat) : Act FakeStackError View Nat := do
  let count ← scanClasses realStack (List.range (← get).stack.classes.size)
  modify fun v =>
    { v with stack := { v.stack with collected := Word.wrapAdd v.stack.collected count } }
  return count

/-- As long as only used classes have claimed frames, nothing is missed in the other ones. -/
theorem scanClasses_eq {classIds : List Nat} (hv : v.WF)
    (hused : ∀ i s c, (v.stack.owner? i s).isSome = true → v.stack.classes[i]? = some c → c.used = true) :
    scanClasses realStack classIds v = collectClasses realStack classIds v := by
  induction classIds generalizing v with
  | nil => rfl
  | cons classId rest ih =>
      unfold scanClasses collectClasses
      refine bind_congr_ok rfl fun c w hact => ?_
      obtain ⟨_, _, hget, hact⟩ := bind_eq_ok.mp hact
      cases hget
      obtain ⟨hc, rfl⟩ := orRefuse_eq_ok.mp hact
      by_cases hclass : c.used = true
      · rw [if_pos hclass]
        refine bind_congr_ok rfl fun n w hfreed => ?_
        have hw := (ends_freeSlots (fun _ _ => True) hv hc ((RangeMap.nodup_indices ..).filter _)
          fun slot hslot => ((mem_abandoned hv hc).mp hslot).imp_right And.left).of_ok hfreed
        refine bind_congr_ok (ih hw.wf fun i s d hsome hd => ?_) fun _ _ _ => rfl
        obtain ⟨b, claimed, hb, rfl, -⟩ := hw.of_class hv hd
        obtain ⟨x, hx⟩ := Option.isSome_iff_exists.mp hsome
        exact hused i s b (Option.isSome_iff_exists.mpr ⟨x, ((hw.owner?_eq_some hv).mp hx).1⟩) hb
      · rw [if_neg hclass]
        have hnone : abandoned c realStack = [] := List.eq_nil_iff_forall_not_mem.mpr fun slot hslot => by
          obtain ⟨hlt, hclaimed, -⟩ := (mem_abandoned hv hc).mp hslot
          exact hclass (hused classId slot c ((isSome_owner? hc hlt).mpr hclaimed) hc)
        rw [hnone]
        refine bind_congr_ok rfl fun n w hfreed => ?_
        obtain ⟨-, rfl⟩ := pure_eq_ok.mp hfreed
        exact bind_congr_ok (ih hv hused) fun _ _ _ => rfl

theorem scan_eq (hv : v.WF)
    (hused : ∀ i s c, (v.stack.owner? i s).isSome = true → v.stack.classes[i]? = some c → c.used = true) :
    scan realStack v = gc realStack v := by
  unfold scan gc
  rw [get_bind, get_bind]
  exact bind_congr_ok (scanClasses_eq hv hused) fun _ _ _ => rfl

/-- The frames of a collection go onto the number of those collected before. -/
theorem collected_gc {n : Nat} (h : gc realStack v = .ok n w) :
    w.stack.collected = Word.wrapAdd v.stack.collected n := by
  obtain ⟨_, _, hget, h⟩ := bind_eq_ok.mp h
  cases hget
  obtain ⟨count, u, hcollect, h⟩ := bind_eq_ok.mp h
  obtain ⟨_, _, hmodify, h⟩ := bind_eq_ok.mp h
  obtain ⟨rfl, rfl⟩ := pure_eq_ok.mp h
  have hsame : u.stack.collected = v.stack.collected :=
    (fixes_collectClasses (g := (·.stack.collected)) (fun _ _ _ => rfl) _ _).of_ok hcollect
  rw [← modify_eq_ok.mp hmodify, ← hsame]

end View

/-- After any calls, a collection gives back and poisons exactly the claimed frames of all classes whose owners
    lie below an address, and counts them; going through the classes that were never used finds no more. -/
theorem StackRun.collects {marked : Prop} {past : History} {v : View} (hrun : StackRun marked past v) (realStack : Nat) :
    Ends (View.gc realStack) v
      (fun n w => View.Sheds (v.stack.deeper realStack) n n v w
        ∧ w.stack.collected = Word.wrapAdd v.stack.collected n)
      (fun _ _ => False)
    ∧ View.scan realStack v = View.gc realStack v := by
  have h := hrun.tells.held
  refine ⟨(View.ends_gc h.wf).imp_eq (fun n w hact hw => ⟨hw.of_eq (Set.ext fun p => ?_), ?_⟩)
    fun _ _ _ hno => hno, View.scan_eq h.wf h.used⟩
  · exact h.mem_swept.trans mem_deeper.symm
  · exact View.collected_gc hact

/-! ## Frames that are spared -/

/-- The frame of a class at an address is claimed for the function at `owner`. -/
def Serves (f : FakeStack) (classId addr owner : Nat) : Prop :=
  ∃ slot, addr = f.frameAddr classId slot ∧ f.owner? classId slot = some owner

/-- The frames with such addresses and owners are claimed for their owners still. -/
def Spares (which : Nat → Nat → Prop) (f g : FakeStack) : Prop :=
  ∀ classId addr owner, which addr owner → f.Serves classId addr owner → g.Serves classId addr owner

theorem Spares.trans {which : Nat → Nat → Prop} {f g h : FakeStack} (hfirst : Spares which f g)
    (hsecond : Spares which g h) : Spares which f h :=
  fun classId addr owner hwhich hserves =>
    hsecond classId addr owner hwhich (hfirst classId addr owner hwhich hserves)

namespace View

variable {v w : View} {classId slot realStack : Nat} {c : FrameClass} {which : Nat → Nat → Prop}

/-- Nobody has a free frame. -/
theorem not_serves_of_free (hv : v.WF) (hc : v.stack.classes[classId]? = some c) (hslot : slot < c.frames)
    (hfree : c.claimed.get slot = false) (i owner : Nat) :
    ¬ v.stack.Serves i (v.stack.frameAddr classId slot) owner := by
  rintro ⟨s, haddr, howner⟩
  obtain ⟨d, hd, hs, hclaimed, -⟩ := FakeStack.owner?_eq_some.mp howner
  obtain ⟨rfl, rfl⟩ := (frameAddr_inj hv.stack (lt_framesInClass.mpr ⟨d, hd, hs⟩)
    (lt_framesInClass.mpr ⟨c, hc, hslot⟩)).mp haddr.symm
  obtain rfl := Option.some.inj (hc.symm.trans hd)
  rw [hfree] at hclaimed
  exact nomatch hclaimed

theorem spares_missed (hc : v.stack.classes[classId]? = some c) :
    v.stack.Spares which (v.missed classId c).stack := by
  rintro i _ owner - ⟨s, rfl, howner⟩
  exact ⟨s, rfl, (owner?_missed hc i s).trans howner⟩

/-- A frame that is claimed was nobody's. -/
theorem spares_taken (hv : v.WF) (hc : v.stack.classes[classId]? = some c) (hslot : slot < c.frames)
    (hfree : c.claimed.get slot = false) :
    v.stack.Spares which (v.taken classId slot realStack c).stack := by
  rintro i _ owner - ⟨s, rfl, howner⟩
  refine ⟨s, rfl, (owner?_taken hv hc hslot realStack i s).trans ((if_neg ?_).trans howner)⟩
  rintro ⟨rfl, rfl⟩
  exact not_serves_of_free hv hc hslot hfree i owner ⟨s, rfl, howner⟩

theorem Sheds.spares {gone : Set (Nat × Nat)} {freed collected : Nat} (hv : v.WF)
    (h : Sheds gone freed collected v w)
    (hout : ∀ i s owner, v.stack.owner? i s = some owner → which (v.stack.frameAddr i s) owner →
      (i, s) ∉ gone) : v.stack.Spares which w.stack := by
  rintro i addr owner hwhich ⟨s, rfl, howner⟩
  refine ⟨s, (h.settles.changes.frameAddr i s).symm, (h.owner?_eq_some hv).mpr ⟨howner, ?_⟩⟩
  exact hout i s owner howner hwhich

/-- What an allocation collects and claims belongs to no owner that does not lie below. -/
theorem ends_allocate_serves (hv : v.WF) (classId realStack : Nat) : Ends (allocate classId realStack) v
    (fun addr w => w.stack.Serves classId addr realStack
      ∧ (∀ i owner, realStack ≤ owner → ¬ v.stack.Serves i addr owner)
      ∧ v.stack.Spares (fun _ owner => realStack ≤ owner) w.stack)
    fun _ w => v.stack.Spares (fun _ owner => realStack ≤ owner) w.stack := by
  refine ends_allocate_of hv (fun _ _ _ _ _ hserves => hserves) fun n u hu _ hclass => ?_
  have hspares : v.stack.Spares (fun _ owner => realStack ≤ owner) u.stack := by
    refine hu.spares hv fun i s owner howner hle hdue => ?_
    obtain ⟨-, -, -, owner', hlt, howner'⟩ := (mem_swept hv).mp hdue.2
    obtain rfl := Option.some.inj (howner.symm.trans howner')
    exact Nat.not_lt.mpr hle hlt
  have hc := Array.getElem?_eq_getElem (hu.wf.stack.size.symm ▸ hclass)
  refine ends_claimFree hu.wf hc (fun slot hslot hfree _ => ⟨⟨slot, rfl, ?_⟩, fun i owner hle hserves => ?_, ?_⟩)
    fun _ => hspares.trans (spares_missed hc)
  · exact (owner?_taken hu.wf hc hslot realStack classId slot).trans (if_pos ⟨rfl, rfl⟩)
  · exact not_serves_of_free hu.wf hc hslot hfree i owner (hspares i _ owner hle hserves)
  · exact hspares.trans (spares_taken hu.wf hc hslot hfree)

/-- Only a frame that nobody has cannot be given back. -/
theorem ends_free_spares (hv : v.WF) (addr classId : Nat) : Ends (free addr classId) v
    (fun _ w => v.stack.Spares (fun other _ => other ≠ addr) w.stack)
    fun _ w => w = v ∧ ∀ owner, ¬ v.stack.Serves classId addr owner := by
  refine ends_free_of hv addr (fun c slot hc hslot hclaimed haddr => ?_) fun e hout _ => ⟨rfl, ?_⟩
  · refine (sheds_freed hv hc hslot hclaimed).spares hv fun i s owner _ hne hgone => hne ?_
    obtain ⟨rfl, rfl⟩ := Prod.mk.inj (Set.mem_singleton_iff.mp hgone)
    exact haddr.symm
  · rintro owner ⟨s, rfl, howner⟩
    obtain ⟨c, hc, hslot, hclaimed, -⟩ := FakeStack.owner?_eq_some.mp howner
    exact hout ⟨c, s, hc, hslot, hclaimed, rfl⟩

end View

end FakeStack

end GuardedHeap
