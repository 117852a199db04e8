import GuardedHeap.Proofs.FakeStack
import Mathlib.Data.Set.Card

/-! # Calls on a fake stack — what they do to each frame

    Whatever a call does, some bytes of the block are given back and some
    are taken, in the claims and in the shadow alike (`View.Goes`), and how
    many frames were claimed, given back and collected is told by the call
    (`View.Settles`).

    Giving frames back is told frame by frame (`View.Sheds`): which of them
    are not claimed any more, that these are poisoned, and that nothing else
    of the fake stack or its shadow has changed.  A collection sheds the
    frames of the used classes whose owners lie too deep (`View.ends_gc`);
    an allocation does so first if it is due, and then claims the frame that
    its search finds (`View.ends_allocate_of`, `View.ends_claimFree_of`). -/

namespace GuardedHeap

namespace FakeStack

variable {f : FakeStack} {classId slot a : Nat} {c : FrameClass}

/-! ## Owners -/

/-- Who has claimed a frame: the real stack address of its owner. -/
def owner? (f : FakeStack) (classId slot : Nat) : Option Nat :=
  f.classes[classId]?.bind fun c =>
    if slot < c.frames ∧ c.claimed.get slot = true then some (c.owner.get slot) else none

/-- A frame has an owner while it is claimed. -/
theorem owner?_eq (hc : f.classes[classId]? = some c) :
    f.owner? classId slot =
      if slot < c.frames ∧ c.claimed.get slot = true then some (c.owner.get slot) else none := by
  unfold owner?
  rw [hc]
  rfl

/-- The owner of a claimed frame is the one that is noted. -/
theorem owner?_eq_some {owner : Nat} : f.owner? classId slot = some owner ↔
    ∃ c, f.classes[classId]? = some c ∧ slot < c.frames ∧ c.claimed.get slot = true
      ∧ c.owner.get slot = owner := by
  cases hc : f.classes[classId]? with
  | none =>
      unfold owner?
      rw [hc]
      exact ⟨nofun, nofun⟩
  | some c =>
      rw [owner?_eq hc]
      constructor
      · intro h
        by_cases hclaimed : slot < c.frames ∧ c.claimed.get slot = true
        · rw [if_pos hclaimed] at h
          exact ⟨c, rfl, hclaimed.1, hclaimed.2, Option.some.inj h⟩
        · rw [if_neg hclaimed] at h
          exact nomatch h
      · rintro ⟨d, hd, hslot, hclaimed, rfl⟩
        obtain rfl := Option.some.inj hd
        exact if_pos ⟨hslot, hclaimed⟩

/-- A frame has an owner as long as it is claimed. -/
theorem isSome_owner? (hc : f.classes[classId]? = some c) (hslot : slot < c.frames) :
    (f.owner? classId slot).isSome = true ↔ c.claimed.get slot = true := by
  rw [owner?_eq hc]
  by_cases hclaimed : c.claimed.get slot = true
  · rw [if_pos ⟨hslot, hclaimed⟩]
    exact iff_of_true rfl hclaimed
  · rw [if_neg fun h => hclaimed h.2]
    exact iff_of_false nofun hclaimed

/-- The frames of other classes keep their owners. -/
theorem owner?_setClass_of_ne {c' : FrameClass} {i : Nat} (hc : f.classes[classId]? = some c)
    (hne : i ≠ classId) : (f.setClass classId c').owner? i slot = f.owner? i slot := by
  unfold owner?
  rw [getElem?_setClass hc, if_neg hne]

/-- The frames that a collection gives back: those of used classes that are claimed by owners below
    `realStack`. -/
def swept (f : FakeStack) (realStack : Nat) : Set (Nat × Nat) :=
  {p | ∃ c, f.classes[p.1]? = some c ∧ c.used = true ∧ p.2 ∈ View.abandoned c realStack}

/-! ## Views -/

namespace View

/-- A fake stack in the range of its shadow. -/
structure WF (v : View) : Prop where
  stack : v.stack.WF
  begin_dvd : Shadow.granule ∣ v.stack.begin
  begin_le : v.shadow.appBegin ≤ v.stack.begin
  past_le : v.stack.past ≤ v.shadow.appEnd
  end_le : v.shadow.appEnd ≤ Word.limit

/-- Some bytes of the fake stack are given back and others are taken. -/
structure Goes (v : View) (freed taken : Set Nat) (w : View) : Prop where
  wf : w.WF
  begin_eq : w.stack.begin = v.stack.begin
  sizeLog_eq : w.stack.sizeLog = v.stack.sizeLog
  range : Shadow.SameRange v.shadow w.shadow
  freed_subset : freed ⊆ v.stack.range
  taken_subset : taken ⊆ v.stack.range
  claims : w.stack.claims = v.stack.claims \ freed ∪ taken
  addressable : ∀ a, a < Word.limit →
    (w.shadow.Addressable a ↔ v.shadow.Addressable a ∧ a ∉ freed ∨ a ∈ taken)
  outside : ∀ a, a < Word.limit → a ∉ v.stack.range → w.shadow.code a = v.shadow.code a

namespace Goes

variable {v w u : View} {freed taken freed' taken' : Set Nat}

theorem range_eq (h : Goes v freed taken w) : w.stack.range = v.stack.range := by
  unfold FakeStack.range past
  rw [h.begin_eq, h.sizeLog_eq]

/-- A change of nothing that can be seen. -/
theorem of_stack (hv : v.WF) {f : FakeStack} (hf : f.WF) (hbegin : f.begin = v.stack.begin)
    (hlog : f.sizeLog = v.stack.sizeLog) (hclaims : f.claims = v.stack.claims) :
    Goes v ∅ ∅ { v with stack := f } where
  wf :=
    { hv with
      stack := hf
      begin_dvd := hbegin ▸ hv.begin_dvd
      begin_le := hbegin ▸ hv.begin_le
      past_le := by
        unfold past
        rw [hbegin, hlog]
        exact hv.past_le }
  begin_eq := hbegin
  sizeLog_eq := hlog
  range := ⟨rfl, rfl, rfl⟩
  freed_subset := Set.empty_subset _
  taken_subset := Set.empty_subset _
  claims := by rw [hclaims, Set.sdiff_empty, Set.union_empty]
  addressable a _ := by simp
  outside _ _ _ := rfl

/-- What happens one after the other adds up. -/
theorem trans (h : Goes v freed taken w) (h' : Goes w freed' taken' u) :
    Goes v (freed ∪ freed') (taken \ freed' ∪ taken') u where
  wf := h'.wf
  begin_eq := h'.begin_eq.trans h.begin_eq
  sizeLog_eq := h'.sizeLog_eq.trans h.sizeLog_eq
  range := h.range.trans h'.range
  freed_subset := Set.union_subset h.freed_subset (h.range_eq ▸ h'.freed_subset)
  taken_subset :=
    Set.union_subset (Set.sdiff_subset.trans h.taken_subset) (h.range_eq ▸ h'.taken_subset)
  claims := by
    rw [h'.claims, h.claims]
    ext a
    simp only [Set.mem_union, Set.mem_sdiff]
    by_cases hfreed' : a ∈ freed' <;> simp [hfreed', or_assoc]
  addressable a ha := by
    rw [h'.addressable a ha, h.addressable a ha]
    simp only [Set.mem_union, Set.mem_sdiff]
    by_cases hfreed' : a ∈ freed' <;> simp [hfreed', or_assoc]
  outside a ha hout :=
    (h'.outside a ha (h.range_eq ▸ hout)).trans (h.outside a ha hout)

end Goes

variable {v : View} {classId slot : Nat} {c : FrameClass}

/-- One frame changes hands: its claim and its marks do, and no others. -/
theorem goes_slot (c' : FrameClass) (flag : Bool) (hv : v.WF) {value : UInt8}
    (hc : v.stack.classes[classId]? = some c) (hslot : slot < c.frames)
    (hframes : c'.frames = c.frames) (hclaimed : c'.claimed = c.claimed.set slot flag)
    (hvalue : if flag then value = 0 else Shadow.addressableBytes value = 0) :
    Goes v (v.stack.frame classId slot) {a | flag = true ∧ a ∈ v.stack.frame classId slot}
      { stack := v.stack.setClass classId c'
        shadow := v.shadow.poisoned (v.stack.frameAddr classId slot) (frameSize classId) value } := by
  obtain ⟨haddr, hsize⟩ := granule_dvd_frame classId slot hv.begin_dvd hv.stack
  have hsub := frame_subset hv.stack hc hslot
  have hrange := Shadow.poisoned_sameRange v.shadow (v.stack.frameAddr classId slot)
    (frameSize classId) value
  constructor
  case wf =>
    exact
      { stack := hv.stack.setClass hc hframes
        begin_dvd := hv.begin_dvd
        begin_le := hrange.appBegin ▸ hv.begin_le
        past_le := hrange.appEnd ▸ hv.past_le
        end_le := hrange.appEnd ▸ hv.end_le }
  case begin_eq => rfl
  case sizeLog_eq => rfl
  case range => exact hrange
  case freed_subset => exact hsub
  case taken_subset => exact fun a ha => hsub ha.2
  case claims => exact claims_setClass hv.stack hc hslot hframes hclaimed
  -- A frame is whole granules, so its marks say that all of it is addressable or none.
  case addressable =>
    intro a ha
    cases flag with
    | false =>
        rw [Shadow.addressable_poisoned _ haddr hsize hvalue ha]
        exact (or_iff_left fun h => nomatch h.1).symm
    | true =>
        obtain rfl : value = 0 := hvalue
        rw [Shadow.addressable_unpoisoned _ haddr ha,
          Word.roundUp_of_dvd (by decide) (Nat.dvd_add haddr hsize), or_comm]
        exact or_congr Iff.rfl (and_iff_right rfl).symm
  case outside =>
    intro a ha hout
    refine Shadow.code_poisoned_of_outside haddr ha fun hin => hout (hsub ?_)
    rwa [Word.roundUp_of_dvd (by decide) (Nat.dvd_add haddr hsize)] at hin

/-! ## Calls -/

/-- Some bytes of the fake stack have changed hands. -/
def Changes (v w : View) : Prop :=
  ∃ freed taken, Goes v freed taken w

/-- A view that changes twice changes. -/
theorem Changes.trans {w u : View} (h : Changes v w) (h' : Changes w u) : Changes v u := by
  obtain ⟨freed, taken, h⟩ := h
  obtain ⟨freed', taken', h'⟩ := h'
  exact ⟨_, _, h.trans h'⟩

/-- Whatever changes a view leaves it well-formed. -/
theorem Changes.wf {w : View} (h : Changes v w) : w.WF := by
  obtain ⟨_, _, h⟩ := h
  exact h.wf

/-- Whatever changed, every frame is where it was. -/
theorem Changes.frame {w : View} (h : Changes v w) (i s : Nat) : w.stack.frame i s = v.stack.frame i s := by
  obtain ⟨_, _, h⟩ := h
  unfold FakeStack.frame frameAddr classBegin
  rw [h.begin_eq, h.sizeLog_eq]

/-- Frames stay where they are. -/
theorem Changes.frameAddr {w : View} (h : Changes v w) (i s : Nat) :
    w.stack.frameAddr i s = v.stack.frameAddr i s := by
  obtain ⟨_, _, h⟩ := h
  unfold FakeStack.frameAddr classBegin
  rw [h.begin_eq, h.sizeLog_eq]

theorem Changes.classBegin {w : View} (h : Changes v w) (i : Nat) :
    w.stack.classBegin i = v.stack.classBegin i := by
  obtain ⟨_, _, h⟩ := h
  unfold FakeStack.classBegin
  rw [h.begin_eq, h.sizeLog_eq]

/-- So many frames were claimed and so many given back, and so many more count as collected, as long
    as their number is a word. -/
structure Settles (claimed freed collected : Nat) (v w : View) : Prop where
  changes : Changes v w
  count : w.stack.claimedCount + freed = v.stack.claimedCount + claimed
  total : v.stack.collected + collected < Word.limit →
    w.stack.collected = v.stack.collected + collected
  collected : (w.stack.collected : ZMod Word.limit) = v.stack.collected + collected

namespace Settles

variable {w u : View} {claimed freed collected claimed' freed' collected' : Nat}

theorem wf (h : Settles claimed freed collected v w) : w.WF :=
  h.changes.wf

/-- A change of nothing that can be seen. -/
theorem of_stack (hv : v.WF) {f : FakeStack} (hf : f.WF) (hbegin : f.begin = v.stack.begin)
    (hlog : f.sizeLog = v.stack.sizeLog) (hclaims : f.claims = v.stack.claims)
    (hcount : f.claimedCount = v.stack.claimedCount) (hcollected : f.collected = v.stack.collected) :
    Settles 0 0 0 v { v with stack := f } where
  changes := ⟨∅, ∅, .of_stack hv hf hbegin hlog hclaims⟩
  count := congrArg (· + 0) hcount
  collected := by
    show (f.collected : ZMod Word.limit) = _
    rw [hcollected, Nat.cast_zero, add_zero]
  total := fun _ => hcollected

theorem refl (hv : v.WF) : Settles 0 0 0 v v :=
  of_stack hv hv.stack rfl rfl rfl rfl rfl

/-- Counts of calls one after the other add up. -/
theorem trans (h : Settles claimed freed collected v w) (h' : Settles claimed' freed' collected' w u) :
    Settles (claimed + claimed') (freed + freed') (collected + collected') v u where
  changes := h.changes.trans h'.changes
  count := by
    have hfirst := h.count
    have hsecond := h'.count
    omega
  collected := by rw [h'.collected, h.collected, Nat.cast_add, add_assoc]
  total := fun hlt => by
    have hfirst := h.total (by omega)
    have hsecond := h'.total (by omega)
    omega

end Settles

section Calls

variable {ok : Unit → View → Prop} {no : FakeStackError → View → Prop}

/-- A mark of a frame is made. -/
theorem ends_markFrame (hv : v.WF) (hc : v.stack.classes[classId]? = some c) (hslot : slot < c.frames)
    {value : UInt8}
    (hok : ok () { v with
      shadow := v.shadow.poisoned (v.stack.frameAddr classId slot) (frameSize classId) value }) :
    Act.Ends (markFrame (v.stack.frameAddr classId slot) classId value) v ok no := by
  unfold markFrame
  rw [Act.ends_mapError, Act.ends_onPart]
  obtain ⟨hlo, hhi⟩ := frame_bounds hv.stack hc hslot
  obtain ⟨hlo', hhi'⟩ := class_bounds (f := v.stack) (lt_classCount hv.stack hc)
  have hbegin := hv.begin_le
  have hpast := hv.past_le
  exact Shadow.ends_poison (granule_dvd_frame _ _ hv.begin_dvd hv.stack).1 ⟨by omega, by omega⟩ hok

/-- A class that is there is found. -/
theorem ends_frameClass (hc : v.stack.classes[classId]? = some c) {ok : FrameClass → View → Prop}
    (hok : ok c v) : Act.Ends (frameClass classId) v ok no := by
  unfold frameClass
  rw [Act.ends_bind, Act.ends_get, hc, Act.ends_orRefuse_some]
  exact hok

end Calls

/-! ## One frame -/

/-- The view with a frame given back. -/
def freed (v : View) (classId slot : Nat) (c : FrameClass) : View where
  stack := v.stack.setClass classId { c with claimed := c.claimed.set slot false }
  shadow := v.shadow.poisoned (v.stack.frameAddr classId slot) (frameSize classId)
    Shadow.Magic.stackAfterReturn.byte

/-- The view with a frame claimed for the function at `realStack`. -/
def taken (v : View) (classId slot realStack : Nat) (c : FrameClass) : View where
  stack := v.stack.setClass classId
    { c with
      claimed := c.claimed.set slot true
      owner := c.owner.set slot realStack
      hint := slot + 1
      used := true }
  shadow := v.shadow.poisoned (v.stack.frameAddr classId slot) (frameSize classId) 0

/-- The bytes of frames are words. -/
theorem WF.lt_limit (hv : v.WF) (hc : v.stack.classes[classId]? = some c) (hslot : slot < c.frames) {a : Nat}
    (ha : a ∈ v.stack.frame classId slot) : a < Word.limit :=
  Nat.lt_of_lt_of_le (frame_subset hv.stack hc hslot ha).2 (Nat.le_trans hv.past_le hv.end_le)

/-- Marking a frame marks each of its bytes. -/
theorem code_frame (hv : v.WF) (hc : v.stack.classes[classId]? = some c) (hslot : slot < c.frames)
    {value : UInt8} {a : Nat} (ha : a ∈ v.stack.frame classId slot) :
    (v.shadow.poisoned (v.stack.frameAddr classId slot) (frameSize classId) value).code a = value := by
  obtain ⟨haddr, hsize⟩ := granule_dvd_frame classId slot hv.begin_dvd hv.stack
  exact Shadow.code_poisoned haddr hsize (hv.lt_limit hc hslot ha) ha

/-- Marking a frame marks no byte beside it. -/
theorem code_beside (hv : v.WF) {value : UInt8} {a : Nat} (ha : a < Word.limit)
    (hout : a ∉ v.stack.frame classId slot) :
    (v.shadow.poisoned (v.stack.frameAddr classId slot) (frameSize classId) value).code a
      = v.shadow.code a := by
  obtain ⟨haddr, hsize⟩ := granule_dvd_frame classId slot hv.begin_dvd hv.stack
  refine Shadow.code_poisoned_of_outside haddr ha fun hin => hout ?_
  rwa [Word.roundUp_of_dvd (by decide) (Nat.dvd_add haddr hsize)] at hin

/-- A frame that is freed counts as one. -/
theorem settles_freed (hv : v.WF) (hc : v.stack.classes[classId]? = some c) (hslot : slot < c.frames)
    (hclaimed : c.claimed.get slot = true) : Settles 0 1 0 v (v.freed classId slot c) where
  changes := ⟨_, _, goes_slot { c with claimed := c.claimed.set slot false } false hv hc hslot rfl rfl
    (Shadow.addressableBytes_magic .stackAfterReturn)⟩
  count := claimedCount_free hv.stack hc hslot hclaimed rfl rfl
  total := fun _ => rfl
  collected := by
    show (v.stack.collected : ZMod Word.limit) = _
    rw [Nat.cast_zero, add_zero]

/-- A frame that is claimed counts as one. -/
theorem settles_taken (hv : v.WF) (hc : v.stack.classes[classId]? = some c) (hslot : slot < c.frames)
    (hfree : c.claimed.get slot = false) (realStack : Nat) :
    Settles 1 0 0 v (v.taken classId slot realStack c) where
  changes := by
    refine ⟨_, _, goes_slot { c with
      claimed := c.claimed.set slot true
      owner := c.owner.set slot realStack
      hint := slot + 1
      used := true } true hv hc hslot rfl rfl rfl⟩
  count := claimedCount_claim hv.stack hc hslot hfree rfl rfl
  total := fun _ => rfl
  collected := by
    show (v.stack.collected : ZMod Word.limit) = _
    rw [Nat.cast_zero, add_zero]

/-- A claimed frame has its new owner, and the others have theirs. -/
theorem owner?_taken (hv : v.WF) (hc : v.stack.classes[classId]? = some c) (hslot : slot < c.frames)
    (realStack i s : Nat) : (v.taken classId slot realStack c).stack.owner? i s =
      if i = classId ∧ s = slot then some realStack else v.stack.owner? i s := by
  have hspan := frames_lt_span hv.stack hc
  by_cases hi : i = classId
  · subst hi
    have hget : (v.taken i slot realStack c).stack.classes[i]? = some _ :=
      (getElem?_setClass hc).trans (if_pos rfl)
    rw [owner?_eq hget, owner?_eq hc]
    dsimp only
    by_cases heq : s = slot
    · subst heq
      have hlt := Nat.lt_trans hslot hspan
      rw [RangeMap.get_set _ _ _ _ hlt, RangeMap.get_set _ _ _ _ hlt, if_pos rfl, if_pos rfl,
        if_pos ⟨hslot, rfl⟩, if_pos ⟨rfl, rfl⟩]
    · rw [if_neg (c := i = i ∧ s = slot) fun h => heq h.2]
      refine if_ctx_congr ?_ (fun h => ?_) fun _ => rfl
      · refine and_congr_right fun hs => ?_
        rw [RangeMap.get_set _ _ _ _ (Nat.lt_trans hs hspan), if_neg heq]
      · rw [RangeMap.get_set _ _ _ _ (Nat.lt_trans h.1 hspan), if_neg heq]
  · rw [if_neg fun h => hi h.1]
    exact owner?_setClass_of_ne hc hi

/-! ## Giving frames back -/

/-- The frames in `gone` are given back and poisoned.  They are `freed` many, by `collected` more count as
    collected, and nothing else of the classes and of the shadow has changed. -/
structure Sheds (gone : Set (Nat × Nat)) (freed collected : Nat) (v w : View) : Prop where
  settles : Settles 0 freed collected v w
  finite : gone.Finite
  ncard : gone.ncard = freed
  claimed : ∀ p ∈ gone, (v.stack.owner? p.1 p.2).isSome = true
  classes : ∀ i c, v.stack.classes[i]? = some c → ∃ claimed,
    w.stack.classes[i]? = some { c with claimed }
      ∧ ∀ slot < c.frames, claimed.get slot = true ↔ c.claimed.get slot = true ∧ (i, slot) ∉ gone
  poisoned : ∀ p ∈ gone, ∀ a ∈ v.stack.frame p.1 p.2,
    w.shadow.code a = Shadow.Magic.stackAfterReturn.byte
  kept : ∀ a < Word.limit, (∀ p ∈ gone, a ∉ v.stack.frame p.1 p.2) → w.shadow.code a = v.shadow.code a

namespace Sheds

variable {w u : View} {gone gone' : Set (Nat × Nat)} {freed collected freed' collected' : Nat}

theorem of_eq (h : Sheds gone freed collected v w) (heq : gone = gone') : Sheds gone' freed collected v w :=
  heq ▸ h

/-- A change of what is known beside the classes. -/
theorem of_classes (hv : v.WF) {f : FakeStack} (hclasses : f.classes = v.stack.classes)
    (hbegin : f.begin = v.stack.begin) (hlog : f.sizeLog = v.stack.sizeLog)
    (hcollected : f.collected = v.stack.collected) : Sheds ∅ 0 0 v { v with stack := f } where
  settles := by
    obtain ⟨begin, log, classes, armed, collected⟩ := f
    obtain rfl := hclasses
    obtain rfl := hbegin
    obtain rfl := hlog
    exact .of_stack hv { hv.stack with } rfl rfl rfl rfl hcollected
  finite := Set.finite_empty
  ncard := Set.ncard_empty _
  claimed _ hp := hp.elim
  classes i c hc := ⟨c.claimed, hclasses ▸ hc, fun _ _ => (and_iff_left (Set.notMem_empty _)).symm⟩
  poisoned _ hp := hp.elim
  kept _ _ _ := rfl

/-- A view that stays sheds nothing. -/
theorem refl (hv : v.WF) : Sheds ∅ 0 0 v v :=
  of_classes hv rfl rfl rfl rfl

theorem wf (h : Sheds gone freed collected v w) : w.WF :=
  h.settles.wf

/-- A class has changed in which of its frames are claimed. -/
theorem of_class (hv : v.WF) (h : Sheds gone freed collected v w) {i : Nat} {d : FrameClass}
    (hd : w.stack.classes[i]? = some d) : ∃ c claimed, v.stack.classes[i]? = some c
      ∧ d = { c with claimed }
      ∧ ∀ slot < c.frames, claimed.get slot = true ↔ c.claimed.get slot = true ∧ (i, slot) ∉ gone := by
  have hlt : i < v.stack.classes.size := by
    rw [hv.stack.size]
    exact lt_classCount h.wf.stack hd
  obtain ⟨claimed, hw, hiff⟩ := h.classes i _ (Array.getElem?_eq_getElem hlt)
  exact ⟨_, claimed, Array.getElem?_eq_getElem hlt, Option.some.inj (hd.symm.trans hw), hiff⟩

/-- A frame that was given back has no owner, and the others have theirs. -/
theorem owner?_eq_some (hv : v.WF) (h : Sheds gone freed collected v w) {i s owner : Nat} :
    w.stack.owner? i s = some owner ↔ v.stack.owner? i s = some owner ∧ (i, s) ∉ gone := by
  rw [FakeStack.owner?_eq_some, FakeStack.owner?_eq_some]
  constructor
  · rintro ⟨d, hd, hs, hclaimed, howner⟩
    obtain ⟨c, claimed, hc, rfl, hiff⟩ := h.of_class hv hd
    obtain ⟨hbefore, hout⟩ := (hiff s hs).mp hclaimed
    exact ⟨⟨c, hc, hs, hbefore, howner⟩, hout⟩
  · rintro ⟨⟨c, hc, hs, hclaimed, howner⟩, hout⟩
    obtain ⟨claimed, hw, hiff⟩ := h.classes i c hc
    exact ⟨_, hw, hs, (hiff s hs).mpr ⟨hclaimed, hout⟩, howner⟩

/-- Frames that are shed later were not shed before. -/
theorem disjoint (hv : v.WF) (h : Sheds gone freed collected v w)
    (h' : Sheds gone' freed' collected' w u) : Disjoint gone gone' := by
  refine Set.disjoint_left.mpr fun p hp hp' => ?_
  obtain ⟨owner, howner⟩ := Option.isSome_iff_exists.mp (h'.claimed p hp')
  exact ((h.owner?_eq_some hv).mp howner).2 hp

/-- What is shed one after the other adds up. -/
theorem trans (hv : v.WF) (h : Sheds gone freed collected v w) (h' : Sheds gone' freed' collected' w u) :
    Sheds (gone ∪ gone') (freed + freed') (collected + collected') v u where
  settles := h.settles.trans h'.settles
  finite := h.finite.union h'.finite
  ncard := by rw [Set.ncard_union_eq (h.disjoint hv h') h.finite h'.finite, h.ncard, h'.ncard]
  claimed p hp := by
    rcases hp with hp | hp
    · exact h.claimed p hp
    · obtain ⟨owner, howner⟩ := Option.isSome_iff_exists.mp (h'.claimed p hp)
      exact Option.isSome_iff_exists.mpr ⟨owner, ((h.owner?_eq_some hv).mp howner).1⟩
  classes i c hc := by
    obtain ⟨claimed, hw, hfirst⟩ := h.classes i c hc
    obtain ⟨claimed', hu, hsecond⟩ := h'.classes i _ hw
    refine ⟨claimed', hu, fun slot hslot => ?_⟩
    rw [hsecond slot hslot, hfirst slot hslot, Set.mem_union, not_or, and_assoc]
  poisoned p hp a ha := by
    -- A frame of the first kind may be one of the second, which has the same mark.
    by_cases hagain : ∃ q ∈ gone', a ∈ v.stack.frame q.1 q.2
    · obtain ⟨q, hq, hin⟩ := hagain
      exact h'.poisoned q hq a (by rwa [h.settles.changes.frame])
    · have hfirst : p ∈ gone := hp.resolve_right fun hp => hagain ⟨p, hp, ha⟩
      obtain ⟨owner, howner⟩ := Option.isSome_iff_exists.mp (h.claimed p hfirst)
      obtain ⟨c, hc, hslot, -, -⟩ := FakeStack.owner?_eq_some.mp howner
      rw [h'.kept a (hv.lt_limit hc hslot ha) fun q hq hin => hagain ⟨q, hq, by
        rwa [h.settles.changes.frame] at hin⟩]
      exact h.poisoned p hfirst a ha
  kept a ha hout := by
    rw [h'.kept a ha fun q hq => by rw [h.settles.changes.frame]; exact hout q (.inr hq)]
    exact h.kept a ha fun q hq => hout q (.inl hq)

/-- Frames that were given back may be counted as collected. -/
theorem count {n : Nat} (h : Sheds gone n 0 v w) : Sheds gone n n v
    { w with stack := { w.stack with collected := Word.wrapAdd w.stack.collected n } } where
  settles :=
    { changes := h.settles.changes.trans
        ⟨∅, ∅, .of_stack h.wf { h.wf.stack with } rfl rfl rfl⟩
      count := h.settles.count
      total := fun hlt => by
        show Word.wrapAdd w.stack.collected n = _
        have htotal := h.settles.total (by omega)
        unfold Word.wrapAdd
        rw [htotal, Nat.add_zero, Nat.mod_eq_of_lt hlt]
      collected := by
        show (Word.wrapAdd w.stack.collected n : ZMod Word.limit) = _
        have hcollected := h.settles.collected
        rw [Nat.cast_zero, add_zero] at hcollected
        rw [Word.cast_wrapAdd, hcollected] }
  finite := h.finite
  ncard := h.ncard
  claimed := h.claimed
  classes := h.classes
  poisoned := h.poisoned
  kept := h.kept

end Sheds

/-- An abandoned frame is claimed, by an owner below the given address. -/
theorem mem_abandoned (hv : v.WF) (hc : v.stack.classes[classId]? = some c) {realStack : Nat} :
    slot ∈ abandoned c realStack ↔
      slot < c.frames ∧ c.claimed.get slot = true ∧ c.owner.get slot < realStack := by
  unfold abandoned
  rw [List.mem_filter, RangeMap.mem_indices (Nat.le_of_lt (frames_lt_span hv.stack hc)), decide_eq_true_iff,
    and_iff_right (Nat.zero_le slot), and_assoc]
  rfl

/-- The frames that a collection sweeps are those with owners below the given address. -/
theorem mem_swept (hv : v.WF) {realStack : Nat} {p : Nat × Nat} : p ∈ v.stack.swept realStack ↔
    ∃ c, v.stack.classes[p.1]? = some c ∧ c.used = true
      ∧ ∃ owner < realStack, v.stack.owner? p.1 p.2 = some owner := by
  refine exists_congr fun c => and_congr_right fun hc => and_congr_right fun _ => ?_
  rw [mem_abandoned hv hc]
  constructor
  · rintro ⟨hslot, hclaimed, howner⟩
    exact ⟨_, howner, FakeStack.owner?_eq_some.mpr ⟨c, hc, hslot, hclaimed, rfl⟩⟩
  · rintro ⟨owner, hlt, howner⟩
    obtain ⟨d, hd, hslot, hclaimed, rfl⟩ := FakeStack.owner?_eq_some.mp howner
    obtain rfl := Option.some.inj (hc.symm.trans hd)
    exact ⟨hslot, hclaimed, hlt⟩

/-- What is not given back yet can be given back later. -/
theorem Sheds.mem_swept {w : View} {gone : Set (Nat × Nat)} {freed collected realStack : Nat} (hv : v.WF)
    (h : Sheds gone freed collected v w) {p : Nat × Nat} :
    p ∈ w.stack.swept realStack ↔ p ∈ v.stack.swept realStack ∧ p ∉ gone := by
  rw [View.mem_swept h.wf, View.mem_swept hv]
  simp only [h.owner?_eq_some hv]
  constructor
  · rintro ⟨d, hd, hused, owner, hlt, howner, hout⟩
    obtain ⟨c, claimed, hc, rfl, -⟩ := h.of_class hv hd
    exact ⟨⟨c, hc, hused, owner, hlt, howner⟩, hout⟩
  · rintro ⟨⟨c, hc, hused, owner, hlt, howner⟩, hout⟩
    obtain ⟨claimed, hw, -⟩ := h.classes p.1 c hc
    exact ⟨_, hw, hused, owner, hlt, howner, hout⟩

/-- A claimed frame that is given back is the only one. -/
theorem sheds_freed (hv : v.WF) (hc : v.stack.classes[classId]? = some c) (hslot : slot < c.frames)
    (hclaimed : c.claimed.get slot = true) : Sheds {(classId, slot)} 1 0 v (v.freed classId slot c) where
  settles := settles_freed hv hc hslot hclaimed
  finite := Set.finite_singleton _
  ncard := Set.ncard_singleton _
  claimed p hp := by
    obtain rfl := hp
    exact (isSome_owner? hc hslot).mpr hclaimed
  classes i d hd := by
    by_cases hi : i = classId
    · subst hi
      obtain rfl := Option.some.inj (hc.symm.trans hd)
      refine ⟨_, (getElem?_setClass hc).trans (if_pos rfl), fun s hs => ?_⟩
      rw [RangeMap.get_set _ _ _ _ (Nat.lt_trans hs (frames_lt_span hv.stack hc))]
      by_cases heq : s = slot <;> simp [heq]
    · refine ⟨d.claimed, (getElem?_setClass hc).trans ((if_neg hi).trans hd), fun s hs => ?_⟩
      exact (and_iff_left fun hin => hi (congrArg Prod.fst hin)).symm
  poisoned p hp a ha := by
    obtain rfl := hp
    exact code_frame hv hc hslot ha
  kept a ha hout := code_beside hv ha (hout _ rfl)

section Calls

variable {ok : Unit → View → Prop} {no : FakeStackError → View → Prop}

/-- A frame that is claimed is freed. -/
theorem ends_freeSlot (hv : v.WF) (hc : v.stack.classes[classId]? = some c) (hslot : slot < c.frames)
    (hok : ok () (v.freed classId slot c)) : Act.Ends (freeSlot classId slot) v ok no := by
  unfold freeSlot
  rw [Act.ends_bind, Act.ends_get, Act.ends_bind]
  refine ends_markFrame hv hc hslot ?_
  rw [Act.ends_bind]
  generalize hshadow : v.shadow.poisoned _ _ _ = shadow
  refine ends_frameClass (v := ⟨v.stack, shadow⟩) hc (Act.ends_modify.mpr ?_)
  rw [← hshadow]
  exact hok

variable (no) in
/-- Claimed frames of a class are given back and counted. -/
theorem ends_freeSlots (hv : v.WF) (hc : v.stack.classes[classId]? = some c) {slots : List Nat}
    (hnodup : slots.Nodup) (hslots : ∀ slot ∈ slots, slot < c.frames ∧ c.claimed.get slot = true) :
    Act.Ends (freeSlots classId slots) v
      (fun n w => Sheds {p | p.1 = classId ∧ p.2 ∈ slots} n 0 v w) no := by
  induction slots generalizing v c with
  | nil =>
      refine Act.ends_pure.mpr ((Sheds.refl hv).of_eq (Set.eq_empty_iff_forall_notMem.mpr ?_).symm)
      exact fun p hp => List.not_mem_nil hp.2
  | cons slot rest ih =>
      obtain ⟨hout, hnodup⟩ := List.nodup_cons.mp hnodup
      obtain ⟨⟨hslot, hclaimed⟩, hrest⟩ := List.forall_mem_cons.mp hslots
      have hfirst := sheds_freed hv hc hslot hclaimed
      obtain ⟨claimed, hc', hleft⟩ := hfirst.classes classId c hc
      unfold freeSlots
      rw [Act.ends_bind]
      refine ends_freeSlot hv hc hslot ?_
      rw [Act.ends_bind]
      refine (ih hfirst.wf hc' hnodup fun s hs => ?_).imp (fun n u hu => ?_) fun _ _ hno => hno
      · -- The frame that was given back is not among those that are left.
        obtain ⟨hlt, hget⟩ := hrest s hs
        exact ⟨hlt, (hleft s hlt).mpr ⟨hget, fun heq => hout ((Prod.mk.inj heq).2 ▸ hs)⟩⟩
      · refine (hfirst.trans hv hu).of_eq (Set.ext fun p => ?_)
        simp only [Set.mem_union, Set.mem_singleton_iff, Set.mem_ofPred_eq, List.mem_cons, Prod.ext_iff]
        rw [← and_or_left]

variable (no) in
/-- The abandoned frames of some classes are given back and counted. -/
theorem ends_collectClasses (hv : v.WF) {realStack : Nat} {classIds : List Nat}
    (hclasses : ∀ classId ∈ classIds, classId < classCount) :
    Act.Ends (collectClasses realStack classIds) v
      (fun n w => Sheds {p | p.1 ∈ classIds ∧ p ∈ v.stack.swept realStack} n 0 v w) no := by
  induction classIds generalizing v with
  | nil =>
      refine Act.ends_pure.mpr ((Sheds.refl hv).of_eq (Set.eq_empty_iff_forall_notMem.mpr ?_).symm)
      exact fun p hp => List.not_mem_nil hp.1
  | cons classId rest ih =>
      have hlt : classId < v.stack.classes.size := by
        rw [hv.stack.size]
        exact hclasses classId List.mem_cons_self
      have hc := Array.getElem?_eq_getElem hlt
      generalize v.stack.classes[classId] = c at hc
      have hrest := fun i hi => hclasses i (List.mem_cons_of_mem classId hi)
      -- What is left to the other classes is what this one has not given back.
      have hnext : ∀ n w, Sheds {p | p.1 = classId ∧ p ∈ v.stack.swept realStack} n 0 v w →
          Act.Ends (collectClasses realStack rest >>= fun more => pure (n + more)) w
            (fun n w => Sheds {p | p.1 ∈ classId :: rest ∧ p ∈ v.stack.swept realStack} n 0 v w) no := by
        intro n w hw
        rw [Act.ends_bind]
        refine (ih hw.wf hrest).imp (fun m u hu => ?_) fun _ _ hno => hno
        refine (hw.trans hv hu).of_eq (Set.ext fun p => ?_)
        simp only [Set.mem_union, Set.mem_ofPred_eq, List.mem_cons, hw.mem_swept hv]
        tauto
      unfold collectClasses
      rw [Act.ends_bind]
      refine ends_frameClass hc ?_
      have hswept : ∀ p : Nat × Nat, p.1 = classId →
          (p ∈ v.stack.swept realStack ↔ c.used = true ∧ p.2 ∈ abandoned c realStack) := by
        rintro p rfl
        constructor
        · rintro ⟨d, hd, hin⟩
          obtain rfl := Option.some.inj (hc.symm.trans hd)
          exact hin
        · exact fun hin => ⟨c, hc, hin⟩
      -- A class that was never used has nothing to collect.
      by_cases hused : c.used = true
      · rw [if_pos hused, Act.ends_bind]
        refine (ends_freeSlots no hv hc ((RangeMap.nodup_indices ..).filter _) fun slot hslot => ?_).imp
          (fun n w hw => hnext n w (hw.of_eq (Set.ext fun p => ?_))) fun _ _ hno => hno
        · obtain ⟨hlt, hclaimed, -⟩ := (mem_abandoned hv hc).mp hslot
          exact ⟨hlt, hclaimed⟩
        · exact and_congr_right fun hp => ((hswept p hp).trans (and_iff_right hused)).symm
      · rw [if_neg hused, Act.ends_bind, Act.ends_pure]
        refine hnext 0 v ((Sheds.refl hv).of_eq (Set.eq_empty_iff_forall_notMem.mpr ?_).symm)
        exact fun p hp => hused ((hswept p hp.1).mp hp.2).1

/-- Collecting gives the abandoned frames of used classes back and counts them. -/
theorem ends_gc (hv : v.WF) {realStack : Nat} :
    Act.Ends (gc realStack) v (fun n w => Sheds (v.stack.swept realStack) n n v w) no := by
  unfold gc
  rw [Act.ends_bind, Act.ends_get, Act.ends_bind]
  refine (ends_collectClasses no hv fun i hi => ?_).imp (fun n w hw => ?_) fun _ _ hno => hno
  · rw [← hv.stack.size]
    exact List.mem_range.mp hi
  · rw [Act.ends_bind]
    refine Act.ends_modify.mpr (Act.ends_pure.mpr (hw.count.of_eq (Set.ext fun p => and_iff_right_of_imp ?_)))
    rintro ⟨c, hc, -⟩
    exact List.mem_range.mpr (Array.getElem?_eq_some_iff.mp hc).1

end Calls

/-! ## The calls -/

/-- The frame that is chosen is a free one. -/
theorem of_freeFrame? {start : Nat} (hstart : start ≤ c.frames)
    (hfind : freeFrame? c start = some slot) : slot < c.frames ∧ c.claimed.get slot = false := by
  unfold freeFrame? at hfind
  rcases Option.or_eq_some_iff.mp hfind with h | ⟨-, h⟩
  · obtain ⟨-, hlt, -, hfree⟩ := RangeMap.find?_eq_some h
    exact ⟨hlt, Bool.not_eq_true' _ ▸ hfree⟩
  · obtain ⟨-, hlt, -, hfree⟩ := RangeMap.find?_eq_some h
    exact ⟨Nat.lt_of_lt_of_le hlt hstart, Bool.not_eq_true' _ ▸ hfree⟩

/-- A class has frames. -/
theorem WF.frames_pos (hv : v.WF) (hc : v.stack.classes[classId]? = some c) : 0 < c.frames := by
  rw [hv.stack.frames classId c hc]
  exact Word.powerOfTwo_pos _

/-- The view in which a search has found nothing. -/
def missed (v : View) (classId : Nat) (c : FrameClass) : View :=
  { v with stack := v.stack.setClass classId { c with hint := Word.wrapAdd c.hint 1 } }

theorem settles_missed (hv : v.WF) (hc : v.stack.classes[classId]? = some c) :
    Settles 0 0 0 v (v.missed classId c) :=
  .of_stack hv (hv.stack.setClass hc rfl) rfl rfl (claims_setClass_of_eq hc rfl rfl)
    (claimedCount_setClass_of_eq hc rfl rfl) rfl

/-- A search that has found nothing leaves every frame to its owner. -/
theorem owner?_missed (hc : v.stack.classes[classId]? = some c) (i s : Nat) :
    (v.missed classId c).stack.owner? i s = v.stack.owner? i s := by
  by_cases hi : i = classId
  · subst hi
    have hmissed : (v.missed i c).stack.classes[i]? = some _ := (getElem?_setClass hc).trans (if_pos rfl)
    rw [FakeStack.owner?_eq hmissed, FakeStack.owner?_eq hc]
  · exact owner?_setClass_of_ne hc hi

/-- Giving frames back touches the classes and the shadow only. -/
theorem fixes_collectClasses {ρ : Type} {g : View → ρ}
    (hg : ∀ v classes shadow, g ⟨{ v.stack with classes }, shadow⟩ = g v) (realStack : Nat)
    (classIds : List Nat) : Act.Fixes g (collectClasses realStack classIds) := by
  have hclass : ∀ classId, Act.Fixes g (frameClass classId) := fun classId =>
    Act.fixes_get.bind fun _ => Act.fixes_orRefuse
  have hslot : ∀ classId slot, Act.Fixes g (freeSlot classId slot) := fun classId slot =>
    Act.fixes_get.bind fun _ =>
      (Act.fixes_onPart fun v _ => hg v v.stack.classes _).mapError.bind fun _ =>
        (hclass classId).bind fun _ => Act.fixes_modify fun v => hg v _ _
  have hslots : ∀ classId slots, Act.Fixes g (freeSlots classId slots) := by
    intro classId slots
    induction slots with
    | nil => exact Act.fixes_pure
    | cons slot rest ih => exact (hslot classId slot).bind fun _ => ih.bind fun _ => Act.fixes_pure
  induction classIds with
  | nil => exact Act.fixes_pure
  | cons classId rest ih =>
      refine (hclass classId).bind fun c => ?_
      have hrest : ∀ freed, Act.Fixes g (collectClasses realStack rest >>= fun more => pure (freed + more)) :=
        fun _ => ih.bind fun _ => Act.fixes_pure
      dsimp only
      split
      · exact (hslots classId _).bind hrest
      · exact Act.fixes_pure.bind hrest

/-- Collecting does not tell whether the next allocation collects again. -/
theorem fixes_gc_needsGc (realStack : Nat) : Act.Fixes (·.stack.needsGc) (gc realStack) := by
  refine Act.fixes_get.bind fun _ => (fixes_collectClasses (fun _ _ _ => rfl) _ _).bind fun _ => ?_
  refine Act.Fixes.bind ?_ fun _ => Act.fixes_pure
  exact Act.fixes_modify fun _ => rfl

section Calls

variable {ok : Nat → View → Prop} {no : FakeStackError → View → Prop}

/-- The frame that the search finds is claimed, or the class has no free one. -/
theorem ends_claimFree (hv : v.WF) (hc : v.stack.classes[classId]? = some c) {realStack : Nat}
    (hok : ∀ slot < c.frames, c.claimed.get slot = false → freeFrame? c (c.hint % c.frames) = some slot →
      ok (v.stack.frameAddr classId slot) (v.taken classId slot realStack c))
    (hno : freeFrame? c (c.hint % c.frames) = none → no (.exhausted classId) (v.missed classId c)) :
    Act.Ends (claimFree classId realStack) v ok no := by
  unfold claimFree
  rw [Act.ends_bind]
  refine ends_frameClass hc ?_
  cases hfind : freeFrame? c (c.hint % c.frames) with
  | none => exact hno hfind
  | some slot =>
      obtain ⟨hslot, hfree⟩ :=
        of_freeFrame? (Nat.le_of_lt (Nat.mod_lt c.hint (hv.frames_pos hc))) hfind
      have hdone := hok slot hslot hfree hfind
      rw [Act.ends_bind]
      refine Act.ends_modify.mpr ?_
      rw [Act.ends_bind, Act.ends_get, Act.ends_bind]
      have hview : WF ⟨(v.taken classId slot realStack c).stack, v.shadow⟩ :=
        { hv with stack := hv.stack.setClass hc rfl }
      exact ends_markFrame hview ((getElem?_setClass hc).trans (if_pos rfl)) hslot hdone

/-- The frames that an allocation gives back before its search. -/
def due (v : View) (realStack : Nat) : Set (Nat × Nat) :=
  {p | v.stack.needsGc = true ∧ p ∈ v.stack.swept realStack}

/-- An allocation searches its class after it has collected what was due. -/
theorem ends_allocate_of (hv : v.WF) {realStack : Nat}
    (hnone : v.stack.classes[classId]? = none → no (.invalidClass classId) v)
    (hnext : ∀ n w, Sheds (v.due realStack) n n v w → w.stack.needsGc = false →
      classId < classCount → Act.Ends (claimFree classId realStack) w ok no) :
    Act.Ends (allocate classId realStack) v ok no := by
  unfold allocate
  cases hc : v.stack.classes[classId]? with
  | none =>
      unfold frameClass
      simp only [Act.ends_bind, Act.ends_get, hc]
      exact hnone hc
  | some c =>
      have hclass := lt_classCount hv.stack hc
      rw [Act.ends_bind]
      refine ends_frameClass hc ?_
      rw [Act.ends_bind, Act.ends_get]
      by_cases hgc : v.stack.needsGc = true
      · simp only [hgc, if_true]
        rw [Act.ends_bind]
        refine Act.ends_modify.mpr ?_
        have hstill : Sheds ∅ 0 0 v { v with stack := { v.stack with needsGc := false } } :=
          .of_classes hv rfl rfl rfl rfl
        rw [Act.ends_bind]
        refine ((ends_gc hstill.wf).and_leaves ((fixes_gc_needsGc realStack).leaves_eq rfl)).imp ?_
          fun _ _ hno => hno.1
        rintro n w ⟨hw, harmed⟩
        have hall := hstill.trans hv hw
        rw [Nat.zero_add] at hall
        refine hnext n w (hall.of_eq (Set.ext fun p => ?_)) harmed hclass
        rw [Set.empty_union]
        exact (and_iff_right hgc).symm
      · have harmed : v.stack.needsGc = false := Bool.not_eq_true _ ▸ hgc
        simp only [hgc]
        refine hnext 0 v ((Sheds.refl hv).of_eq (Set.eq_empty_iff_forall_notMem.mpr ?_).symm) harmed hclass
        exact fun p hp => hgc hp.1

/-- Claiming a frame claims one, or none, after others may have been collected; of a class that there
    is, none only as they all are. -/
theorem ends_allocate (hv : v.WF) (realStack : Nat) :
    Act.Ends (allocate classId realStack) v (fun _ w => ∃ n, Settles 1 n n v w)
      fun e w => (classId < classCount → e = .exhausted classId) ∧ ∃ n, Settles 0 n n v w := by
  refine ends_allocate_of hv (fun hc => ?_) fun n w hw _ hclass => ?_
  · have hout : classCount ≤ classId := hv.stack.size ▸ Array.getElem?_eq_none_iff.mp hc
    exact ⟨fun hlt => absurd hlt (Nat.not_lt.mpr hout), 0, .refl hv⟩
  · have hc := Array.getElem?_eq_getElem (hw.wf.stack.size.symm ▸ hclass)
    refine ends_claimFree hw.wf hc (fun slot hslot hfree _ => ⟨n, ?_⟩) fun _ => ⟨fun _ => rfl, n, ?_⟩
    · exact Nat.zero_add 1 ▸ hw.settles.trans (settles_taken hw.wf hc hslot hfree realStack)
    · exact hw.settles.trans (settles_missed hw.wf hc)

end Calls

/-- A claimed frame of the class is given back, and a wrong call changes nothing. -/
theorem ends_free_of (hv : v.WF) (addr : Nat) {ok : Unit → View → Prop}
    {no : FakeStackError → View → Prop}
    (hok : ∀ c slot, v.stack.classes[classId]? = some c → slot < c.frames → c.claimed.get slot = true →
      addr = v.stack.frameAddr classId slot → ok () (v.freed classId slot c))
    (hno : ∀ e, addr ∉ v.stack.claimedAt classId → e = .invalidClass classId ∨ e = .notAllocated addr →
      no e v) : Act.Ends (free addr classId) v ok no := by
  unfold free
  rw [Act.ends_bind]
  cases hc : v.stack.classes[classId]? with
  | none =>
      unfold frameClass
      simp only [Act.ends_bind, Act.ends_get, hc]
      refine hno _ ?_ (.inl rfl)
      rintro ⟨c, slot, hc', -⟩
      rw [hc] at hc'
      cases hc'
  | some c =>
      refine ends_frameClass hc ?_
      rw [Act.ends_bind, Act.ends_get]
      -- A claimed frame lies a whole number of frames behind the beginning of the class.
      have hplaced : addr ∈ v.stack.claimedAt classId →
          ¬ (addr < v.stack.classBegin classId
            ∨ (addr - v.stack.classBegin classId) % frameSize classId ≠ 0)
          ∧ ¬ ((addr - v.stack.classBegin classId) / frameSize classId ≥ c.frames
            ∨ (!c.claimed.get ((addr - v.stack.classBegin classId) / frameSize classId)) = true) := by
        rintro ⟨c', slot, hc', hslot, hclaimed, rfl⟩
        obtain rfl := Option.some.inj (hc.symm.trans hc')
        unfold frameAddr
        rw [Nat.add_sub_cancel_left, Nat.mul_mod_left, Nat.mul_div_cancel slot frameSize_pos]
        simp [hslot, hclaimed]
      by_cases hplace : addr < v.stack.classBegin classId
          ∨ (addr - v.stack.classBegin classId) % frameSize classId ≠ 0
      · simp only [hplace, if_true]
        exact hno _ (fun hin => (hplaced hin).1 hplace) (.inr rfl)
      simp only [hplace, if_false]
      by_cases hclaimed : (addr - v.stack.classBegin classId) / frameSize classId ≥ c.frames
          ∨ (!c.claimed.get ((addr - v.stack.classBegin classId) / frameSize classId)) = true
      · simp only [hclaimed, if_true]
        exact hno _ (fun hin => (hplaced hin).2 hclaimed) (.inr rfl)
      simp only [hclaimed, if_false]
      rw [not_or, Nat.not_le, Bool.not_eq_true', Bool.not_eq_false] at hclaimed
      rw [not_or, Nat.not_lt, not_not] at hplace
      refine ends_freeSlot hv hc hclaimed.1 (hok c _ hc hclaimed.1 hclaimed.2 ?_)
      unfold frameAddr
      have hwhole := Nat.div_mul_cancel (Nat.dvd_of_mod_eq_zero hplace.2)
      omega

/-- Giving a frame back gives a claimed one back, and a wrong call changes nothing. -/
theorem ends_free (hv : v.WF) (addr : Nat) :
    Act.Ends (free addr classId) v
      (fun _ w => addr ∈ v.stack.claimedAt classId ∧ Settles 0 1 0 v w)
      fun e w => w = v ∧ addr ∉ v.stack.claimedAt classId
        ∧ (e = .invalidClass classId ∨ e = .notAllocated addr) :=
  ends_free_of hv addr
    (fun c slot hc hslot hclaimed haddr =>
      ⟨⟨c, slot, hc, hslot, hclaimed, haddr⟩, settles_freed hv hc hslot hclaimed⟩)
    fun _ hout he => ⟨rfl, hout, he⟩

end View

end FakeStack

end GuardedHeap
