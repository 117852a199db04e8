import GuardedHeap.Proofs.FakeStack.History

/-! # Lookup — the frame that an address lies in

    Frames are placed by products, and found by shifts whose widths depend
    on the class that was just found.  Here the search is written with all
    of its sums and shifts checked and its places looked up in tables that
    end (`frameAtInWords`).  On a fake stack that lies in the address space
    it is not stopped, and it gives back the place that every address of a
    frame comes from (`WF.finds`). -/

namespace GuardedHeap

/-- The word `n` shifted right by `k < 64` places. -/
def Word.shiftRight (n k : Nat) : Checked Nat :=
  if k < 64 then .ok (n / powerOfTwo k) else .error .overrun

namespace FakeStack

variable {f : FakeStack} {addr classId slot : Nat} {c : FrameClass}

/-! ## The search in words -/

/-- `past` in words. -/
def pastInWords (f : FakeStack) : Checked Nat := do
  Word.add f.begin (← Word.shiftLeft classCount f.sizeLog)

/-- `classBegin` in words. -/
def classBeginInWords (f : FakeStack) (classId : Nat) : Checked Nat := do
  Word.add f.begin (← Word.shiftLeft classId f.sizeLog)

/-- `frameAddr` in words. -/
def frameAddrInWords (f : FakeStack) (classId slot : Nat) : Checked Nat := do
  let size ← Word.shiftLeft 1 (← Word.add minFrameSizeLog classId)
  Word.add (← f.classBeginInWords classId) (← Word.mul slot size)

/-- `frameAt?` in words; a place that is in no table stops it. -/
def frameAtInWords (f : FakeStack) (addr : Nat) : Checked (Option FakeFrame) := do
  if addr < f.begin then
    return none
  if (← f.pastInWords) ≤ addr then
    return none
  let classId ← Word.shiftRight (← Word.sub addr f.begin) f.sizeLog
  let within ← Word.sub addr (← f.classBeginInWords classId)
  let slot ← Word.shiftRight within (← Word.add minFrameSizeLog classId)
  match f.classes[classId]? with
  | none => throw .overrun
  | some c =>
    if c.frames ≤ slot then
      throw .overrun
    return some {
      addr := ← f.frameAddrInWords classId slot
      classId
      slot
      realStack := c.owner.get slot
      allocated := c.claimed.get slot
    }

/-- The place of a frame is found in words as well. -/
theorem frameAddrInWords_eq (hf : f.WF) (hpast : f.past < Word.limit) (hc : f.classes[classId]? = some c)
    (hslot : slot < c.frames) : f.classBeginInWords classId = .ok (f.classBegin classId)
      ∧ f.frameAddrInWords classId slot = .ok (f.frameAddr classId slot) := by
  have hmax := hf.le_max
  have hclass := lt_classCount hf hc
  obtain ⟨hbegin, hend⟩ := class_bounds (f := f) hclass
  obtain ⟨hlo, hhi⟩ := frame_bounds hf hc hslot
  have hsize : Word.shiftLeft 1 (minFrameSizeLog + classId) = .ok (frameSize classId) := by
    have hlog : minFrameSizeLog + classId < 64 := by simp only [minFrameSizeLog, classCount] at *; omega
    exact Word.shiftLeft_one_eq_ok.mpr ⟨hlog, rfl⟩
  have hclassBegin : f.classBeginInWords classId = .ok (f.classBegin classId) := by
    unfold classBeginInWords Word.shiftLeft
    unfold classBegin at hend ⊢
    rw [if_pos (by simp only [maxSizeLog] at hmax; omega), Nat.mod_eq_of_lt (by omega)]
    exact Word.add_eq_ok.mpr ⟨by omega, rfl⟩
  refine ⟨hclassBegin, ?_⟩
  unfold frameAddrInWords
  unfold frameAddr at hlo hhi ⊢
  rw [show Word.add minFrameSizeLog classId = .ok (minFrameSizeLog + classId) from
      Word.add_eq_ok.mpr ⟨by simp only [minFrameSizeLog, classCount, Word.limit] at *; omega, rfl⟩]
  simp only [bind, Except.bind]
  rw [hsize]
  dsimp only
  rw [hclassBegin, show Word.mul slot (frameSize classId) = .ok (slot * frameSize classId) from
      Word.mul_eq_ok.mpr ⟨by omega, rfl⟩]
  exact Word.add_eq_ok.mpr ⟨by omega, rfl⟩

/-! ## What is found -/

/-- The class and the slot that shifting an address gives. -/
def placeOf (f : FakeStack) (addr : Nat) : Nat × Nat :=
  let classId := (addr - f.begin) / Word.powerOfTwo f.sizeLog
  (classId, (addr - f.classBegin classId) / frameSize classId)

/-- They are those of a frame, which the address lies in. -/
theorem WF.placed (hf : f.WF) (ha : addr ∈ f.range) :
    ∃ c, f.classes[(f.placeOf addr).1]? = some c ∧ (f.placeOf addr).2 < c.frames
      ∧ f.classBegin (f.placeOf addr).1 ≤ addr
      ∧ addr ∈ f.frame (f.placeOf addr).1 (f.placeOf addr).2 := by
  obtain ⟨hlo, hhi⟩ := ha
  have hpow := Word.powerOfTwo_pos f.sizeLog
  unfold placeOf
  dsimp only
  generalize hclass : (addr - f.begin) / Word.powerOfTwo f.sizeLog = classId
  have hlt : classId < classCount := by
    rw [← hclass, Nat.div_lt_iff_lt_mul hpow]
    unfold past totalSize at hhi
    omega
  have hc := Array.getElem?_eq_getElem (hf.size.symm ▸ hlt)
  -- The rest of the division lies in the range of the class.
  have hrest := Nat.div_add_mod (addr - f.begin) (Word.powerOfTwo f.sizeLog)
  have hmod := Nat.mod_lt (addr - f.begin) hpow
  rw [hclass, Nat.mul_comm] at hrest
  have hbegin : f.classBegin classId ≤ addr := by
    unfold classBegin
    omega
  have hwithin : addr - f.classBegin classId < Word.powerOfTwo f.sizeLog := by
    unfold classBegin
    omega
  rw [← frames_mul_frameSize hf hc] at hwithin
  refine ⟨_, hc, (Nat.div_lt_iff_lt_mul frameSize_pos).mpr hwithin, hbegin, ?_⟩
  have hdiv := Nat.div_add_mod (addr - f.classBegin classId) (frameSize classId)
  have hsize : (addr - f.classBegin classId) % frameSize classId < _ := Nat.mod_lt _ frameSize_pos
  rw [Nat.mul_comm] at hdiv
  unfold frame frameAddr
  exact ⟨by omega, by omega⟩

/-- The frame is the one of a fake stack that an address lies in, in its state. -/
structure Holds (f : FakeStack) (addr : Nat) (frame : FakeFrame) : Prop where
  slot_lt : frame.slot < f.framesInClass frame.classId
  addr_eq : frame.addr = f.frameAddr frame.classId frame.slot
  le : frame.addr ≤ addr
  lt : addr < frame.addr + frameSize frame.classId
  /-- No other frame has the address. -/
  unique : ∀ i s, s < f.framesInClass i → addr ∈ f.frame i s → i = frame.classId ∧ s = frame.slot
  state : ∃ c, f.classes[frame.classId]? = some c ∧ frame.realStack = c.owner.get frame.slot
    ∧ frame.allocated = c.claimed.get frame.slot

/-- An address of a fake stack is in the frame that is found, another one is in none. -/
structure Finds (f : FakeStack) : Prop where
  inWords : ∀ addr < Word.limit, f.frameAtInWords addr = .ok (f.frameAt? addr)
  inside : ∀ addr ∈ f.range, ∃ frame, f.frameAt? addr = some frame ∧ f.Holds addr frame
  outside : ∀ addr ∉ f.range, f.frameAt? addr = none

theorem frameAt?_eq (ha : addr ∈ f.range) (hc : f.classes[(f.placeOf addr).1]? = some c) :
    f.frameAt? addr = some
      { addr := f.frameAddr (f.placeOf addr).1 (f.placeOf addr).2
        classId := (f.placeOf addr).1
        slot := (f.placeOf addr).2
        realStack := c.owner.get (f.placeOf addr).2
        allocated := c.claimed.get (f.placeOf addr).2 } := by
  have hin : f.begin ≤ addr ∧ addr < f.past := ha
  unfold frameAt?
  rw [if_pos hin]
  exact congrArg (Option.map _) hc

/-- What is found in words is what is found, and nothing stops the search. -/
theorem WF.frameAtInWords_eq (hf : f.WF) (hpast : f.past < Word.limit) (addr : Nat) :
    f.frameAtInWords addr = .ok (f.frameAt? addr) := by
  have hmax := hf.le_max
  have hend : f.pastInWords = .ok f.past := by
    unfold pastInWords Word.shiftLeft
    unfold past totalSize at hpast ⊢
    rw [if_pos (by simp only [maxSizeLog] at hmax; omega), Nat.mod_eq_of_lt (by omega)]
    exact Word.add_eq_ok.mpr ⟨hpast, rfl⟩
  unfold frameAtInWords
  by_cases hlo : addr < f.begin
  · rw [if_pos hlo, frameAt?, if_neg (by omega)]
    rfl
  rw [if_neg hlo, hend]
  simp only [bind, Except.bind]
  by_cases hhi : f.past ≤ addr
  · rw [if_pos hhi, frameAt?, if_neg (by omega)]
    rfl
  rw [if_neg hhi]
  -- Inside the range every difference is defined and every shift is by less than 64.
  have ha : addr ∈ f.range := ⟨by omega, by omega⟩
  obtain ⟨c, hc, hslot, hclass, hin⟩ := hf.placed ha
  obtain ⟨hclassBegin, hframe⟩ := frameAddrInWords_eq hf hpast hc hslot
  have hlt := lt_classCount hf hc
  rw [show Word.sub addr f.begin = .ok (addr - f.begin) from Word.sub_eq_ok.mpr ⟨by omega, rfl⟩]
  dsimp only
  rw [show Word.shiftRight (addr - f.begin) f.sizeLog = .ok (f.placeOf addr).1 from
    if_pos (by simp only [maxSizeLog] at hmax; omega)]
  dsimp only
  rw [hclassBegin]
  dsimp only
  rw [show Word.sub addr (f.classBegin (f.placeOf addr).1) = .ok _ from Word.sub_eq_ok.mpr ⟨hclass, rfl⟩]
  dsimp only
  rw [show Word.add minFrameSizeLog (f.placeOf addr).1 = .ok _ from
    Word.add_eq_ok.mpr ⟨by simp only [minFrameSizeLog, classCount, Word.limit] at *; omega, rfl⟩]
  dsimp only
  rw [show Word.shiftRight (addr - f.classBegin (f.placeOf addr).1) (minFrameSizeLog + (f.placeOf addr).1) =
      .ok (f.placeOf addr).2 from if_pos (by simp only [minFrameSizeLog, classCount] at *; omega)]
  dsimp only
  rw [hc]
  dsimp only
  rw [if_neg (Nat.not_le.mpr hslot), hframe, frameAt?_eq ha hc]
  rfl

/-- A fake stack in the address space finds the frame of every address. -/
theorem WF.finds (hf : f.WF) (hpast : f.past < Word.limit) : f.Finds where
  inWords addr _ := hf.frameAtInWords_eq hpast addr
  inside addr ha := by
    obtain ⟨c, hc, hslot, -, hin⟩ := hf.placed ha
    refine ⟨_, frameAt?_eq ha hc, ?_⟩
    constructor
    case slot_lt => exact lt_framesInClass.mpr ⟨c, hc, hslot⟩
    case addr_eq => rfl
    case le => exact hin.1
    case lt => exact hin.2
    case unique =>
      intro i s hs ha'
      obtain ⟨d, hd, hs⟩ := lt_framesInClass.mp hs
      exact frame_eq hf hd hs hc hslot ha' hin
    case state => exact ⟨c, hc, rfl, rfl⟩
  outside _ ha := if_neg ha

/-! ## After any calls -/

namespace StackRun

variable {marked : Prop} {past : History} {v : View}

open Act

/-- No call moves a fake stack. -/
theorem ends_changes (hv : v.WF) (call : Call) :
    Ends call.perform v (fun _ w => View.Changes v w) fun _ w => View.Changes v w := by
  cases call with
  | allocate classId realStack =>
      exact (View.ends_allocate hv realStack).imp (fun _ _ ⟨_, hsettles⟩ => hsettles.changes)
        fun _ _ ⟨_, _, hsettles⟩ => hsettles.changes
  | free addr classId =>
      refine ends_map.mpr ((View.ends_free hv addr).imp (fun _ _ hsettles => ?_) fun _ _ hsame => ?_)
      · exact hsettles.2.changes
      · exact hsame.1 ▸ (View.Settles.refl hv).changes
  | noReturn =>
      have hw : View.Sheds ∅ 0 0 v { v with stack := v.stack.noReturn } := .of_classes hv rfl rfl rfl rfl
      exact ends_map.mpr (ends_modify.mpr hw.settles.changes)
  | gc realStack =>
      have hgc : Act.Ends (View.gc realStack) v _ fun _ w => View.Changes v w := View.ends_gc hv
      exact hgc.imp (fun _ _ hsheds => hsheds.settles.changes) fun _ _ hno => hno

/-- A fake stack lies in the address space, whatever was called. -/
theorem past_lt (hrun : StackRun marked past v) : v.stack.past < Word.limit := by
  induction hrun with
  | @created sizeLog h f t hheap hcreate =>
      have hends : Ends (create sizeLog) h (fun f _ => f.past < Word.limit) fun _ _ => True :=
        ends_create_of hheap (fun _ => trivial) (fun _ _ _ _ _ => trivial) fun _ _ begin t _ hgrown _ _ hhi =>
          Nat.lt_of_le_of_lt hhi hgrown.wf.layout.end_lt
      exact hends.of_ok hcreate
  | @called past v w call answer hrun hact ih =>
      have hends := ends_changes hrun.tells.held.wf call
      have hmoved : View.Changes v w := by
        rcases attempt_eq_ok.mp hact with ⟨n, -, hok⟩ | ⟨e, -, hno⟩
        · exact hends.of_ok hok
        · exact hends.of_refused hno
      obtain ⟨_, _, hgoes⟩ := hmoved
      unfold FakeStack.past at ih ⊢
      rwa [hgoes.begin_eq, hgoes.sizeLog_eq]
  | elsewhere _ _ _ ih => exact ih

theorem finds (hrun : StackRun marked past v) : v.stack.Finds :=
  hrun.tells.held.wf.stack.finds hrun.past_lt

/-- The flag and the owner that are found are those that the calls tell. -/
theorem owner?_of_holds (hrun : StackRun marked past v) {addr : Nat} {frame : FakeFrame}
    (h : v.stack.Holds addr frame) :
    past.owner? frame.addr = if frame.allocated = true then some frame.realStack else none := by
  obtain ⟨c, hc, howner, hallocated⟩ := h.state
  have hslot := h.slot_lt
  rw [h.addr_eq, ← hrun.tells.held.owner _ _ hslot, owner?_eq hc, howner, hallocated]
  rw [framesInClass_eq hc] at hslot
  simp only [hslot, true_and]

end StackRun

end FakeStack

end GuardedHeap
