import GuardedHeap.Proofs.FakeStack.Calls
import GuardedHeap.Proofs.Sanitizer.Beginning
import Mathlib.Order.Bounds.Basic

/-! # Histories of a fake stack — the calls tell who has which frame

    From the calls on a fake stack and their answers alone it can be told
    whether a collection is due (`History.armed`), who has the frame at an
    address (`History.owner?`) and where the next search in a class begins
    (`History.cursor`).  A fake stack matches that (`View.Matches`), and
    every call keeps the match: collecting and giving back take owners away
    (`View.Matches.sheds`), a search moves the cursor, and the frame that it
    finds is the first one around that nobody has
    (`View.Matches.isLeast_freeFrame?`).

    `StackRun.tells` says so of any calls in any order, and
    `StackRun.lays_and_answers` reads off what a caller can see. -/

namespace GuardedHeap

namespace FakeStack

open Act

/-! ## The search -/

section Search

variable {c : FrameClass} {start slot : Nat}

/-- The search finds the first free frame from `start` on and around. -/
theorem isLeast_freeFrame? (hspan : c.frames < RangeMap.span) (hstart : start < c.frames)
    (h : View.freeFrame? c start = some slot) :
    ∃ k, IsLeast {k | c.claimed.get ((start + k) % c.frames) = false} k ∧ slot = (start + k) % c.frames := by
  unfold View.freeFrame? at h
  have hfree : ∀ {lo hi s : Nat}, c.claimed.find? lo hi (!·) = some s → c.claimed.get s = false :=
    fun hfind => Bool.not_eq_true' _ ▸ (RangeMap.find?_eq_some hfind).2.2.2
  have hclaimed : ∀ {s : Nat}, (!c.claimed.get s) = false → c.claimed.get s ≠ false := fun hget heq => by
    rw [heq] at hget
    exact nomatch hget
  rcases Option.or_eq_some_iff.mp h with hfind | ⟨hnone, hfind⟩
  · obtain ⟨hlo, hhi, -⟩ := RangeMap.find?_eq_some hfind
    have hmod : ∀ k, start + k < c.frames → (start + k) % c.frames = start + k := fun k hk =>
      Nat.mod_eq_of_lt hk
    refine ⟨slot - start, ⟨?_, fun k hk => ?_⟩, ?_⟩
    · show c.claimed.get ((start + (slot - start)) % c.frames) = false
      rw [hmod _ (by omega), Nat.add_sub_cancel' hlo]
      exact hfree hfind
    · by_contra hlt
      have hbelow := RangeMap.find?_below hfind (j := start + k) (by omega) (by omega)
      have hk : c.claimed.get ((start + k) % c.frames) = false := hk
      rw [hmod k (by omega)] at hk
      exact hclaimed hbelow hk
    · rw [hmod _ (by omega), Nat.add_sub_cancel' hlo]
  · -- Everything from `start` on is claimed, so the search goes around.
    obtain ⟨-, hhi, -⟩ := RangeMap.find?_eq_some hfind
    have hround : ∀ k, c.frames ≤ start + k → start + k < c.frames + c.frames →
        (start + k) % c.frames = start + k - c.frames := fun k hge hlt => by
      rw [Nat.mod_eq_sub_mod hge, Nat.mod_eq_of_lt (by omega)]
    have hslot : start + (c.frames - start + slot) - c.frames = slot := by omega
    refine ⟨c.frames - start + slot, ⟨?_, fun k hk => ?_⟩, ?_⟩
    · show c.claimed.get ((start + (c.frames - start + slot)) % c.frames) = false
      rw [hround _ (by omega) (by omega), hslot]
      exact hfree hfind
    · by_contra hlt
      have hk : c.claimed.get ((start + k) % c.frames) = false := hk
      by_cases hwrap : c.frames ≤ start + k
      · rw [hround k hwrap (by omega)] at hk
        exact hclaimed (RangeMap.find?_below hfind (Nat.zero_le _) (by omega)) hk
      · rw [Nat.mod_eq_of_lt (by omega)] at hk
        exact hclaimed (RangeMap.find?_eq_none hnone (by omega) (by omega) (by omega)) hk
    · rw [hround _ (by omega) (by omega), hslot]

/-- A search that finds nothing has seen every frame. -/
theorem claimed_of_freeFrame? (hspan : c.frames < RangeMap.span) (h : View.freeFrame? c start = none)
    (hslot : slot < c.frames) : c.claimed.get slot = true := by
  obtain ⟨hafter, hbefore⟩ := Option.or_eq_none_iff.mp h
  have hlt := Nat.lt_trans hslot hspan
  by_cases hle : start ≤ slot
  · exact (Bool.not_eq_false' _).mp (RangeMap.find?_eq_none hafter hle hslot hlt)
  · exact (Bool.not_eq_false' _).mp
      (RangeMap.find?_eq_none hbefore (Nat.zero_le _) (Nat.lt_of_not_le hle) hlt)

end Search

/-! ## What the calls tell -/

/-- A call on a fake stack. -/
inductive Call where
  | allocate (classId realStack : Nat)
  | free (addr classId : Nat)
  | noReturn
  | gc (realStack : Nat)

/-- Carry a call out.  The answer is an address or a number where there is one, and zero elsewhere. -/
def Call.perform : Call → Act FakeStackError View Nat
  | allocate classId realStack => View.allocate classId realStack
  | free addr classId => (fun _ => 0) <$> View.free addr classId
  | noReturn => (fun _ => 0) <$> modify fun v => { v with stack := v.stack.noReturn }
  | gc realStack => View.gc realStack

/-- The calls on a fake stack with their answers, the last one first. -/
abbrev History := List (Call × Except FakeStackError Nat)

namespace History

/-- The next allocation from a class that there is collects first. -/
def armed : History → Bool
  | [] => false
  | (.noReturn, _) :: _ => true
  | (.allocate classId _, _) :: past => decide (classCount ≤ classId) && armed past
  | _ :: past => armed past

/-- The next call collects the frames of owners below this address; none are below zero. -/
def sweep (past : History) : Call → Nat
  | .gc realStack => realStack
  | .allocate classId realStack => if classId < classCount ∧ past.armed = true then realStack else 0
  | _ => 0

/-- Who has the frame at `addr`: the owner given with the last allocation that returned it, unless it was
    freed or collected since. -/
def owner? (addr : Nat) : History → Option Nat
  | [] => none
  | (call, answer) :: past =>
    let left := (owner? addr past).filter (sweep past call ≤ ·)
    match call, answer with
    | .allocate _ realStack, .ok frame => if frame = addr then some realStack else left
    | .free frame _, .ok _ => if frame = addr then none else left
    | _, _ => left

/-- Who has the frame at `addr` once the next call has collected. -/
def left? (past : History) (call : Call) (addr : Nat) : Option Nat :=
  (past.owner? addr).filter (past.sweep call ≤ ·)

/-- Where the next search in a class begins, whose frames lie from `begin` on: one behind the last frame that
    was found, and one further for every search since that found none. -/
def cursor (begin classId : Nat) : History → Nat
  | [] => 0
  | (.allocate i _, answer) :: past =>
    if i = classId then
      match answer with
      | .ok frame => (frame - begin) / frameSize classId + 1
      | .error _ => cursor begin classId past + 1
    else cursor begin classId past
  | _ :: past => cursor begin classId past

end History

/-! ## Matching -/

section Places

variable {f : FakeStack} {classId slot : Nat}

theorem lt_framesInClass :
    slot < f.framesInClass classId ↔ ∃ c, f.classes[classId]? = some c ∧ slot < c.frames := by
  unfold framesInClass
  cases f.classes[classId]? with
  | none => exact ⟨nofun, nofun⟩
  | some c => exact ⟨fun h => ⟨c, rfl, h⟩, fun ⟨_, hc, h⟩ => Option.some.inj hc ▸ h⟩

theorem framesInClass_eq {c : FrameClass} (hc : f.classes[classId]? = some c) :
    f.framesInClass classId = c.frames := by
  unfold framesInClass
  rw [hc]
  rfl

theorem WF.framesInClass_eq (hf : f.WF) (classId : Nat) : f.framesInClass classId =
    if classId < classCount then Word.powerOfTwo (f.sizeLog - minFrameSizeLog - classId) else 0 := by
  by_cases hclass : classId < classCount
  · have hc := Array.getElem?_eq_getElem (hf.size.symm ▸ hclass)
    rw [if_pos hclass, FakeStack.framesInClass_eq hc, hf.frames classId _ hc]
  · have hc : f.classes[classId]? = none := Array.getElem?_eq_none (hf.size ▸ Nat.le_of_not_lt hclass)
    rw [if_neg hclass]
    unfold framesInClass
    rw [hc]
    rfl

/-- Every frame has its own address. -/
theorem frameAddr_inj (hf : f.WF) {i s : Nat} (hs : s < f.framesInClass i)
    (hslot : slot < f.framesInClass classId) :
    f.frameAddr i s = f.frameAddr classId slot ↔ i = classId ∧ s = slot := by
  obtain ⟨d, hd, hs⟩ := lt_framesInClass.mp hs
  obtain ⟨c, hc, hslot⟩ := lt_framesInClass.mp hslot
  constructor
  · intro heq
    refine frame_eq hf hd hs hc hslot (a := f.frameAddr i s) ⟨Nat.le_refl _, ?_⟩ ?_
    · exact Nat.lt_add_of_pos_right frameSize_pos
    · rw [heq]
      exact ⟨Nat.le_refl _, Nat.lt_add_of_pos_right frameSize_pos⟩
  · rintro ⟨rfl, rfl⟩
    rfl

theorem View.Changes.framesInClass {v w : View} (hv : v.WF) (h : View.Changes v w) (classId : Nat) :
    w.stack.framesInClass classId = v.stack.framesInClass classId := by
  have hwf := h.wf
  obtain ⟨_, _, h⟩ := h
  rw [hwf.stack.framesInClass_eq, hv.stack.framesInClass_eq, h.sizeLog_eq]

end Places

/-- The mark of a frame that somebody has or that is free. -/
def frameMark : Option Nat → UInt8
  | some _ => 0
  | none => Shadow.Magic.stackAfterReturn.byte

namespace View

variable {marked : Prop} {v w : View} {owner? : Nat → Option Nat} {cursor : Nat → Nat} {classId slot : Nat}
  {c : FrameClass}

/-- The frames have the owners that are told by their addresses, and marks that show it unless the shadow is
    `marked` by hand; the searches begin at the cursors of the classes; and a class of which somebody has a
    frame counts as used. -/
structure Matches (marked : Prop) (owner? : Nat → Option Nat) (cursor : Nat → Nat) (v : View) : Prop where
  wf : v.WF
  owner : ∀ i s, s < v.stack.framesInClass i → v.stack.owner? i s = owner? (v.stack.frameAddr i s)
  cursor : ∀ i c, v.stack.classes[i]? = some c → c.hint % c.frames = cursor i % c.frames
  used : ∀ i s c, (v.stack.owner? i s).isSome = true → v.stack.classes[i]? = some c → c.used = true
  marks : ¬ marked → ∀ i s, s < v.stack.framesInClass i → ∀ a ∈ v.stack.frame i s,
    v.shadow.code a = frameMark (v.stack.owner? i s)

namespace Matches

theorem congr (h : Matches marked owner? cursor v) {owner?' : Nat → Option Nat} {cursor' : Nat → Nat}
    (howner : ∀ addr, owner?' addr = owner? addr)
    (hcursor : ∀ i, i < classCount → cursor' i = cursor i) : Matches marked owner?' cursor' v where
  wf := h.wf
  owner i s hs := (h.owner i s hs).trans (howner _).symm
  cursor i c hc := by
    rw [hcursor i (lt_classCount h.wf.stack hc)]
    exact h.cursor i c hc
  used := h.used
  marks := h.marks

/-- Exactly the frames that somebody has are claimed. -/
theorem claimed_iff (h : Matches marked owner? cursor v) (hc : v.stack.classes[classId]? = some c)
    (hslot : slot < c.frames) :
    c.claimed.get slot = true ↔ (owner? (v.stack.frameAddr classId slot)).isSome = true := by
  rw [← h.owner classId slot (lt_framesInClass.mpr ⟨c, hc, hslot⟩), isSome_owner? hc hslot]

theorem free_iff (h : Matches marked owner? cursor v) (hc : v.stack.classes[classId]? = some c)
    (hslot : slot < c.frames) :
    c.claimed.get slot = false ↔ owner? (v.stack.frameAddr classId slot) = none := by
  rw [← Bool.not_eq_true, h.claimed_iff hc hslot, Bool.not_eq_true, Option.isSome_eq_false_iff,
    Option.isNone_iff_eq_none]

/-- The search finds the first frame from the cursor on and around that nobody has, … -/
theorem isLeast_freeFrame? (h : Matches marked owner? cursor v) (hc : v.stack.classes[classId]? = some c)
    (hfind : freeFrame? c (c.hint % c.frames) = some slot) :
    ∃ k, IsLeast {k | owner? (v.stack.frameAddr classId ((cursor classId + k) % c.frames)) = none} k
      ∧ slot = (cursor classId + k) % c.frames := by
  have hpos := h.wf.frames_pos hc
  have hat : ∀ k, (c.hint % c.frames + k) % c.frames = (cursor classId + k) % c.frames := fun k => by
    rw [Nat.mod_add_mod]
    exact Nat.ModEq.add_right k (h.cursor classId c hc)
  obtain ⟨k, hleast, hslot⟩ :=
    FakeStack.isLeast_freeFrame? (frames_lt_span h.wf.stack hc) (Nat.mod_lt _ hpos) hfind
  refine ⟨k, ?_, hslot.trans (hat k)⟩
  convert hleast using 3 with j
  rw [hat j]
  exact (h.free_iff hc (Nat.mod_lt _ hpos)).symm

/-- … and finds none only if somebody has each of them. -/
theorem of_freeFrame?_none (h : Matches marked owner? cursor v) (hc : v.stack.classes[classId]? = some c)
    (hfind : freeFrame? c (c.hint % c.frames) = none) (hslot : slot < c.frames) :
    (owner? (v.stack.frameAddr classId slot)).isSome = true :=
  (h.claimed_iff hc hslot).mp (claimed_of_freeFrame? (frames_lt_span h.wf.stack hc) hfind hslot)

/-- As no frame hides in a class that was not used, a collection misses none. -/
theorem mem_swept (h : Matches marked owner? cursor v) {realStack : Nat} {p : Nat × Nat} :
    p ∈ v.stack.swept realStack ↔ ∃ owner < realStack, v.stack.owner? p.1 p.2 = some owner := by
  rw [View.mem_swept h.wf]
  constructor
  · rintro ⟨c, -, -, howner⟩
    exact howner
  · rintro ⟨owner, hlt, howner⟩
    obtain ⟨c, hc, -⟩ := FakeStack.owner?_eq_some.mp howner
    exact ⟨c, hc, h.used _ _ c (Option.isSome_iff_exists.mpr ⟨owner, howner⟩) hc, owner, hlt, howner⟩

/-- Frames that are given back have no owners any more. -/
theorem sheds (h : Matches marked owner? cursor v) {gone : Set (Nat × Nat)} {freed collected : Nat}
    (hw : Sheds gone freed collected v w) {owner?' : Nat → Option Nat}
    (howner : ∀ i s, s < v.stack.framesInClass i → ∀ x, owner?' (v.stack.frameAddr i s) = some x ↔
      owner? (v.stack.frameAddr i s) = some x ∧ (i, s) ∉ gone) : Matches marked owner?' cursor w where
  wf := hw.wf
  owner i s hs := by
    rw [hw.settles.changes.framesInClass h.wf] at hs
    refine Option.ext fun x => ?_
    rw [hw.owner?_eq_some h.wf, hw.settles.changes.frameAddr, howner i s hs, h.owner i s hs]
  cursor i d hd := by
    obtain ⟨c, claimed, hc, rfl, -⟩ := hw.of_class h.wf hd
    exact h.cursor i c hc
  used i s d hsome hd := by
    obtain ⟨c, claimed, hc, rfl, -⟩ := hw.of_class h.wf hd
    obtain ⟨x, hx⟩ := Option.isSome_iff_exists.mp hsome
    exact h.used i s c (Option.isSome_iff_exists.mpr ⟨x, ((hw.owner?_eq_some h.wf).mp hx).1⟩) hc
  marks hcalm i s hs a ha := by
    rw [hw.settles.changes.framesInClass h.wf] at hs
    rw [hw.settles.changes.frame] at ha
    obtain ⟨c, hc, hslot⟩ := lt_framesInClass.mp hs
    by_cases hgone : (i, s) ∈ gone
    · have hnone : w.stack.owner? i s = none :=
        Option.eq_none_iff_forall_ne_some.mpr fun x hx => ((hw.owner?_eq_some h.wf).mp hx).2 hgone
      rw [hnone]
      exact hw.poisoned _ hgone a ha
    · have hsame : w.stack.owner? i s = v.stack.owner? i s := by
        refine Option.ext fun x => ?_
        rw [hw.owner?_eq_some h.wf, and_iff_left hgone]
      rw [hsame, ← h.marks hcalm i s hs a ha]
      refine hw.kept a (h.wf.lt_limit hc hslot ha) fun p hp hin => hgone ?_
      -- The frame that the address lies in is not one of those.
      obtain ⟨x, hx⟩ := Option.isSome_iff_exists.mp (hw.claimed p hp)
      obtain ⟨d, hd, hlt, -⟩ := FakeStack.owner?_eq_some.mp hx
      obtain ⟨rfl, rfl⟩ := frame_eq h.wf.stack hc hslot hd hlt ha hin
      exact hp

/-- A frame that is claimed has its owner, and the next search begins behind it. -/
theorem taken (h : Matches marked owner? cursor v) (hc : v.stack.classes[classId]? = some c)
    (hslot : slot < c.frames) (hfree : c.claimed.get slot = false) (realStack : Nat) :
    Matches marked (fun addr => if v.stack.frameAddr classId slot = addr then some realStack else owner? addr)
      (fun i => if classId = i then slot + 1 else cursor i) (v.taken classId slot realStack c) where
  wf := (settles_taken h.wf hc hslot hfree realStack).wf
  owner i s hs := by
    have hchanges := (settles_taken h.wf hc hslot hfree realStack).changes
    rw [hchanges.framesInClass h.wf] at hs
    rw [owner?_taken h.wf hc hslot, hchanges.frameAddr, h.owner i s hs]
    refine if_congr ?_ rfl rfl
    rw [eq_comm (a := v.stack.frameAddr classId slot)]
    exact (frameAddr_inj h.wf.stack hs (lt_framesInClass.mpr ⟨c, hc, hslot⟩)).symm
  cursor i d hd := by
    have hd := (getElem?_setClass hc).symm.trans hd
    by_cases hi : i = classId
    · rw [if_pos hi] at hd
      rw [if_pos hi.symm, ← Option.some.inj hd]
    · rw [if_neg hi] at hd
      rw [if_neg (Ne.symm hi)]
      exact h.cursor i d hd
  used i s d hsome hd := by
    have hd := (getElem?_setClass hc).symm.trans hd
    by_cases hi : i = classId
    · rw [if_pos hi] at hd
      rw [← Option.some.inj hd]
    · rw [if_neg hi] at hd
      rw [owner?_taken h.wf hc hslot, if_neg fun heq => hi heq.1] at hsome
      exact h.used i s d hsome hd
  marks hcalm i s hs a ha := by
    have hchanges := (settles_taken h.wf hc hslot hfree realStack).changes
    rw [hchanges.framesInClass h.wf] at hs
    rw [hchanges.frame] at ha
    obtain ⟨d, hd, hlt⟩ := lt_framesInClass.mp hs
    rw [owner?_taken h.wf hc hslot]
    -- In the new frame the mark is zero for its owner, and all other frames keep theirs.
    by_cases heq : i = classId ∧ s = slot
    · obtain ⟨rfl, rfl⟩ := heq
      rw [if_pos ⟨rfl, rfl⟩]
      exact code_frame h.wf hc hslot ha
    · rw [if_neg heq, ← h.marks hcalm i s hs a ha]
      exact code_beside h.wf (h.wf.lt_limit hd hlt ha) fun hin =>
        heq (frame_eq h.wf.stack hd hlt hc hslot ha hin)

/-- A search that finds nothing moves the cursor. -/
theorem missed (h : Matches marked owner? cursor v) (hc : v.stack.classes[classId]? = some c) :
    Matches marked owner? (fun i => if classId = i then cursor i + 1 else cursor i) (v.missed classId c) := by
  have hchanges := (settles_missed h.wf hc).changes
  constructor
  case wf => exact (settles_missed h.wf hc).wf
  case owner =>
    intro i s hs
    rw [hchanges.framesInClass h.wf] at hs
    rw [owner?_missed hc, hchanges.frameAddr, h.owner i s hs]
  case cursor =>
    intro i d hd
    have hd := (getElem?_setClass hc).symm.trans hd
    by_cases hi : i = classId
    · subst hi
      rw [if_pos rfl] at hd ⊢
      rw [← Option.some.inj hd]
      -- The number of frames divides the word, so the counter may wrap around.
      have hdvd : c.frames ∣ Word.limit := by
        rw [h.wf.stack.frames i c hc]
        refine Word.powerOfTwo_dvd (k := 64) ?_
        have hmax := h.wf.stack.le_max
        simp only [maxSizeLog] at hmax
        omega
      show (c.hint + 1) % Word.limit % c.frames = _
      rw [Nat.mod_mod_of_dvd _ hdvd]
      exact Nat.ModEq.add_right 1 (h.cursor i c hc)
    · rw [if_neg hi] at hd
      rw [if_neg (Ne.symm hi)]
      exact h.cursor i d hd
  case used =>
    intro i s d hsome hd
    rw [owner?_missed hc] at hsome
    have hd := (getElem?_setClass hc).symm.trans hd
    by_cases hi : i = classId
    · subst hi
      rw [if_pos rfl] at hd
      rw [← Option.some.inj hd]
      exact h.used i s c hsome hc
    · rw [if_neg hi] at hd
      exact h.used i s d hsome hd
  case marks =>
    intro hcalm i s hs a ha
    rw [hchanges.framesInClass h.wf] at hs
    rw [hchanges.frame] at ha
    rw [owner?_missed hc]
    exact h.marks hcalm i s hs a ha

end Matches

end View

/-! ## Calls in a history -/

namespace History

variable {past : History} {call : Call} {addr : Nat}

theorem left?_eq_some {owner : Nat} :
    past.left? call addr = some owner ↔ past.owner? addr = some owner ∧ past.sweep call ≤ owner := by
  unfold left?
  rw [Option.filter_eq_some_iff, decide_eq_true_iff]

theorem left?_of_sweep (h : past.sweep call = 0) : past.left? call addr = past.owner? addr := by
  refine Option.ext fun x => ?_
  rw [left?_eq_some, h, and_iff_left (Nat.zero_le x)]

end History

/-- The history of a fake stack tells what it holds. -/
structure Tells (marked : Prop) (past : History) (v : View) : Prop where
  armed : v.stack.needsGc = past.armed
  held : v.Matches marked (fun addr => past.owner? addr) fun i => past.cursor (v.stack.classBegin i) i

namespace Tells

variable {marked : Prop} {past : History} {v : View}

open View

/-- Giving a frame back takes it from its owner. -/
theorem ends_free (h : Tells marked past v) (addr classId : Nat) : Ends (Call.free addr classId).perform v
    (fun n w => Tells marked ((.free addr classId, .ok n) :: past) w)
    fun e w => Tells marked ((.free addr classId, .error e) :: past) w := by
  have hleft : ∀ a, past.left? (.free addr classId) a = past.owner? a := fun a =>
    History.left?_of_sweep rfl
  unfold Call.perform
  rw [ends_map]
  refine ends_free_of h.held.wf addr (fun c slot hc hslot hclaimed haddr => ?_) fun e _ _ => ⟨h.armed, ?_⟩
  · have hw := sheds_freed h.held.wf hc hslot hclaimed
    refine ⟨h.armed, h.held.sheds hw fun i s hs x => ?_⟩
    have hinj := frameAddr_inj h.held.wf.stack (lt_framesInClass.mpr ⟨c, hc, hslot⟩) hs
    show (if addr = _ then none else past.left? (.free addr classId) _) = some x ↔ _
    rw [hleft, haddr]
    by_cases heq : v.stack.frameAddr classId slot = v.stack.frameAddr i s
    · obtain ⟨rfl, rfl⟩ := hinj.mp heq
      rw [if_pos rfl]
      exact ⟨nofun, fun hin => absurd rfl hin.2⟩
    · rw [if_neg heq]
      refine (and_iff_left fun hin => heq (hinj.mpr ?_)).symm
      exact ⟨(congrArg Prod.fst hin).symm, (congrArg Prod.snd hin).symm⟩
  · exact h.held.congr (fun a => hleft a) fun _ _ => rfl

/-- What a call collects is taken from the owners that lie too deep. -/
theorem left (h : Tells marked past v) (call : Call) {gone : Set (Nat × Nat)} {freed collected : Nat} {w : View}
    (hw : Sheds gone freed collected v w)
    (hgone : ∀ p, p ∈ gone ↔ ∃ owner < past.sweep call, v.stack.owner? p.1 p.2 = some owner) :
    w.Matches marked (past.left? call) fun i => past.cursor (w.stack.classBegin i) i := by
  have hmatches : w.Matches marked (past.left? call) fun i => past.cursor (v.stack.classBegin i) i := by
    refine h.held.sheds hw fun i s hs x => ?_
    rw [History.left?_eq_some]
    refine and_congr_right fun howner => ?_
    rw [hgone, h.held.owner i s hs, howner]
    constructor
    · rintro hle ⟨y, hlt, hy⟩
      obtain rfl := Option.some.inj hy
      exact Nat.not_lt.mpr hle hlt
    · exact fun hnot => Nat.not_lt.mp fun hlt => hnot ⟨x, hlt, rfl⟩
  refine hmatches.congr (fun _ => rfl) fun i _ => ?_
  rw [hw.settles.changes.classBegin]

/-- Collecting takes frames from their owners. -/
theorem ends_gc (h : Tells marked past v) (realStack : Nat) : Ends (Call.gc realStack).perform v
    (fun n w => Tells marked ((.gc realStack, .ok n) :: past) w) fun _ _ => False := by
  refine ((View.ends_gc h.held.wf).and_leaves ((fixes_gc_needsGc realStack).leaves_eq h.armed)).imp ?_
    fun _ _ hno => hno.1
  rintro n w ⟨hw, harmed⟩
  exact ⟨harmed, h.left (.gc realStack) hw fun p => h.held.mem_swept⟩

/-- Leaving frames behind arms the next allocation. -/
theorem ends_noReturn (h : Tells marked past v) : Ends Call.noReturn.perform v
    (fun n w => Tells marked ((.noReturn, .ok n) :: past) w) fun _ _ => False := by
  refine ends_map.mpr (ends_modify.mpr ⟨rfl, ?_⟩)
  have hw : Sheds ∅ 0 0 v { v with stack := v.stack.noReturn } := .of_classes h.held.wf rfl rfl rfl rfl
  refine (h.left .noReturn hw fun p => ?_).congr (fun _ => rfl) fun _ _ => rfl
  exact ⟨fun hp => hp.elim, fun ⟨_, hlt, _⟩ => absurd hlt (Nat.not_lt_zero _)⟩

/-- An allocation from a class that there is searches what the collection that was due has left. -/
theorem ends_allocate_of (h : Tells marked past v) {classId realStack : Nat} {ok : Nat → View → Prop}
    {no : FakeStackError → View → Prop} (hnone : classCount ≤ classId → no (.invalidClass classId) v)
    (hnext : ∀ w, w.stack.needsGc = false → View.Changes v w → classId < classCount →
      w.Matches marked (past.left? (.allocate classId realStack)) (fun i => past.cursor (w.stack.classBegin i) i) →
      Ends (claimFree classId realStack) w ok no) :
    Ends (Call.allocate classId realStack).perform v ok no := by
  refine View.ends_allocate_of h.held.wf (fun hc => hnone ?_) fun n w hw harmed hclass => ?_
  · exact h.held.wf.stack.size ▸ Array.getElem?_eq_none_iff.mp hc
  refine hnext w harmed hw.settles.changes hclass (h.left _ hw fun p => ?_)
  show v.stack.needsGc = true ∧ p ∈ v.stack.swept realStack ↔ _
  rw [h.armed, h.held.mem_swept]
  show _ ↔ ∃ owner < (if classId < classCount ∧ past.armed = true then realStack else 0), _
  by_cases hdue : past.armed = true
  · rw [if_pos ⟨hclass, hdue⟩, and_iff_right hdue]
  · rw [if_neg fun hboth => hdue hboth.2]
    exact iff_of_false (fun hboth => hdue hboth.1) fun ⟨_, hlt, _⟩ => Nat.not_lt_zero _ hlt

/-- An allocation gives the frame that it finds to its owner. -/
theorem ends_allocate (h : Tells marked past v) (classId realStack : Nat) :
    Ends (Call.allocate classId realStack).perform v
      (fun n w => Tells marked ((.allocate classId realStack, .ok n) :: past) w)
      fun e w => Tells marked ((.allocate classId realStack, .error e) :: past) w := by
  refine h.ends_allocate_of (fun hclass => ⟨?_, ?_⟩) fun w harmed _ hclass hheld => ?_
  · show v.stack.needsGc = (decide (classCount ≤ classId) && past.armed)
    rw [decide_eq_true hclass, Bool.true_and, h.armed]
  · have hsweep : past.sweep (.allocate classId realStack) = 0 :=
      if_neg fun hboth => Nat.not_lt.mpr hclass hboth.1
    exact h.held.congr (fun _ => History.left?_of_sweep hsweep) fun i hi => if_neg (by omega)
  · have hdisarmed : w.stack.needsGc = (decide (classCount ≤ classId) && past.armed) := by
      rw [decide_eq_false (Nat.not_le.mpr hclass), Bool.false_and, harmed]
    have hc := Array.getElem?_eq_getElem (hheld.wf.stack.size.symm ▸ hclass)
    refine ends_claimFree hheld.wf hc (fun slot hslot hfree _ => ⟨hdisarmed, ?_⟩)
      fun _ => ⟨hdisarmed, ?_⟩
    · refine (hheld.taken hc hslot hfree realStack).congr (fun _ => rfl) fun i _ => ?_
      have hback : (w.stack.frameAddr classId slot - w.stack.classBegin classId) / frameSize classId
          = slot := by
        unfold frameAddr
        rw [Nat.add_sub_cancel_left, Nat.mul_div_cancel slot frameSize_pos]
      refine if_ctx_congr Iff.rfl (fun heq => ?_) fun _ => rfl
      subst heq
      exact congrArg (· + 1) hback
    · exact (hheld.missed hc).congr (fun _ => rfl) fun _ _ => rfl

/-- Whatever is called, the history goes on to tell what the fake stack holds. -/
theorem ends_perform (h : Tells marked past v) (call : Call) : Ends call.perform v
    (fun n w => Tells marked ((call, .ok n) :: past) w) fun e w => Tells marked ((call, .error e) :: past) w := by
  cases call with
  | allocate classId realStack => exact h.ends_allocate classId realStack
  | free addr classId => exact h.ends_free addr classId
  | noReturn => exact h.ends_noReturn.imp (fun _ _ hok => hok) fun _ _ hno => hno.elim
  | gc realStack => exact (h.ends_gc realStack).imp (fun _ _ hok => hok) fun _ _ hno => hno.elim

end Tells

/-! ## Runs -/

/-- A fake stack after any calls on it.  What happens elsewhere may mark the shadow, but the fake stack only
    if users mark it by hand. -/
inductive StackRun (marked : Prop) : History → View → Prop where
  | created {sizeLog : Nat} {h t : Heap} {f : FakeStack} (hheap : h.WF)
      (hcreate : create sizeLog h = .ok f t) : StackRun marked [] ⟨f, t.shadow⟩
  | called {past : History} {v w : View} {call : Call} {answer : Except FakeStackError Nat}
      (hrun : StackRun marked past v)
      (hact : (Act.attempt call.perform : Act Empty View (Except FakeStackError Nat)) v = .ok answer w) :
      StackRun marked ((call, answer) :: past) w
  | elsewhere {past : History} {v : View} {shadow : Shadow} (hrun : StackRun marked past v)
      (hrange : Shadow.SameRange v.shadow shadow)
      (hkept : ¬ marked → ∀ a ∈ v.stack.range, shadow.code a = v.shadow.code a) :
      StackRun marked past { v with shadow }

/-- A fresh fake stack matches that nothing was called. -/
theorem tells_fresh {marked : Prop} {h : Heap} (hwf : h.WF) (sizeLog : Nat) :
    Ends (create sizeLog) h (fun f t => Tells marked [] ⟨f, t.shadow⟩) fun _ _ => True := by
  refine ends_create_of hwf (fun _ => trivial) (fun _ _ _ _ _ => trivial)
    fun hmin hmax begin t _ hgrown hbegin hlo hhi => ⟨rfl, ?_⟩
  have hl := hgrown.wf.layout
  have howner : ∀ i s, (fresh begin sizeLog).owner? i s = none := fun i s =>
    Option.eq_none_iff_forall_ne_some.mpr fun x hx => by
      obtain ⟨c, hc, -, hclaimed, -⟩ := owner?_eq_some.mp hx
      rw [getElem?_fresh hc, RangeMap.get_const] at hclaimed
      exact nomatch hclaimed
  have hrange := Shadow.poisoned_sameRange t.shadow begin (totalSize sizeLog)
    Shadow.Magic.stackAfterReturn.byte
  have hstack := (fresh_spec begin hmin hmax).1
  constructor
  case wf =>
    exact
      { stack := hstack
        begin_dvd := hbegin
        begin_le := by rw [hrange.appBegin, hl.shadow_begin]; exact hlo
        past_le := by rw [hrange.appEnd, hl.shadow_end]; exact hhi
        end_le := by rw [hrange.appEnd, hl.shadow_end]; exact Nat.le_of_lt hl.end_lt }
  case owner => exact fun i s _ => howner i s
  case cursor =>
    intro i c hc
    rw [getElem?_fresh hc]
    rfl
  case used =>
    intro i s c hsome
    rw [howner] at hsome
    exact nomatch hsome
  case marks =>
    intro hcalm i s hs a ha
    obtain ⟨c, hc, hslot⟩ := lt_framesInClass.mp hs
    have hin := frame_subset hstack hc hslot ha
    have hlt : a < Word.limit := Nat.lt_trans hin.2 (Nat.lt_of_le_of_lt hhi hl.end_lt)
    rw [howner]
    exact Shadow.code_poisoned hbegin (granule_dvd_totalSize sizeLog hmin) hlt hin

/-- The frames are apart from each other, and claimed and marked as the history tells. -/
structure View.Lays (marked : Prop) (past : History) (v : View) : Prop where
  /-- Different frames are disjoint, … -/
  disjoint : ∀ i s j t, s < v.stack.framesInClass i → t < v.stack.framesInClass j → (i, s) ≠ (j, t) →
    Disjoint (v.stack.frame i s) (v.stack.frame j t)
  /-- … and lie in the fake stack. -/
  subset : ∀ i s, s < v.stack.framesInClass i → v.stack.frame i s ⊆ Set.Ico v.stack.begin v.stack.past
  /-- Exactly the frames that somebody has are claimed, for their owners. -/
  claimed : ∀ i s c, v.stack.classes[i]? = some c → s < c.frames →
    (c.claimed.get s = true ↔ (past.owner? (v.stack.frameAddr i s)).isSome = true)
  owner : ∀ i s, s < v.stack.framesInClass i → v.stack.owner? i s = past.owner? (v.stack.frameAddr i s)
  /-- Unless users have marked it by hand, all bytes of a claimed frame can be accessed, … -/
  addressable : ¬ marked → ∀ i s, s < v.stack.framesInClass i →
    (past.owner? (v.stack.frameAddr i s)).isSome = true →
      ∀ a ∈ v.stack.frame i s, v.shadow.Addressable a
  /-- … and all bytes of another one are marked as left behind. -/
  poisoned : ¬ marked → ∀ i s, s < v.stack.framesInClass i → past.owner? (v.stack.frameAddr i s) = none →
    ∀ a ∈ v.stack.frame i s, v.shadow.code a = Shadow.Magic.stackAfterReturn.byte

/-- The calls answer what the history tells. -/
structure View.Answers (past : History) (v : View) : Prop where
  /-- There is no frame in a class that there is not. -/
  allocate_invalid : ∀ classId realStack, classCount ≤ classId →
    Ends (View.allocate classId realStack) v (fun _ _ => False)
      fun e w => e = .invalidClass classId ∧ w = v
  /-- From a class that there is comes the first frame from the cursor on and around that nobody has once the
      collection that is due was made, or none if somebody has each of them. -/
  allocate : ∀ classId realStack, classId < classCount → Ends (View.allocate classId realStack) v
    (fun addr _ => ∃ k, IsLeast {k | past.left? (.allocate classId realStack) (v.stack.frameAddr classId
          ((past.cursor (v.stack.classBegin classId) classId + k) % v.stack.framesInClass classId)) = none} k
      ∧ addr = v.stack.frameAddr classId
          ((past.cursor (v.stack.classBegin classId) classId + k) % v.stack.framesInClass classId))
    fun e _ => e = .exhausted classId ∧ ∀ s < v.stack.framesInClass classId,
      (past.left? (.allocate classId realStack) (v.stack.frameAddr classId s)).isSome = true
  /-- A frame of the class that somebody has is given back; everything else changes nothing. -/
  free : ∀ addr classId, Ends (View.free addr classId) v
    (fun _ _ => (past.owner? addr).isSome = true
      ∧ ∃ s < v.stack.framesInClass classId, addr = v.stack.frameAddr classId s)
    fun _ w => w = v ∧ ¬ ((past.owner? addr).isSome = true
      ∧ ∃ s < v.stack.framesInClass classId, addr = v.stack.frameAddr classId s)
  gc : ∀ realStack, Ends (View.gc realStack) v (fun _ _ => True) fun _ _ => False

theorem Tells.lays {marked : Prop} {past : History} {v : View} (h : Tells marked past v) : v.Lays marked past where
  disjoint i s j t hs ht hne := by
    obtain ⟨c, hc, hs⟩ := lt_framesInClass.mp hs
    obtain ⟨d, hd, ht⟩ := lt_framesInClass.mp ht
    refine Set.disjoint_left.mpr fun a ha ha' => hne ?_
    obtain ⟨rfl, rfl⟩ := frame_eq h.held.wf.stack hc hs hd ht ha ha'
    rfl
  subset i s hs := by
    obtain ⟨c, hc, hs⟩ := lt_framesInClass.mp hs
    exact frame_subset h.held.wf.stack hc hs
  claimed i s c hc hs := h.held.claimed_iff hc hs
  owner := h.held.owner
  addressable hcalm i s hs hsome a ha := by
    have hmark := h.held.marks hcalm i s hs a ha
    rw [h.held.owner i s hs] at hmark
    obtain ⟨x, hx⟩ := Option.isSome_iff_exists.mp hsome
    rw [hx] at hmark
    rw [Shadow.addressable_iff_code, hmark]
    exact Nat.mod_lt a (by decide)
  poisoned hcalm i s hs hnone a ha := by
    have hmark := h.held.marks hcalm i s hs a ha
    rwa [h.held.owner i s hs, hnone] at hmark

theorem Tells.answers {marked : Prop} {past : History} {v : View} (h : Tells marked past v) : v.Answers past where
  allocate_invalid classId realStack hclass :=
    h.ends_allocate_of (fun _ => ⟨rfl, rfl⟩) fun _ _ _ hlt _ => absurd hclass (Nat.not_le.mpr hlt)
  allocate classId realStack hclass := by
    refine h.ends_allocate_of (fun hout => absurd hclass (Nat.not_lt.mpr hout))
      fun w _ hchanges _ hheld => ?_
    have hc := Array.getElem?_eq_getElem (hheld.wf.stack.size.symm ▸ hclass)
    have hframes := FakeStack.framesInClass_eq hc
    rw [hchanges.framesInClass h.held.wf] at hframes
    refine View.ends_claimFree hheld.wf hc (fun slot hslot _ hfind => ?_) fun hfind => ⟨rfl, fun s hs => ?_⟩
    · obtain ⟨k, hleast, rfl⟩ := hheld.isLeast_freeFrame? hc hfind
      rw [hframes]
      simp only [hchanges.frameAddr, hchanges.classBegin] at hleast ⊢
      exact ⟨k, hleast, rfl⟩
    · rw [← hchanges.frameAddr]
      exact hheld.of_freeFrame?_none hc hfind (hframes ▸ hs)
  free addr classId := by
    refine View.ends_free_of h.held.wf addr (fun c slot hc hslot hclaimed haddr => ?_)
      fun e hout _ => ⟨rfl, ?_⟩
    · subst haddr
      exact ⟨(h.held.claimed_iff hc hslot).mp hclaimed, slot, lt_framesInClass.mpr ⟨c, hc, hslot⟩, rfl⟩
    · rintro ⟨hsome, s, hs, rfl⟩
      obtain ⟨c, hc, hs⟩ := lt_framesInClass.mp hs
      exact hout ⟨c, s, hc, hs, (h.held.claimed_iff hc hs).mpr hsome, rfl⟩
  gc realStack := (h.ends_gc realStack).imp (fun _ _ _ => trivial) fun _ _ hno => hno

namespace StackRun

variable {marked : Prop} {past : History} {v : View}

/-- After any calls the history tells what the fake stack holds. -/
theorem tells (hrun : StackRun marked past v) : Tells marked past v := by
  induction hrun with
  | created hheap hcreate => exact (tells_fresh hheap _).of_ok hcreate
  | @called past v w call answer _ hact ih =>
      rcases attempt_eq_ok.mp hact with ⟨n, rfl, hok⟩ | ⟨e, rfl, hno⟩
      · exact (ih.ends_perform call).of_ok hok
      · exact (ih.ends_perform call).of_refused hno
  | @elsewhere past v shadow _ hrange hkept ih =>
      have hv := ih.held.wf
      exact
        { armed := ih.armed
          held :=
            { wf :=
                { hv with
                  begin_le := hrange.appBegin ▸ hv.begin_le
                  past_le := hrange.appEnd ▸ hv.past_le
                  end_le := hrange.appEnd ▸ hv.end_le }
              owner := ih.held.owner
              cursor := ih.held.cursor
              used := ih.held.used
              marks := fun hcalm i s hs a ha => by
                obtain ⟨c, hc, hslot⟩ := lt_framesInClass.mp hs
                exact (hkept hcalm a (frame_subset hv.stack hc hslot ha)).trans (ih.held.marks hcalm i s hs a ha) } }

/-- Some calls after each other. -/
def follow (past : History) (v : View) : List Call → Option (History × View)
  | [] => some (past, v)
  | call :: rest =>
    (returned? (attempt call.perform : Act Empty View (Except FakeStackError Nat)) v).bind fun r =>
      follow ((call, r.1) :: past) r.2 rest

/-- A fake stack of a small heap, after some calls. -/
def played (sizeLog : Nat) (calls : List Call) : Option (History × View) :=
  (returned? (Heap.create .compact 20 24) {}).bind fun heap =>
    (returned? (create sizeLog) heap.1).bind fun made => follow [] ⟨made.1, made.2.shadow⟩ calls

theorem follow_calls (hrun : StackRun marked past v) {calls : List Call} {r : History × View}
    (h : follow past v calls = some r) : StackRun marked r.1 r.2 := by
  induction calls generalizing past v with
  | nil =>
      obtain rfl := Option.some.inj h
      exact hrun
  | cons call rest ih =>
      obtain ⟨answered, hanswered, hrest⟩ := Option.bind_eq_some_iff.mp h
      exact ih (hrun.called (of_returned? hanswered)) hrest

variable (marked) in
/-- What passes a check can be found by playing. -/
theorem of_played {sizeLog : Nat} {calls : List Call} {check : History × View → Bool}
    (h : (played sizeLog calls).any check = true) :
    ∃ past v, StackRun marked past v ∧ check (past, v) = true := by
  obtain ⟨r, hr, hcheck⟩ := (Option.any_eq_true _ _).mp h
  obtain ⟨heap, hheap, hmade⟩ := Option.bind_eq_some_iff.mp hr
  obtain ⟨made, hcreate, hcalls⟩ := Option.bind_eq_some_iff.mp hmade
  have hwf := ((Heap.endsOrStops_create (p := {}) SizeClasses.valid_compact (by decide) (by decide)
    (by decide)).of_ok (of_returned? hheap)).1
  exact ⟨_, _, follow_calls (.created hwf (of_returned? hcreate)) hcalls, hcheck⟩

/-- After any calls the frames are where they should be and as the calls tell, and the next call answers what
    they tell. -/
theorem lays_and_answers (hrun : StackRun marked past v) : v.Lays marked past ∧ v.Answers past :=
  ⟨hrun.tells.lays, hrun.tells.answers⟩

/-- Of three frames of two classes, the next allocation collects the two whose owners lie deeper. -/
theorem lays_and_answers_noReturn : ∃ past v, StackRun False past v ∧ v.Lays False past ∧ v.Answers past
    ∧ past.owner? (v.stack.frameAddr 0 0) = some 0x1000 ∧ past.owner? (v.stack.frameAddr 1 0) = some 0x800
    ∧ past.owner? (v.stack.frameAddr 0 1) = some 0x4000
    ∧ past.left? (.allocate 3 0x2000) (v.stack.frameAddr 0 0) = none
    ∧ past.left? (.allocate 3 0x2000) (v.stack.frameAddr 1 0) = none
    ∧ past.left? (.allocate 3 0x2000) (v.stack.frameAddr 0 1) = some 0x4000 := by
  obtain ⟨past, v, hrun, hcheck⟩ := of_played False
    (show (played 16 [.allocate 0 0x1000, .allocate 1 0x800, .allocate 0 0x4000, .noReturn]).any
      (fun r => decide (r.1.owner? (r.2.stack.frameAddr 0 0) = some 0x1000
        ∧ r.1.owner? (r.2.stack.frameAddr 1 0) = some 0x800
        ∧ r.1.owner? (r.2.stack.frameAddr 0 1) = some 0x4000
        ∧ r.1.left? (.allocate 3 0x2000) (r.2.stack.frameAddr 0 0) = none
        ∧ r.1.left? (.allocate 3 0x2000) (r.2.stack.frameAddr 1 0) = none
        ∧ r.1.left? (.allocate 3 0x2000) (r.2.stack.frameAddr 0 1) = some 0x4000)) = true by decide +kernel)
  obtain ⟨hlays, hanswers⟩ := hrun.lays_and_answers
  exact ⟨past, v, hrun, hlays, hanswers, of_decide_eq_true hcheck⟩

end StackRun

end FakeStack

end GuardedHeap
