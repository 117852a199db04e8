import GuardedHeap.Proofs.FakeStack.Collection

/-! # Loops over frames — one frame after the other

    `View.freeFrame?` and `View.gc` go by the runs of equal flags, so that
    they need not look at every frame.  Here are the loops that do:
    `View.probe` looks at one frame a step, from a first one on and around,
    and `View.sweep` at every frame of every used class, giving back those
    that were abandoned as it meets them.  They find and collect the same
    frames (`View.freeFrame?_eq_probe`, `View.gc_eq_sweep`). -/

namespace GuardedHeap

/-- The indices of a range from zero on are found one by one. -/
theorem RangeMap.indices_eq_filter {α : Type} {p : α → Bool} {m : RangeMap α} {n : Nat} (h : n ≤ span) :
    m.indices 0 n p = (List.range n).filter fun i => p (m.get i) := by
  have hsorted : (m.indices 0 n p).Pairwise (· < ·) := indicesOfRuns_pairwise p 0 _
  have hsorted' : ((List.range n).filter fun i => p (m.get i)).Pairwise (· < ·) :=
    List.pairwise_lt_range.filter _
  have hperm : (m.indices 0 n p).Perm ((List.range n).filter fun i => p (m.get i)) := by
    refine (List.perm_ext_iff_of_nodup (nodup_indices p m 0 n) (List.nodup_range.filter _)).mpr fun i => ?_
    rw [mem_indices h, List.mem_filter, List.mem_range]
    exact and_iff_right (Nat.zero_le i)
  exact hperm.eq_of_pairwise (fun i j _ _ hlt hgt => absurd hgt (Nat.lt_asymm hlt)) hsorted hsorted'

namespace FakeStack

open Act

namespace View

/-! ## The search -/

/-- Look at `n` frames of a class, one a step, around from the one at `start`, the first of them after
    `step` steps. -/
def probe (c : FrameClass) (start : Nat) : (n step : Nat) → Option Nat
  | 0, _ => none
  | n + 1, step =>
    let slot := (start + step) % c.frames
    if c.claimed.get slot then probe c start n (step + 1) else some slot

section Probe

variable {c : FrameClass} {start n step k : Nat}

theorem probe_of_claimed (hpos : 0 < c.frames) (h : ∀ slot < c.frames, c.claimed.get slot = true) :
    probe c start n step = none := by
  induction n generalizing step with
  | zero => rfl
  | succ n ih =>
      unfold probe
      rw [if_pos (h _ (Nat.mod_lt _ hpos))]
      exact ih

theorem probe_of_isLeast (h : IsLeast {k | c.claimed.get ((start + k) % c.frames) = false} k)
    (hstep : step ≤ k) (hn : k < step + n) : probe c start n step = some ((start + k) % c.frames) := by
  induction n generalizing step with
  | zero => omega
  | succ n ih =>
      unfold probe
      rcases Nat.eq_or_lt_of_le hstep with rfl | hlt
      · rw [if_neg (by rw [show c.claimed.get ((start + step) % c.frames) = false from h.1]; decide)]
      · have hclaimed : c.claimed.get ((start + step) % c.frames) = true := by
          by_contra hfree
          exact Nat.not_le_of_lt hlt (h.2 ((Bool.not_eq_true _).mp hfree))
        rw [if_pos hclaimed]
        exact ih hlt (by omega)

/-- A search finds what as many steps as there are frames find. -/
theorem freeFrame?_eq_probe (hspan : c.frames < RangeMap.span) (hstart : start < c.frames) :
    freeFrame? c start = probe c start c.frames 0 := by
  have hpos : 0 < c.frames := Nat.lt_of_le_of_lt (Nat.zero_le _) hstart
  cases hfind : freeFrame? c start with
  | none => exact (probe_of_claimed hpos fun slot hslot => claimed_of_freeFrame? hspan hfind hslot).symm
  | some slot =>
      obtain ⟨k, hleast, rfl⟩ := isLeast_freeFrame? hspan hstart hfind
      -- A round later the same frame is met again, so the first time is in the first round.
      have hmod : k ≤ k % c.frames := hleast.2 (by
        show c.claimed.get ((start + k % c.frames) % c.frames) = false
        rw [Nat.add_mod_mod]
        exact hleast.1)
      have hlt := Nat.lt_of_le_of_lt hmod (Nat.mod_lt k hpos)
      exact (probe_of_isLeast hleast (Nat.zero_le k) (by omega)).symm

end Probe

/-! ## The collection -/

/-- The frame is claimed by an owner below `realStack`. -/
def isAbandoned (c : FrameClass) (realStack slot : Nat) : Bool :=
  c.claimed.get slot && c.owner.get slot < realStack

/-- Go through some frames of a class and free those that are claimed by owners below `realStack`. -/
def sweepSlots (classId realStack : Nat) : List Nat → Act FakeStackError View Nat
  | [] => pure 0
  | slot :: rest => do
    let c ← frameClass classId
    if isAbandoned c realStack slot then
      freeSlot classId slot
      return 1 + (← sweepSlots classId realStack rest)
    else
      sweepSlots classId realStack rest

/-- Go through all frames of some classes, those that were never used left out. -/
def sweepClasses (realStack : Nat) : List Nat → Act FakeStackError View Nat
  | [] => pure 0
  | classId :: rest => do
    let c ← frameClass classId
    let freed ← if c.used then sweepSlots classId realStack (List.range c.frames) else pure 0
    return freed + (← sweepClasses realStack rest)

/-- Go through the frames of all classes, and count what was freed. -/
def sweep (realStack : Nat) : Act FakeStackError View Nat := do
  let count ← sweepClasses realStack (List.range (← get).stack.classes.size)
  modify fun v =>
    { v with stack := { v.stack with collected := Word.wrapAdd v.stack.collected count } }
  return count

section Sweep

variable {v : View} {c : FrameClass} {classId realStack : Nat}

theorem abandoned_eq_filter (h : c.frames < RangeMap.span) (realStack : Nat) :
    abandoned c realStack = (List.range c.frames).filter (isAbandoned c realStack) := by
  unfold abandoned
  rw [RangeMap.indices_eq_filter (Nat.le_of_lt h), List.filter_filter]
  exact List.filter_congr fun slot _ => Bool.and_comm ..

/-- A frame that is looked at is as it was before the others were freed. -/
theorem sweepSlots_eq (hv : v.WF) (hc : v.stack.classes[classId]? = some c) {slots : List Nat}
    (hnodup : slots.Nodup) (hslots : ∀ slot ∈ slots, slot < c.frames) :
    sweepSlots classId realStack slots v =
      freeSlots classId (slots.filter (isAbandoned c realStack)) v := by
  induction slots generalizing v c with
  | nil => rfl
  | cons slot rest ih =>
      obtain ⟨hout, hnodup⟩ := List.nodup_cons.mp hnodup
      obtain ⟨hslot, hrest⟩ := List.forall_mem_cons.mp hslots
      have hread : frameClass classId v = .ok c v := by
        unfold frameClass
        rw [get_bind, hc]
        rfl
      unfold sweepSlots
      rw [bind_of_ok hread]
      rw [List.filter_cons]
      by_cases hdue : isAbandoned c realStack slot = true
      · rw [if_pos hdue, if_pos hdue]
        refine bind_congr_ok rfl fun _ w hfreed => ?_
        have hclaimed : c.claimed.get slot = true := (Bool.and_eq_true_iff.mp hdue).1
        have hends : Act.Ends (freeSlot classId slot) v (fun _ w => w = v.freed classId slot c)
            fun _ _ => True := ends_freeSlot hv hc hslot rfl
        have hw := hends.of_ok hfreed
        have hc' : w.stack.classes[classId]? = some { c with claimed := c.claimed.set slot false } := by
          rw [hw]
          exact (getElem?_setClass hc).trans (if_pos rfl)
        -- The slot is not met again, so freeing it changes no answer about those that follow.
        have hstill : rest.filter (isAbandoned { c with claimed := c.claimed.set slot false } realStack) =
            rest.filter (isAbandoned c realStack) := by
          refine List.filter_congr fun s hs => ?_
          have hne : s ≠ slot := fun heq => hout (heq ▸ hs)
          unfold isAbandoned
          rw [RangeMap.get_set _ _ _ _ (Nat.lt_trans (hrest s hs) (frames_lt_span hv.stack hc)), if_neg hne]
        have hnext := ih (hw ▸ (sheds_freed hv hc hslot hclaimed).wf) hc' hnodup hrest
        rw [hstill] at hnext
        exact bind_congr_ok hnext fun _ _ _ => rfl
      · rw [if_neg hdue, if_neg hdue]
        exact ih hv hc hnodup hrest

theorem sweepClasses_eq (hv : v.WF) (classIds : List Nat) :
    sweepClasses realStack classIds v = collectClasses realStack classIds v := by
  induction classIds generalizing v with
  | nil => rfl
  | cons classId rest ih =>
      unfold sweepClasses collectClasses
      refine bind_congr_ok rfl fun c w hact => ?_
      obtain ⟨_, _, hget, hact⟩ := bind_eq_ok.mp hact
      cases hget
      obtain ⟨hc, rfl⟩ := orRefuse_eq_ok.mp hact
      split
      · have hslots : sweepSlots classId realStack (List.range c.frames) v =
            freeSlots classId (abandoned c realStack) v := by
          rw [abandoned_eq_filter (frames_lt_span hv.stack hc)]
          exact sweepSlots_eq hv hc List.nodup_range fun slot hslot => List.mem_range.mp hslot
        refine bind_congr_ok hslots fun n u hfreed => ?_
        have hu := (ends_freeSlots (fun _ _ => True) hv hc ((RangeMap.nodup_indices ..).filter _)
          fun slot hslot => ((mem_abandoned hv hc).mp hslot).imp_right And.left).of_ok hfreed
        exact bind_congr_ok (ih hu.wf) fun _ _ _ => rfl
      · refine bind_congr_ok rfl fun n u hfreed => ?_
        obtain ⟨-, rfl⟩ := pure_eq_ok.mp hfreed
        exact bind_congr_ok (ih hv) fun _ _ _ => rfl

/-- A collection frees and counts what going through all frames does. -/
theorem gc_eq_sweep (hv : v.WF) : gc realStack v = sweep realStack v := by
  unfold gc sweep
  rw [get_bind, get_bind]
  exact (bind_congr_ok (sweepClasses_eq hv _) fun _ _ _ => rfl).symm

end Sweep

end View

end FakeStack

end GuardedHeap
