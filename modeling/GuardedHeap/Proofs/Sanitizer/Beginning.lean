import GuardedHeap.Proofs.Kernel
import GuardedHeap.Proofs.Sanitizer.Scene

/-! # Beginnings — a fresh heap has no blocks

    Nothing is carved and nothing is mapped when a heap is made, whatever
    the pages below it hold, so its scene is empty and sound. -/

namespace GuardedHeap

open Quarantine (Entry)

/-- A scene in which nothing is, is sound. -/
theorem Scene.Sound.of_empty {failing marked : Prop} {s : Scene} (hblocks : s.blocks = ∅)
    (hopened : s.opened = ∅) (hidle : ∀ k, s.idle k = 0) (hwaiting : s.waiting = 0)
    (hbacking : s.backing = 0) (hclaimed : s.claimed = ∅) : s.Sound failing marked := by
  constructor
  case tiled =>
    rw [hblocks]
    exact ⟨nofun, nofun⟩
  case exact =>
    intro _
    rw [hopened, hclaimed, Set.union_empty]
    refine (Set.eq_empty_iff_forall_notMem.mpr ?_).symm
    rintro a ⟨b, hb, -⟩
    rw [hblocks] at hb
    exact hb.elim
  all_goals simp [hblocks, hbacking, hclaimed, hwaiting, hidle]

namespace Heap

/-- Nothing is in a heap. -/
structure Empty (h : Heap) : Prop where
  blocks : h.blocks = ∅
  opened : h.opened = ∅
  free : ∀ c, h.free c = []
  large : ∃ begin size, h.large = Large.new begin size

/-- A heap in whose tables nothing is. -/
theorem wf_new {h : Heap} (hl : h.Layout) (hregions : ∀ (c : Nat) r, h.regions[c]? = some r → r = {})
    {begin size : Nat} (hlarge : h.large = Large.new begin size) : h.WF ∧ h.Empty := by
  have hspans : h.large.spans = Spans.new h.large.begin h.large.past := by
    rw [hlarge]
    rfl
  have hbodies : h.large.bodies = [] := by
    rw [hlarge]
    rfl
  -- No region has grown, and nothing is mapped.
  have hcommitted : ∀ a, a ∉ h.committed := by
    rintro a (⟨c, r, hr, hlo, hhi⟩ | ⟨l, hl, -⟩)
    · rw [hregions c r hr] at hhi
      exact absurd hlo (Nat.not_le_of_lt hhi)
    · rw [hbodies] at hl
      exact nomatch hl
  refine ⟨⟨hl, ?_, ?_, fun a ha => (hcommitted a ha).elim, ?_⟩, ⟨?_, ?_, fun c => ?_, begin, size, hlarge⟩⟩
  · intro c r hr
    rw [hregions c r hr]
    exact Region.wf_new _ _
  · refine ⟨?_, ?_, ?_, ?_, ?_⟩
    · rw [hspans]
      refine Spans.wf_new ?_ hl.large_le
      rw [hl.large_begin]
      exact hl.primaryEnd_dvd
    · rw [hspans]
      rfl
    · rw [hbodies]
      exact nofun
    · rw [hbodies]
      exact .nil
    · rw [hbodies]
      exact nofun
  · intro c r hr a hlo hhi
    rw [hregions c r hr] at hlo
    exact absurd hhi (Nat.not_lt_of_le hlo)
  · refine Set.eq_empty_iff_forall_notMem.mpr ?_
    rintro b (⟨s, ⟨r, hr, hle⟩, rfl⟩ | ⟨l, hin, rfl⟩)
    · have hpos := hl.classes.size_pos (hl.regions ▸ lt_size_of_region hr)
      rw [hregions _ r hr] at hle
      have := Nat.mul_pos (Nat.succ_pos s.slot) hpos
      exact absurd hle (Nat.not_le_of_lt this)
    · rw [hbodies] at hin
      exact nomatch hin
  · exact Set.eq_empty_iff_forall_notMem.mpr fun a ha => hcommitted a ha.1
  · unfold free
    cases hr : h.regions[c]? with
    | none => rfl
    | some r =>
        rw [hregions c r hr]
        rfl

/-- A heap whose range is exactly as long as its parts is laid out as it should be. -/
theorem layout_heapIn {space : Mapping} {shadow : Shadow} {classes : SizeClasses} {regionLog secondaryLog : Nat}
    (pages : Pages) (hclasses : classes.Valid) (hpage : Pages.pageSize ∣ Word.powerOfTwo regionLog)
    (hsecondary : Pages.pageSize ∣ Word.powerOfTwo secondaryLog) (hpos : 0 < space.begin)
    (hdvd : Pages.pageSize ∣ space.begin)
    (hsize : space.size = classes.count * Word.powerOfTwo regionLog + Word.powerOfTwo secondaryLog)
    (hend : space.endAddr < Word.signLimit) (hbegin : shadow.appBegin = space.begin)
    (hpast : shadow.appEnd = space.begin + space.size) (hmapped : shadow.Mapped) :
    (Kernel.heapIn space shadow classes regionLog secondaryLog pages).Layout where
  classes := hclasses
  regions := Array.size_replicate
  region_pos := Word.powerOfTwo_pos _
  region_dvd := hpage
  begin_pos := hpos
  begin_dvd := hdvd
  large_begin := (Kernel.primaryEnd_heapIn space shadow classes regionLog secondaryLog pages).symm
  large_past := by
    show _ + _ = space.begin + space.size
    rw [hsize, Nat.add_assoc]
  large_le := Nat.le_add_right _ _
  end_lt := Nat.lt_trans hend (by decide)
  end_dvd := by
    show Pages.pageSize ∣ space.begin + space.size
    rw [hsize]
    exact Nat.dvd_add hdvd (Nat.dvd_add (Nat.dvd_mul_left_of_dvd hpage _) hsecondary)
  shadow_begin := hbegin
  shadow_end := hpast
  shadow_placed := ⟨hmapped.aligned, hpast ▸ hend, hmapped.array⟩

/-- A heap with room for all of its classes in a word is made empty. -/
theorem endsOrStops_create {p : Pages} {classes : SizeClasses} {regionLog secondaryLog : Nat}
    (hclasses : classes.Valid) (hpage : Pages.pageSize ∣ Word.powerOfTwo regionLog)
    (hsecondary : Pages.pageSize ∣ Word.powerOfTwo secondaryLog)
    (hprimary : classes.count * Word.powerOfTwo regionLog < Word.limit) :
    Act.EndsOrStops (create classes regionLog secondaryLog) p
      (fun h _ => h.WF ∧ h.Empty ∧ h.classes = classes ∧ Pages.Calms p h.pages)
      fun _ _ => True := by
  refine Act.endsOrStops_of_ok fun h q hmade => ?_
  rw [← Kernel.createHeap_machine] at hmade
  obtain ⟨space, shadow, u, hspace, hshadow, rfl⟩ := Kernel.of_createHeap hprimary hmade
  obtain ⟨hpos, hdvd, hsize, hend, hcalm⟩ := (Pages.ends_reserve _ _).of_ok hspace
  obtain ⟨hbegin, hpast, hmapped, hcalm'⟩ := (Shadow.endsOrStops_create _ _).of_ok hshadow
  rw [Word.roundUp_of_dvd (by decide) (Nat.dvd_add (Nat.dvd_mul_left_of_dvd hpage _) hsecondary)] at hsize
  have hlayout := layout_heapIn q hclasses hpage hsecondary hpos
    (Nat.dvd_trans (dvd_max hpage (Nat.dvd_refl _)) hdvd) hsize hend hbegin hpast hmapped
  have hnew : ∀ (c : Nat) r, (Array.replicate classes.count ({} : Region))[c]? = some r → r = {} := by
    intro c r hr
    rw [Array.getElem?_replicate] at hr
    split at hr
    · exact (Option.some.inj hr).symm
    · exact nomatch hr
  obtain ⟨hwf, hempty⟩ := wf_new hlayout hnew rfl
  exact ⟨hwf, hempty, rfl, fun harmed => hcalm' (hcalm harmed)⟩

/-- Only the operating system refuses a heap whose parts and range are words. -/
theorem ends_create {p : Pages} {classes : SizeClasses} {regionLog secondaryLog : Nat}
    (hregion : regionLog < 64) (hsecondary : secondaryLog < 64)
    (hpage : Pages.pageSize ∣ Word.powerOfTwo regionLog)
    (htotal : classes.count * Word.powerOfTwo regionLog + Word.powerOfTwo secondaryLog < Word.limit) :
    Act.Ends (create classes regionLog secondaryLog) p (fun _ _ => True)
      fun e _ => (∃ m, e = .map m) ∨ ∃ m, e = .shadow (.map m) := by
  rw [← Kernel.createHeap_machine]
  exact Kernel.lawful_machine.ends_createHeap hregion hsecondary hpage htotal

end Heap

namespace Config

/-- Checked options lie in their ranges. -/
theorem checkRanges_eq_ok {l : List (String × Nat × Nat × Nat)} (h : checkRanges l = .ok ()) :
    ∀ r ∈ l, r.2.2.1 ≤ r.2.1 ∧ r.2.1 ≤ r.2.2.2 := by
  induction l with
  | nil => exact nofun
  | cons r rest ih =>
      obtain ⟨key, value, min, max⟩ := r
      unfold checkRanges at h
      split at h
      · rename_i hrange
        exact List.forall_mem_cons.mpr ⟨hrange, ih h⟩
      · exact nomatch h

/-- A valid configuration asks for sizes that fit a word. -/
theorem ranges_of_valid {c : Config} (h : c.validate = .ok ()) :
    (20 ≤ c.regionSizeLog ∧ c.regionSizeLog ≤ 36) ∧ 24 ≤ c.secondarySpaceLog
      ∧ c.secondarySpaceLog ≤ 40 := by
  unfold validate at h
  split at h
  · have hall := checkRanges_eq_ok h
    refine ⟨hall ("region_size_log", c.regionSizeLog, 20, 36) ?_,
      hall ("secondary_space_log", c.secondarySpaceLog, 24, 40) ?_⟩
    · simp [ranges]
    · simp [ranges]
  · exact nomatch h

theorem valid_sizeClasses (c : Config) : c.sizeClasses.Valid := by
  unfold sizeClasses
  split
  · exact SizeClasses.valid_compact
  · exact SizeClasses.valid_default

end Config

namespace Sanitizer

variable {failing marked : Prop} {s : Sanitizer}

/-- A sanitizer begins with no blocks and no threads. -/
structure Fresh (s : Sanitizer) : Prop where
  heap : s.heap.Empty
  queue : s.quarantine.queue = []
  budget : s.quarantine.maxBytes = s.config.quarantineSize
  fakeStacks : s.fakeStacks = []
  threads : s.threads = []
  metrics : s.metrics = {}

theorem endsOrStops_init {config : Config} {log : EventLog} {capture : StackCapture}
    {now : Calendar.Moment} {p : Pages} (hcalm : ¬ failing → p.armed = none) :
    Act.EndsOrStops (init config log capture now) p
      (fun s _ => s.Fit failing s.threads ∧ s.Fresh ∧ s.config = config) fun _ _ => True := by
  unfold init
  cases hvalid : config.validate with
  | error e =>
      rw [Act.endsOrStops_bind]
      exact trivial
  | ok u =>
      obtain ⟨hregion, hsecondary⟩ := Config.ranges_of_valid hvalid
      have hclasses := Config.valid_sizeClasses config
      have hpage : ∀ {k}, 12 ≤ k → Pages.pageSize ∣ Word.powerOfTwo k := fun h =>
        Word.powerOfTwo_dvd (j := 12) h
      have hpower := Word.powerOfTwo_le hregion.2
      have hprimary : config.sizeClasses.count * Word.powerOfTwo config.regionSizeLog < Word.limit :=
        Nat.lt_of_le_of_lt (Nat.mul_le_mul hclasses.count_le hpower) (by decide)
      rw [Act.endsOrStops_bind]
      show Act.EndsOrStops _ p _ _
      rw [Act.endsOrStops_mapError]
      refine (Heap.endsOrStops_create hclasses (hpage (Nat.le_trans (by decide) hregion.1))
        (hpage (Nat.le_trans (by decide) hsecondary.1)) hprimary).imp ?_ fun _ _ _ => trivial
      rintro heap q ⟨hwf, hempty, hclasses, hcalms⟩
      refine ⟨?_, ⟨hempty, rfl, rfl, rfl, rfl, rfl⟩, rfl⟩
      exact
        { heap := hwf
          calm := fun hnot => hcalms (hcalm hnot)
          clock := rfl
          config := hvalid
          classes := hclasses
          queue := rfl
          cache := nofun
          batch := nofun
          ids_nodup := .nil
          id_lt := nofun
          stack := nofun
          owners_nodup := .nil
          owner_lt := nofun }

/-- The scene of a fresh sanitizer is empty, and sound. -/
theorem Fresh.sound (hfresh : s.Fresh) :
    Scene.Sound failing marked (s.scene s.threads 0) := by
  have hblocks : (s.scene s.threads 0).blocks = ∅ := hfresh.heap.blocks
  have hbacking : (s.scene s.threads 0).backing = 0 := by
    show (s.fakeStacks.map (·.stack.block) : Multiset Block) = 0
    rw [hfresh.fakeStacks]
    rfl
  have hclaimed : (s.scene s.threads 0).claimed = ∅ := by
    refine Set.eq_empty_iff_forall_notMem.mpr ?_
    rintro a ⟨o, ho, -⟩
    rw [hfresh.fakeStacks] at ho
    exact nomatch ho
  have hwaiting : (s.scene s.threads 0).waiting = 0 := by
    show (0 : Multiset Entry) + ((s.quarantine.queue : Multiset Entry) + batched s.threads) = 0
    rw [hfresh.queue, hfresh.threads]
    rfl
  have hidle : ∀ k, (s.scene s.threads 0).idle k = 0 := by
    intro k
    cases k with
    | large => rfl
    | small c =>
        show (s.heap.free c : Multiset Nat) + cached s.threads (.small c) = 0
        rw [hfresh.heap.free, hfresh.threads]
        rfl
  exact .of_empty hblocks hfresh.heap.opened hidle hwaiting hbacking hclaimed

end Sanitizer

end GuardedHeap
